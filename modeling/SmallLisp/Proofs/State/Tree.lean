import SmallLisp.Proofs.State.Frames

/-!
# The tree of frames

In a heap whose frames all hang off older ones, the frames form a tree: the way outward from a frame
comes to the first frame of all, never returns, and is no longer than the number of the frame says.
Main statements: every frame hangs in the tree (`outward_root`), which has no cycles (`antisymm`),
and the walk outward is never cut short (`outward?_eq`, `outward?_eq_none_iff`).
-/

namespace SmallLisp.Heap

variable {α : Type} {h : Heap} {pick : FrameId → Frame → Option α} {g f : FrameId}

theorem Outward.next {frame : Frame} {outer : FrameId} (outward : h.Outward g f)
    (there : h.frame? f = some frame) (off : frame.outer = some outer) : h.Outward g outer := by
  induction outward with
  | self => exact .step there off (.self outer)
  | step there' off' _ ih => exact .step there' off' (ih there)

/-- The way outward leads to older frames. -/
theorem Outward.le (rooted : h.Rooted) (outward : h.Outward g f) : f ≤ g := by
  induction outward with
  | self => exact Nat.le_refl _
  | step there off _ ih => exact Nat.le_trans ih (Nat.le_of_lt (rooted.outer_lt there off))

theorem Outward.antisymm (rooted : h.Rooted) (outward : h.Outward g f)
    (back : h.Outward f g) : g = f :=
  Nat.le_antisymm (back.le rooted) (outward.le rooted)

theorem Rooted.outward_root (rooted : h.Rooted) (there : g < h.size) : h.Outward g 0 := by
  induction g using Nat.strongRecOn with
  | ind g ih =>
    obtain ⟨frame, found⟩ := exists_frame there
    cases off : frame.outer with
    | none =>
      have first : g = 0 := by simpa [off] using rooted g frame found
      exact first ▸ .self g
    | some outer =>
      have older := rooted.outer_lt found off
      exact .step found off (ih outer older (Nat.lt_trans older there))

/-- More steps than the number of the frame says find nothing else. -/
theorem Rooted.outward?_eq (rooted : h.Rooted) {steps : Nat} (enough : g < steps) :
    h.outward? pick steps g = h.outward? pick (g + 1) g := by
  induction g using Nat.strongRecOn generalizing steps with
  | ind g ih =>
    cases steps with
    | zero => exact absurd enough (Nat.not_lt_zero g)
    | succ steps =>
      unfold outward?
      cases there : h.frame? g with
      | none => rfl
      | some frame =>
        cases off : frame.outer with
        | none => simp only [off]
        | some outer =>
          -- both walks go on from `outer`, from where `outer + 1` steps are as good as more
          have older := rooted.outer_lt there off
          have onward : h.outward? pick steps outer = h.outward? pick g outer := by
            rw [ih outer older (Nat.lt_of_lt_of_le older (Nat.le_of_lt_succ enough)),
              ih outer older older]
          simp only [off, onward]

/-- Nothing is found only if no frame on the way outward answers. -/
theorem Rooted.outward?_eq_none_iff (rooted : h.Rooted) :
    h.outward? pick (g + 1) g = none ↔
      ∀ f frame, h.Outward g f → h.frame? f = some frame → pick f frame = none := by
  constructor
  · intro nothing f frame outward there
    induction outward with
    | self g =>
      unfold outward? at nothing
      simp only [there] at nothing
      split at nothing
      · cases nothing
      · assumption
    | @step g outer f onWay there' off _ ih =>
      refine ih ?_ there
      have older := rooted.outer_lt there' off
      unfold outward? at nothing
      simp only [there', off] at nothing
      split at nothing
      · cases nothing
      · rwa [rooted.outward?_eq older] at nothing
  · intro silent
    cases found : h.outward? pick (g + 1) g with
    | none => rfl
    | some a =>
      obtain ⟨f, frame, outward, there, answer⟩ :=
        exists_onWay_of_outward? (fun _ _ _ => Outward.next) (.self g) found
      rw [silent f frame outward there] at answer
      cases answer

/-- The value of a symbol is what the nearest frame with the symbol binds it to. -/
theorem lookup?_eq (h : Heap) (g : FrameId) (x : Symbol) :
    h.lookup? g x = (h.find? g x).bind fun owner => (h.frame? owner).bind (·.get? x) := by
  unfold lookup? find?
  generalize g + 1 = steps
  induction steps generalizing g with
  | zero => rfl
  | succ steps ih =>
    unfold outward?
    cases there : h.frame? g with
    | none => rfl
    | some frame =>
      cases bound : frame.get? x with
      | some v => simp [Frame.binds, bound, there]
      | none =>
        cases off : frame.outer with
        | none => simp [Frame.binds, bound, off]
        | some outer => simpa [Frame.binds, bound, off] using ih outer

/-- A symbol is found in a frame on the way outward that binds it, or there is none. -/
theorem Rooted.find?_cases (rooted : h.Rooted) (g : FrameId) (x : Symbol) :
    (∃ owner frame, h.find? g x = some owner ∧ h.Outward g owner ∧ h.frame? owner = some frame ∧
      frame.binds x = true) ∨
    h.find? g x = none ∧
      ∀ f frame, h.Outward g f → h.frame? f = some frame → frame.binds x = false := by
  cases found : h.find? g x with
  | some owner =>
    obtain ⟨f, frame, outward, there, picked⟩ :=
      exists_onWay_of_outward? (fun _ _ _ => Outward.next) (.self g) found
    split at picked
    · cases picked
      exact .inl ⟨owner, frame, rfl, outward, there, ‹_›⟩
    · cases picked
  | none =>
    refine .inr ⟨rfl, fun f frame outward there => ?_⟩
    have unpicked := rooted.outward?_eq_none_iff.1 found f frame outward there
    simpa using unpicked

end SmallLisp.Heap
