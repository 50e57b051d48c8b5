import SmallLisp.Heap.Basic

/-!
# Frames and the way outward

What binding a symbol does to the names of a frame, and what is found on the way outward from a
frame. Main statements: names stay where they are when a symbol is bound (`names_isPrefix_put`), and
two heaps whose frames answer alike give the same on the way outward (`outward?_congr`).
-/

namespace SmallLisp

namespace Frame

theorem mem_of_get? {f : Frame} {x : Symbol} {v : Value} (h : f.get? x = some v) :
    (x, v) ∈ f.bindings := by
  obtain ⟨outer, bindings⟩ := f
  induction bindings with
  | nil => cases h
  | cons entry rest ih =>
    obtain ⟨y, w⟩ := entry
    by_cases same : x = y
    · simp only [get?, getBinding?, if_pos same] at h
      cases h
      rw [same]
      exact List.mem_cons_self
    · simp only [get?, getBinding?, if_neg same] at h
      exact List.mem_cons_of_mem _ (ih h)

theorem mem_of_mem_put {f : Frame} {x : Symbol} {v : Value} {entry : Symbol × Value}
    (h : entry ∈ (f.put x v).bindings) : entry = (x, v) ∨ entry ∈ f.bindings := by
  obtain ⟨outer, bindings⟩ := f
  induction bindings with
  | nil => exact .inl (List.mem_singleton.1 h)
  | cons first rest ih =>
    obtain ⟨y, w⟩ := first
    by_cases same : x = y
    · simp only [put, putBinding, if_pos same] at h
      rcases List.mem_cons.1 h with new | old
      · exact .inl new
      · exact .inr (List.mem_cons_of_mem _ old)
    · simp only [put, putBinding, if_neg same] at h
      rcases List.mem_cons.1 h with rfl | other
      · exact .inr List.mem_cons_self
      · exact (ih other).imp_right (List.mem_cons_of_mem _)

theorem binds_iff (f : Frame) (x : Symbol) : f.binds x = true ↔ x ∈ f.names := by
  obtain ⟨outer, bindings⟩ := f
  induction bindings with
  | nil => exact ⟨nofun, nofun⟩
  | cons entry rest ih =>
    obtain ⟨y, w⟩ := entry
    by_cases same : x = y
    · simp [binds, get?, getBinding?, names, same]
    · simpa [binds, get?, getBinding?, names, same] using ih

theorem binds_congr {f f' : Frame} (same : f'.names = f.names) (x : Symbol) :
    f'.binds x = f.binds x := by
  rw [Bool.eq_iff_iff, binds_iff, binds_iff, same]

theorem names_put_of_binds {f : Frame} {x : Symbol} (h : f.binds x = true) (v : Value) :
    (f.put x v).names = f.names := by
  obtain ⟨outer, bindings⟩ := f
  induction bindings with
  | nil => cases h
  | cons entry rest ih =>
    obtain ⟨y, w⟩ := entry
    by_cases same : x = y
    · subst same
      simp [put, names, putBinding]
    · simp only [binds, get?, getBinding?, if_neg same] at h
      have kept := ih h
      simp only [put, names, putBinding, if_neg same, List.map_cons] at kept ⊢
      rw [kept]

theorem names_put_of_not_binds {f : Frame} {x : Symbol} (h : f.binds x = false) (v : Value) :
    (f.put x v).names = f.names ++ [x] := by
  obtain ⟨outer, bindings⟩ := f
  induction bindings with
  | nil => rfl
  | cons entry rest ih =>
    obtain ⟨y, w⟩ := entry
    by_cases same : x = y
    · subst same
      simp [binds, get?, getBinding?] at h
    · simp only [binds, get?, getBinding?, if_neg same] at h
      have kept := ih h
      simp only [put, names, putBinding, if_neg same, List.map_cons, List.cons_append] at kept ⊢
      rw [kept]

/-- Binding a symbol keeps the names in order, with the symbol behind them if it is new. -/
theorem names_isPrefix_put (f : Frame) (x : Symbol) (v : Value) :
    f.names <+: (f.put x v).names := by
  cases bound : f.binds x with
  | true => exact ⟨[], by rw [names_put_of_binds bound, List.append_nil]⟩
  | false => exact ⟨[x], (names_put_of_not_binds bound v).symm⟩

end Frame

namespace Heap

variable {α : Type} {h h' : Heap} {pick pick' : FrameId → Frame → Option α}

/-- Every frame hangs off an older one, the first of all aside. -/
def Rooted (h : Heap) : Prop :=
  ∀ g frame, h.frame? g = some frame → frame.outer.elim (g = 0) (· < g)

/-- Following outer frames, one comes from the first frame to the second. -/
inductive Outward (h : Heap) : FrameId → FrameId → Prop
  | self (g : FrameId) : h.Outward g g
  | step {g outer f : FrameId} {frame : Frame} : h.frame? g = some frame →
    frame.outer = some outer → h.Outward outer f → h.Outward g f

theorem exists_frame {g : FrameId} (there : g < h.size) : ∃ frame, h.frame? g = some frame :=
  ⟨h.frames[g], Array.getElem?_eq_getElem there⟩

theorem lt_size_of_frame? {g : FrameId} {frame : Frame} (there : h.frame? g = some frame) :
    g < h.size := by
  refine Nat.lt_of_not_le fun missing => ?_
  rw [(h.frame?_eq_none_iff g).2 missing] at there
  cases there

/-- What holds of all bindings still does when one is made of which it holds. -/
theorem forall_bound_define {P : Symbol × Value → Prop}
    (all : ∀ g frame, h.frame? g = some frame → ∀ entry ∈ frame.bindings, P entry) {f : FrameId}
    {x : Symbol} {v : Value} (new : P (x, v)) :
    ∀ g frame, (h.define f x v).frame? g = some frame → ∀ entry ∈ frame.bindings, P entry := by
  intro g frame there entry bound
  rw [frame?_define] at there
  split at there
  · obtain ⟨old, there', rfl⟩ := Option.map_eq_some_iff.1 there
    rcases Frame.mem_of_mem_put bound with rfl | bound
    · exact new
    · exact all g old there' entry bound
  · exact all g frame there entry bound

theorem forall_bound_extend {P : Symbol × Value → Prop}
    (all : ∀ g frame, h.frame? g = some frame → ∀ entry ∈ frame.bindings, P entry)
    {outer : Option FrameId} :
    ∀ g frame, (h.extend outer).frame? g = some frame → ∀ entry ∈ frame.bindings, P entry := by
  intro g frame there entry bound
  rw [frame?_extend] at there
  split at there
  · cases there
    cases bound
  · exact all g frame there entry bound

/-- The way outward goes on in an older frame. -/
theorem Rooted.outer_lt (rooted : h.Rooted) {g outer : FrameId} {frame : Frame}
    (there : h.frame? g = some frame) (off : frame.outer = some outer) : outer < g := by
  have older := rooted g frame there
  rw [off] at older
  exact older

theorem Rooted.define (rooted : h.Rooted) (f : FrameId) (x : Symbol) (v : Value) :
    (h.define f x v).Rooted := by
  intro g frame there
  rw [frame?_define] at there
  split at there
  · obtain ⟨old, there', rfl⟩ := Option.map_eq_some_iff.1 there
    exact rooted g old there'
  · exact rooted g frame there

theorem Rooted.extend (rooted : h.Rooted) {outer : Option FrameId}
    (within : outer.elim (h.size = 0) (· < h.size)) : (h.extend outer).Rooted := by
  intro g frame there
  rw [frame?_extend] at there
  split at there
  · rename_i new
    cases there
    rw [new]
    exact within
  · exact rooted g frame there

/-- What is found on the way outward is what some frame on the way answers. -/
theorem exists_onWay_of_outward? {OnWay : FrameId → Prop}
    (onward : ∀ g frame outer, OnWay g → h.frame? g = some frame → frame.outer = some outer →
      OnWay outer)
    {steps : Nat} {f : FrameId} (onWay : OnWay f) {a : α}
    (found : h.outward? pick steps f = some a) :
    ∃ g frame, OnWay g ∧ h.frame? g = some frame ∧ pick g frame = some a := by
  induction steps generalizing f with
  | zero => cases found
  | succ steps ih =>
    unfold outward? at found
    split at found
    · cases found
    · rename_i frame there
      split at found
      · cases found
        exact ⟨f, frame, onWay, there, ‹_›⟩
      · split at found
        · exact ih (onward f frame _ onWay there ‹_›) found
        · cases found

theorem outward?_eq_some {steps : Nat} {f : FrameId} {a : α}
    (found : h.outward? pick steps f = some a) :
    ∃ g frame, h.frame? g = some frame ∧ pick g frame = some a := by
  have onward (g : FrameId) (frame : Frame) (outer : FrameId) : True → h.frame? g = some frame →
      frame.outer = some outer → True := fun _ _ _ => trivial
  obtain ⟨g, frame, -, there, picked⟩ := exists_onWay_of_outward? onward trivial found
  exact ⟨g, frame, there, picked⟩

/-- The frame in which a symbol is found binds it. -/
theorem binds_of_find? {f owner : FrameId} {x : Symbol} (found : h.find? f x = some owner) :
    ∃ frame, h.frame? owner = some frame ∧ frame.binds x = true := by
  obtain ⟨g, frame, there, picked⟩ := outward?_eq_some found
  split at picked
  · cases picked
    exact ⟨frame, there, ‹_›⟩
  · cases picked

/-- If the frames on the way outward answer alike in two heaps, the same is found in both. -/
theorem outward?_congr {OnWay : FrameId → Prop}
    (alike : ∀ g, OnWay g → ∃ frame frame', h.frame? g = some frame ∧ h'.frame? g = some frame' ∧
      frame'.outer = frame.outer ∧ pick' g frame' = pick g frame ∧
      ∀ outer, frame.outer = some outer → OnWay outer)
    (steps : Nat) {f : FrameId} (onWay : OnWay f) :
    h'.outward? pick' steps f = h.outward? pick steps f := by
  induction steps generalizing f with
  | zero => rfl
  | succ steps ih =>
    obtain ⟨frame, frame', there, there', outer', answer, onward⟩ := alike f onWay
    unfold outward?
    simp only [there, there', outer', answer]
    cases off : frame.outer with
    | none => rfl
    | some outer => simp only [ih (onward outer off)]

/-- If the frames of a heap stay where they are in another, and answer there if they did, something
is found still. -/
theorem outward?_isSome
    (answers : ∀ g frame, h.frame? g = some frame → ∃ frame', h'.frame? g = some frame' ∧
      frame'.outer = frame.outer ∧ ((pick g frame).isSome = true → (pick' g frame').isSome = true))
    (steps : Nat) {f : FrameId} (found : (h.outward? pick steps f).isSome = true) :
    (h'.outward? pick' steps f).isSome = true := by
  induction steps generalizing f with
  | zero => cases found
  | succ steps ih =>
    unfold outward? at found ⊢
    cases there : h.frame? f with
    | none =>
      rw [there] at found
      cases found
    | some frame =>
      obtain ⟨frame', there', outer', answer⟩ := answers f frame there
      simp only [there, there', outer'] at found ⊢
      cases picked' : pick' f frame' with
      | some a => rfl
      | none =>
        have unpicked : pick f frame = none := by
          cases picked : pick f frame with
          | none => rfl
          | some a =>
            have answered := answer (by rw [picked]; rfl)
            rw [picked'] at answered
            cases answered
        rw [unpicked] at found
        cases off : frame.outer with
        | none =>
          rw [off] at found
          cases found
        | some outer =>
          rw [off] at found
          exact ih found

end Heap

end SmallLisp
