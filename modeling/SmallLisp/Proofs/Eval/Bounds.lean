import SmallLisp.Proofs.Failure
import SmallLisp.World

/-!
# Runs that end within their bounds

A run may be stopped because its levels or its calls are used up, and nothing is said then about
what the program means. Runs are ordered by this: `x ≤ y` means that `y` does what `x` does wherever
`x` is not stopped by its bounds. Main statements: sequencing respects the order (`boundOrder`), and
what ends at the lower end of the order ends in the same way at the upper end (`Ends.of_le`).
-/

namespace SmallLisp

/-- The run was stopped by its bounds, and not by the program. -/
def Stop.IsBound (s : Stop) : Prop := s = .error .stackExhausted ∨ s = .unfinished

namespace EvalM

variable {α β : Type}

theorem runFrom_pure (w : World) (a : α) : (pure a : EvalM α).runFrom w = (.ok a, w) := rfl

theorem runFrom_ofExcept (w : World) (x : Except Error α) :
    (ofExcept x).runFrom w = (x.mapError Stop.error, w) := by
  cases x <;> rfl

theorem runFrom_bind_ok {w w' : World} {x : EvalM α} {a : α} (h : x.runFrom w = (.ok a, w'))
    (f : α → EvalM β) : (x >>= f).runFrom w = (f a).runFrom w' := by
  simp only [runFrom, ExceptT.run_bind, StateT.run_bind] at h ⊢
  rw [h]
  rfl

theorem runFrom_bind_error {w w' : World} {x : EvalM α} {s : Stop}
    (h : x.runFrom w = (.error s, w')) (f : α → EvalM β) :
    (x >>= f).runFrom w = (.error s, w') := by
  simp only [runFrom, ExceptT.run_bind, StateT.run_bind] at h ⊢
  rw [h]
  rfl

theorem runFrom_get_bind (w : World) (f : World → EvalM α) :
    (get >>= f).runFrom w = (f w).runFrom w := rfl

theorem runFrom_lookup_of_some {w : World} {f : FrameId} {x : Symbol} {v : Value}
    (found : w.heap.lookup? f x = some v) : (lookup f x).runFrom w = (.ok v, w) := by
  rw [lookup, runFrom_get_bind, found]
  rfl

theorem runFrom_lookup_of_none {w : World} {f : FrameId} {x : Symbol}
    (found : w.heap.lookup? f x = none) :
    (lookup f x).runFrom w = (.error (.error (.undefinedSymbol x.name)), w) := by
  rw [lookup, runFrom_get_bind, found]
  rfl

theorem runFrom_assign_of_some {w : World} {f owner : FrameId} {x : Symbol}
    (found : w.heap.find? f x = some owner) (v : Value) :
    (assign f x v).runFrom w = (.ok owner, { w with heap := w.heap.define owner x v }) := by
  rw [assign, runFrom_get_bind, found]
  rfl

theorem runFrom_assign_of_none {w : World} {f : FrameId} {x : Symbol}
    (found : w.heap.find? f x = none) (v : Value) :
    (assign f x v).runFrom w = (.error (.error (.unboundAssignment x.name)), w) := by
  rw [assign, runFrom_get_bind, found]
  rfl

/-- The run stops from the state for one of the reasons. -/
def StopsFor (among : Stop → Prop) (x : EvalM α) (w : World) : Prop :=
  ∃ s w', among s ∧ x.runFrom w = (.error s, w')

/-- `y` does what `x` does, from every state from which `x` does not stop for one of the reasons.
Sequencing respects this. -/
def keptUnless (among : Stop → Prop) : Congruence EvalM where
  Rel x y := ∀ w, x.StopsFor among w ∨ x.runFrom w = y.runFrom w
  refl _ _ := .inr rfl
  bind {α β x y f g} hx hf w := by
    rcases hx w with ⟨s, w', reason, run⟩ | same
    · exact .inl ⟨s, w', reason, runFrom_bind_error run f⟩
    rcases run : x.runFrom w with ⟨s | a, w'⟩
    · rw [runFrom_bind_error run, runFrom_bind_error (same.symm.trans run)]
      exact .inr rfl
    · rw [runFrom_bind_ok (same.symm.trans run)]
      rcases hf a w' with ⟨s, w'', reason, run'⟩ | same'
      · exact .inl ⟨s, w'', reason, (runFrom_bind_ok run f).trans run'⟩
      · exact .inr ((runFrom_bind_ok run f).trans same')

/-- The run is stopped by its bounds when it starts from the state. -/
def Exhausts (x : EvalM α) (w : World) : Prop :=
  ∃ s w', s.IsBound ∧ x.runFrom w = (.error s, w')

/-- Runs within more bounds: `y` does what `x` does, from every state from which `x` is not stopped
by its bounds. -/
instance : Preorder (EvalM α) where
  le x y := ∀ w, x.Exhausts w ∨ x.runFrom w = y.runFrom w
  le_refl _ _ := .inr rfl
  le_trans x y z xy yz w := by
    rcases xy w with stopped | same
    · exact .inl stopped
    · rcases yz w with ⟨s, w', bound, run⟩ | same'
      · exact .inl ⟨s, w', bound, same.trans run⟩
      · exact .inr (same.trans same')

theorem fail_stackExhausted_le (x : EvalM α) : fail .stackExhausted ≤ x := fun w =>
  .inl ⟨_, w, .inl rfl, rfl⟩

theorem unfinished_le (x : EvalM α) : throw .unfinished ≤ x := fun w =>
  .inl ⟨_, w, .inr rfl, rfl⟩

theorem bind_le_bind {x y : EvalM α} {f g : α → EvalM β} (hx : x ≤ y) (hf : ∀ a, f a ≤ g a) :
    x >>= f ≤ y >>= g :=
  (keptUnless Stop.IsBound).bind hx hf

/-- Sequencing respects the order of runs. -/
def boundOrder : Congruence EvalM where
  Rel x y := x ≤ y
  refl x := le_refl x
  bind := bind_le_bind

theorem ofExcept_le_ofExcept {x y : Except Error α} (h : x ≤ y) : ofExcept x ≤ ofExcept y := by
  rcases h with rfl | rfl
  · exact fail_stackExhausted_le _
  · exact le_refl _

theorem ofExcept_bind (x : Except Error α) (f : α → Except Error β) :
    ofExcept (x >>= f) = ofExcept x >>= fun a => ofExcept (f a) := by
  cases x <;> rfl

/-- The run ends from a state, without being stopped by its bounds: with a value or an error of the
program, and in a state. -/
def Ends (x : EvalM α) (w : World) (result : Except Error α) (w' : World) : Prop :=
  x.runFrom w = (result.mapError Stop.error, w') ∧ result ≠ .error .stackExhausted

namespace Ends

variable {x y : EvalM α} {w w' w'' : World} {result other : Except Error α}

theorem unique (h : x.Ends w result w') (h' : x.Ends w other w'') :
    result = other ∧ w' = w'' := by
  obtain ⟨same, rfl⟩ := Prod.mk.inj (h.1.symm.trans h'.1)
  refine ⟨?_, rfl⟩
  cases result <;> cases other <;> cases same <;> rfl

theorem not_exhausts (h : x.Ends w result w') : ¬ x.Exhausts w := by
  rintro ⟨s, w'', bound, run⟩
  obtain ⟨same, -⟩ := Prod.mk.inj (h.1.symm.trans run)
  cases result with
  | ok a => cases same
  | error e =>
    cases same
    rcases bound with bound | bound
    · cases bound
      exact h.2 rfl
    · cases bound

/-- What ends within some bounds ends in the same way within more. -/
theorem of_le (h : x.Ends w result w') (le : x ≤ y) : y.Ends w result w' :=
  ⟨((le w).resolve_left h.not_exhausts).symm.trans h.1, h.2⟩

theorem bind_ok {f : α → EvalM β} {a : α} {result : Except Error β} (h : x.Ends w (.ok a) w')
    (next : (f a).Ends w' result w'') : (x >>= f).Ends w result w'' :=
  ⟨(runFrom_bind_ok h.1 f).trans next.1, next.2⟩

theorem bind_error {e : Error} (h : x.Ends w (.error e) w') (f : α → EvalM β) :
    (x >>= f).Ends w (.error e) w' :=
  ⟨runFrom_bind_error h.1 f, fun same => h.2 (by cases same; rfl)⟩

/-- A sequence ends with the error of its first part, or with the end of its second. -/
theorem of_bind {f : α → EvalM β} {result : Except Error β} (h : (x >>= f).Ends w result w'') :
    (∃ e, x.Ends w (.error e) w'' ∧ result = .error e) ∨
      ∃ a w', x.Ends w (.ok a) w' ∧ (f a).Ends w' result w'' := by
  obtain ⟨run, inside⟩ := h
  rcases first : x.runFrom w with ⟨s | a, w'⟩
  · rw [runFrom_bind_error first] at run
    cases result with
    | ok b => cases run
    | error e =>
      cases run
      exact .inl ⟨e, ⟨first, fun same => inside (by cases same; rfl)⟩, rfl⟩
  · rw [runFrom_bind_ok first] at run
    exact .inr ⟨a, w', ⟨first, nofun⟩, run, inside⟩

end Ends

end EvalM

end SmallLisp
