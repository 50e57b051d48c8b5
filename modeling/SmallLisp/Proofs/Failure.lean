import Mathlib.Order.Monotone.Defs
import SmallLisp.Error

/-!
# Computations that may fail

A computation that goes down too many levels fails, and says nothing then about what it would give
with more of them: `x ≤ y` means that `y` gives what `x` gives, unless `x` runs out of levels. Main
statements: how a sequence succeeds (`bind_eq_ok`), how a row fails (`mapM_eq_error`), when a
sequence fails only with errors of the language (`failsInLanguage_bind_iff`), and that sequencing
respects the order (`boundOrder`).
-/

namespace SmallLisp

/-- A relation between computations that sequencing respects. -/
structure Congruence (m : Type → Type) [Monad m] where
  Rel {α : Type} : m α → m α → Prop
  refl {α : Type} (x : m α) : Rel x x
  bind {α β : Type} {x y : m α} {f g : α → m β} :
    Rel x y → (∀ a, Rel (f a) (g a)) → Rel (x >>= f) (y >>= g)

namespace Congruence

variable {m : Type → Type} [Monad m]

/-- Equality of computations. -/
def equality : Congruence m where
  Rel x y := x = y
  refl _ := rfl
  bind hx hf := by
    rw [hx, funext hf]

/-- The same computation goes first on both sides. -/
theorem bind_left (c : Congruence m) {α β : Type} (x : m α) {f g : α → m β}
    (h : ∀ a, c.Rel (f a) (g a)) : c.Rel (x >>= f) (x >>= g) :=
  c.bind (c.refl x) h

theorem mapM [LawfulMonad m] (c : Congruence m) {α β : Type} {f g : α → m β}
    (h : ∀ a, c.Rel (f a) (g a)) (items : List α) : c.Rel (items.mapM f) (items.mapM g) := by
  induction items with
  | nil => exact c.refl _
  | cons a items ih =>
    rw [List.mapM_cons, List.mapM_cons]
    exact c.bind (h a) fun b => c.bind ih fun bs => c.refl (pure (b :: bs))

end Congruence

namespace Except

theorem bind_eq_ok {α β : Type} {x : Except Error α} {f : α → Except Error β} {b : β} :
    x >>= f = .ok b ↔ ∃ a, x = .ok a ∧ f a = .ok b := by
  constructor
  · intro h
    cases x with
    | error e => cases h
    | ok a => exact ⟨a, rfl, h⟩
  · rintro ⟨a, rfl, h⟩
    exact h

/-- Once something is found wrong, nothing is given, whatever is written about it. -/
theorem bind_error_ne_ok {α β : Type} {x : Except Error α} {e : α → Error} {b : β} :
    (x >>= fun a => .error (e a)) ≠ .ok b := by
  intro h
  obtain ⟨a, -, given⟩ := bind_eq_ok.1 h
  cases given

theorem bind_eq_error {α β : Type} {x : Except Error α} {f : α → Except Error β} {e : Error} :
    x >>= f = .error e ↔ x = .error e ∨ ∃ a, x = .ok a ∧ f a = .error e := by
  constructor
  · intro h
    cases x with
    | error e' => cases h; exact .inl rfl
    | ok a => exact .inr ⟨a, rfl, h⟩
  · rintro (rfl | ⟨a, rfl, h⟩)
    · rfl
    · exact h

/-- A row fails as the first of its elements that fails. -/
theorem mapM_eq_error {α β : Type} {f : α → Except Error β} {items : List α} {e : Error} :
    items.mapM f = .error e ↔ ∃ before a after, items = before ++ a :: after ∧
      (∀ b ∈ before, ∃ c, f b = .ok c) ∧ f a = .error e := by
  induction items with
  | nil =>
    constructor
    · nofun
    · rintro ⟨before, a, after, whole, -⟩
      cases before <;> cases whole
  | cons item items ih =>
    rw [List.mapM_cons, bind_eq_error]
    constructor
    · rintro (fails | ⟨c, given, fails⟩)
      · exact ⟨[], item, items, rfl, by simp, fails⟩
      · rcases bind_eq_error.1 fails with fails | ⟨cs, -, fails⟩
        · obtain ⟨before, a, after, rfl, others, fails⟩ := ih.1 fails
          exact ⟨item :: before, a, after, rfl, List.forall_mem_cons.2 ⟨⟨c, given⟩, others⟩, fails⟩
        · cases fails
    · rintro ⟨before, a, after, whole, others, fails⟩
      cases before with
      | nil =>
        cases whole
        exact .inl fails
      | cons b before =>
        cases whole
        obtain ⟨⟨c, given⟩, others⟩ := List.forall_mem_cons.1 others
        refine .inr ⟨c, given, bind_eq_error.2 (.inl ?_)⟩
        exact ih.2 ⟨before, a, after, rfl, others, fails⟩

theorem map_eq_ok {α β : Type} {x : Except Error α} {f : α → β} {b : β} :
    x.map f = .ok b ↔ ∃ a, x = .ok a ∧ f a = b := by
  constructor
  · intro h
    cases x with
    | error e => cases h
    | ok a =>
      cases h
      exact ⟨a, rfl, rfl⟩
  · rintro ⟨a, rfl, rfl⟩
    rfl

/-- What is computed within more bounds: `y` gives what `x` gives, unless `x` runs out of levels. -/
instance {α : Type} : Preorder (Except Error α) where
  le x y := x = .error .stackExhausted ∨ x = y
  le_refl _ := .inr rfl
  le_trans x y z := by
    rintro (bound | rfl) yz
    · exact .inl bound
    · exact yz

theorem stackExhausted_le {α : Type} (x : Except Error α) : .error .stackExhausted ≤ x := .inl rfl

/-- Sequencing respects the order of computations. -/
def boundOrder : Congruence (Except Error) where
  Rel x y := x ≤ y
  refl x := le_refl x
  bind {α β x y f g} hx hf := by
    rcases hx with rfl | rfl
    · exact .inl rfl
    · cases x with
      | error e => exact le_refl _
      | ok a => exact hf a

end Except

/-- If the computation fails, then with an error of the language. -/
def FailsInLanguage {α : Type} (x : Except Error α) : Prop :=
  ∀ e, x = .error e → e.kind.inLanguage = true

section FailsInLanguage

variable {α β : Type}

@[simp] theorem failsInLanguage_ok (a : α) : FailsInLanguage (.ok a) := nofun

@[simp] theorem failsInLanguage_pure (a : α) : FailsInLanguage (pure a) := nofun

@[simp] theorem failsInLanguage_error (e : Error) :
    FailsInLanguage (.error e : Except Error α) ↔ e.kind.inLanguage = true := by
  simp [FailsInLanguage]

theorem failsInLanguage_bind_iff {x : Except Error α} {f : α → Except Error β} :
    FailsInLanguage (x >>= f) ↔ FailsInLanguage x ∧ ∀ a, x = .ok a → FailsInLanguage (f a) := by
  constructor
  · intro h
    refine ⟨fun e fails => h e (Except.bind_eq_error.2 (.inl fails)), fun a given e fails => ?_⟩
    exact h e (Except.bind_eq_error.2 (.inr ⟨a, given, fails⟩))
  · rintro ⟨first, next⟩ e fails
    rcases Except.bind_eq_error.1 fails with fails | ⟨a, given, fails⟩
    · exact first e fails
    · exact next a given e fails

theorem FailsInLanguage.bind {x : Except Error α} {f : α → Except Error β} (h : FailsInLanguage x)
    (next : ∀ a, x = .ok a → FailsInLanguage (f a)) : FailsInLanguage (x >>= f) :=
  failsInLanguage_bind_iff.2 ⟨h, next⟩

theorem failsInLanguage_bind_pure_iff {x : Except Error α} {f : α → β} :
    FailsInLanguage (do return f (← x)) ↔ FailsInLanguage x :=
  failsInLanguage_bind_iff.trans ⟨And.left, fun h => ⟨h, fun a _ => failsInLanguage_pure (f a)⟩⟩

theorem failsInLanguage_map_iff {x : Except Error α} {f : α → β} :
    FailsInLanguage (x.map f) ↔ FailsInLanguage x := by
  cases x <;> simp [Except.map]

theorem failsInLanguage_mapM {f : α → Except Error β} {items : List α}
    (h : ∀ a ∈ items, FailsInLanguage (f a)) : FailsInLanguage (items.mapM f) := by
  intro e fails
  obtain ⟨before, a, after, rfl, -, fails⟩ := Except.mapM_eq_error.1 fails
  exact h a (by simp) e fails

end FailsInLanguage

end SmallLisp
