import SmallLisp.Eval.Rules
import SmallLisp.Proofs.Eval.Failures

/-!
# Comparisons

A comparison looks at all its arguments before it compares any, and then compares neighbours only.
As the orders of the integers are transitive, neighbours are enough. Main statements: a row either
is all numbers or fails with its first argument that is none (`numbers_cases`), a comparison of
integers holds between neighbours if and only if it holds between any two (`isChain_int`), and from
these what comparisons of any length give (`comparisons_checked_and_sorted`).
-/

namespace SmallLisp

/-- The value is a number. Truth values are not. -/
def Value.IsNumber (v : Value) : Prop := ∃ n, v = .number n

theorem Value.not_isNumber_bool (b : Bool) : ¬ (Value.bool b).IsNumber := by
  rintro ⟨n, same⟩
  cases same

theorem Value.forall_isNumber_map (ns : List Number) : ∀ v ∈ ns.map Value.number, v.IsNumber :=
  List.forall_mem_map.2 fun n _ => ⟨n, rfl⟩

/-! ### The check of the arguments -/

namespace Builtin

variable {op : Builtin} {levels : Nat} {v : Value}

theorem exists_numberArgument_iff : (∃ n, op.numberArgument levels v = .ok n) ↔ v.IsNumber := by
  constructor
  · rintro ⟨n, given⟩
    unfold numberArgument at given
    split at given
    · exact ⟨_, rfl⟩
    · exact absurd given Except.bind_error_ne_ok
  · rintro ⟨n, rfl⟩
    exact ⟨n, rfl⟩

theorem numberArgument_of_text {shown : String} (other : ¬ v.IsNumber)
    (text : v.text levels = .ok shown) :
    op.numberArgument levels v = .error (.notNumber op shown) := by
  unfold numberArgument
  split
  · exact absurd ⟨_, rfl⟩ other
  · rw [text]
    rfl

/-- The first argument that is no number is reported, whatever comes behind it. -/
theorem numbers_of_text {before : List Value} {shown : String} (numbers : ∀ n ∈ before, n.IsNumber)
    (other : ¬ v.IsNumber) (text : v.text levels = .ok shown) (after : List Value) :
    op.numbers levels (before ++ v :: after) = .error (.notNumber op shown) :=
  Except.mapM_eq_error.2 ⟨before, v, after, rfl,
    fun n mem => exists_numberArgument_iff.2 (numbers n mem), numberArgument_of_text other text⟩

/-- A row of arguments is all numbers, or there is a first one that is none. -/
theorem numbers_cases (args : List Value) : (∃ ns : List Number, args = ns.map Value.number) ∨
    ∃ before v after, args = before ++ v :: after ∧ (∀ n ∈ before, n.IsNumber) ∧ ¬ v.IsNumber := by
  -- The check itself finds the place, whichever operation makes it.
  cases checked : Builtin.less.numbers 0 args with
  | ok ns => exact .inl ⟨ns, numbers_eq_ok checked⟩
  | error e =>
    obtain ⟨before, v, after, whole, passed, failed⟩ := Except.mapM_eq_error.1 checked
    refine .inr ⟨before, v, after, whole, fun n mem => exists_numberArgument_iff.1 (passed n mem),
      fun number => ?_⟩
    obtain ⟨n, given⟩ := exists_numberArgument_iff.2 number
    rw [given] at failed
    cases failed

end Builtin

/-! ### Neighbours and all pairs -/

namespace Number

theorem lessEq_int (a b : Int) : lessEq (int a) (int b) = decide (a ≤ b) := by
  rw [Bool.eq_iff_iff]
  simp [lessEq, compare?_int, Int.isLE_compare]

theorem greater_int (a b : Int) : greater (int a) (int b) = decide (a > b) := by
  rw [Bool.eq_iff_iff]
  simp [greater, compare?_int, Int.compare_eq_gt]

theorem greaterEq_int (a b : Int) : greaterEq (int a) (int b) = decide (a ≥ b) := by
  rw [Bool.eq_iff_iff]
  simp [greaterEq, compare?_int, Int.isGE_compare]

end Number

/-- The comparisons of the language. -/
inductive Comparison where
  | less | lessEq | greater | greaterEq
  deriving DecidableEq, Repr

namespace Comparison

/-- The operation that makes the comparison. -/
def op : Comparison → Builtin
  | less => .less
  | lessEq => .lessEq
  | greater => .greater
  | greaterEq => .greaterEq

/-- How the operation compares two numbers. -/
def test : Comparison → Number → Number → Bool
  | less => Number.less
  | lessEq => Number.lessEq
  | greater => Number.greater
  | greaterEq => Number.greaterEq

/-- What the comparison means for integers. -/
def Holds : Comparison → Int → Int → Prop
  | less, a, b => a < b
  | lessEq, a, b => a ≤ b
  | greater, a, b => a > b
  | greaterEq, a, b => a ≥ b

/-- The comparison in the other direction. -/
def converse : Comparison → Comparison
  | less => greater
  | lessEq => greaterEq
  | greater => less
  | greaterEq => lessEq

variable (c : Comparison)

instance : DecidableRel c.Holds := fun a b =>
  match c with
  | less => inferInstanceAs (Decidable (a < b))
  | lessEq => inferInstanceAs (Decidable (a ≤ b))
  | greater => inferInstanceAs (Decidable (a > b))
  | greaterEq => inferInstanceAs (Decidable (a ≥ b))

theorem test_int (a b : Int) : c.test (.int a) (.int b) = decide (c.Holds a b) := by
  cases c with
  | less => exact Number.less_int a b
  | lessEq => exact Number.lessEq_int a b
  | greater => exact Number.greater_int a b
  | greaterEq => exact Number.greaterEq_int a b

theorem holds_converse (a b : Int) : c.converse.Holds a b ↔ c.Holds b a := by
  cases c <;> exact Iff.rfl

instance : IsTrans Int c.Holds where
  trans a b d := by
    cases c with
    | less => exact Int.lt_trans
    | lessEq => exact Int.le_trans
    | greater => exact fun ab bd => Int.lt_trans bd ab
    | greaterEq => exact fun ab bd => Int.le_trans bd ab

theorem isChain_map_int (ns : List Int) :
    Builtin.isChain c.test (ns.map Number.int) = true ↔ ns.IsChain c.Holds := by
  induction ns with
  | nil => simp [Builtin.isChain]
  | cons a ns ih =>
    cases ns with
    | nil => simp [Builtin.isChain]
    | cons b ns =>
      simp only [List.map_cons, Builtin.isChain, Bool.and_eq_true, test_int, decide_eq_true_eq,
        List.isChain_cons_cons] at ih ⊢
      rw [ih]

/-- Between integers, a comparison of all neighbours is a comparison of all pairs. -/
theorem isChain_int (ns : List Int) :
    Builtin.isChain c.test (ns.map Number.int) = decide (ns.Pairwise c.Holds) := by
  rw [Bool.eq_iff_iff, isChain_map_int, List.isChain_iff_pairwise, decide_eq_true_iff]

theorem pairwise_reverse (ns : List Int) :
    ns.reverse.Pairwise c.Holds ↔ ns.Pairwise c.converse.Holds := by
  rw [List.pairwise_reverse]
  exact List.Pairwise.iff fun a b => (c.holds_converse a b).symm

/-! ### Runs of comparisons -/

variable (m : Machine) (caller : FrameId) (w : World)

theorem runFrom_op (args : List Value) : (m.runBuiltin caller c.op args).runFrom w =
    ((Builtin.compareAll c.op c.test m.levels args).mapError Stop.error, w) := by
  rw [← EvalM.runFrom_ofExcept]
  cases c <;> rfl

theorem runFrom_numbers (ns : List Number) :
    (m.runBuiltin caller c.op (ns.map Value.number)).runFrom w =
      (.ok (.bool (Builtin.isChain c.test ns)), w) := by
  rw [runFrom_op, Builtin.compareAll, Builtin.numbers_map_number]
  rfl

theorem runFrom_of_text {before : List Value} {v : Value} {shown : String}
    (numbers : ∀ n ∈ before, n.IsNumber) (other : ¬ v.IsNumber) (text : v.text m.levels = .ok shown)
    (after : List Value) : (m.runBuiltin caller c.op (before ++ v :: after)).runFrom w =
      (.error (.error (.notNumber c.op shown)), w) := by
  rw [runFrom_op, Builtin.compareAll, Builtin.numbers_of_text numbers other text]
  rfl

end Comparison

/-- Comparisons check everything and mean sortedness. If what is no number among the arguments can
be shown, there is a type mismatch if and only if there is such an argument, wherever it stands, and
the message shows the first. Integers give `#t` if and only if the comparison holds between any two
of them in their order, so that the reversed arguments give what the comparison in the other
direction gives. -/
theorem comparisons_checked_and_sorted (m : Machine) (caller : FrameId) (w : World)
    (c : Comparison) :
    let run (c : Comparison) (args : List Value) := (m.runBuiltin caller c.op args).runFrom w
    let ints (ns : List Int) := ns.map fun n => Value.number (.int n)
    (∀ args : List Value, (∀ v ∈ args, ¬ v.IsNumber → ∃ shown, v.text m.levels = .ok shown) →
      ((∃ e, (run c args).1 = .error (.error e) ∧ e.kind = .typeMismatch) ↔
        ∃ v ∈ args, ¬ v.IsNumber) ∧
      ((∀ v ∈ args, v.IsNumber) → ∃ b, run c args = (.ok (.bool b), w)) ∧
      ∀ before v after, args = before ++ v :: after → (∀ n ∈ before, n.IsNumber) → ¬ v.IsNumber →
        ∃ e shown, v.text m.levels = .ok shown ∧ run c args = (.error (.error e), w) ∧
          e.message = s!"All arguments to {c.op.name} must be numbers, got {shown}") ∧
    (∀ b, ¬ (Value.bool b).IsNumber) ∧
    (∀ ns : List Int, run c (ints ns) = (.ok (.bool (decide (ns.Pairwise c.Holds))), w)) ∧
    ∀ ns : List Int, run c (ints ns.reverse) = run c.converse (ints ns) := by
  intro run ints
  have sorted (c : Comparison) (ns : List Int) :
      run c (ints ns) = (.ok (.bool (decide (ns.Pairwise c.Holds))), w) := by
    have given := c.runFrom_numbers m caller w (ns.map .int)
    rwa [c.isChain_int, List.map_map] at given
  refine ⟨fun args shows => ?_, Value.not_isNumber_bool, sorted c, fun ns => ?_⟩
  · have first {before after : List Value} {v : Value} (whole : args = before ++ v :: after)
        (numbers : ∀ n ∈ before, n.IsNumber) (other : ¬ v.IsNumber) :
        ∃ shown, v.text m.levels = .ok shown ∧
          run c args = (.error (.error (.notNumber c.op shown)), w) := by
      obtain ⟨shown, text⟩ := shows v (by simp [whole]) other
      exact ⟨shown, text, whole ▸ c.runFrom_of_text m caller w numbers other text after⟩
    refine ⟨?_, fun numbers => ?_, fun before v after whole numbers other => ?_⟩
    · rcases Builtin.numbers_cases args with ⟨ns, rfl⟩ | ⟨before, v, after, whole, numbers, other⟩
      · refine iff_of_false ?_ (by simpa using Value.forall_isNumber_map ns)
        rintro ⟨e, failed, -⟩
        rw [show run c _ = _ from c.runFrom_numbers m caller w ns] at failed
        cases failed
      · obtain ⟨shown, -, failed⟩ := first whole numbers other
        exact iff_of_true ⟨_, congrArg Prod.fst failed, rfl⟩ ⟨v, by simp [whole], other⟩
    · rcases Builtin.numbers_cases args with ⟨ns, rfl⟩ | ⟨before, v, after, whole, -, other⟩
      · exact ⟨_, c.runFrom_numbers m caller w ns⟩
      · exact absurd (numbers v (by simp [whole])) other
    · obtain ⟨shown, text, failed⟩ := first whole numbers other
      exact ⟨_, shown, text, failed, rfl⟩
  · rw [sorted, sorted]
    simp only [c.pairwise_reverse]

/-- Three is not less than one, and still `(< 3 1 #t "x")` is refused because of `#t`. -/
theorem comparisons_checked_and_sorted_refused :
    let m := machine 1 1
    let run (c : Comparison) (args : List Value) :=
      (m.runBuiltin 0 c.op args).runFrom World.initial
    let ints (ns : List Int) := ns.map fun n => Value.number (.int n)
    let before := ints [3, 1]
    let after : List Value := [.atom (.str "x")]
    (∀ v ∈ before ++ Value.bool true :: after, ¬ v.IsNumber →
      ∃ shown, v.text m.levels = .ok shown) ∧
    (∀ n ∈ before, n.IsNumber) ∧ ¬ (Value.bool true).IsNumber ∧
    (∃ e, run .less (before ++ .bool true :: after) = (.error (.error e), World.initial) ∧
      e.message = "All arguments to < must be numbers, got #t") ∧
    run .less (ints [1, 2, 5]) = (.ok (.bool true), World.initial) ∧
    run .less (ints [5, 2, 1]) = run .greater (ints [1, 2, 5]) := by
  intro m run ints before after
  have numbers : ∀ n ∈ before, n.IsNumber := Value.forall_isNumber_map [.int 3, .int 1]
  have shows : ∀ v ∈ before ++ Value.bool true :: after, ¬ v.IsNumber →
      ∃ shown, v.text m.levels = .ok shown := by
    intro v mem other
    rcases List.mem_append.1 mem with number | mem
    · exact absurd (numbers v number) other
    · simp only [after, List.mem_cons, List.not_mem_nil, or_false] at mem
      rcases mem with rfl | rfl
      · exact ⟨"#t", rfl⟩
      · exact ⟨_, rfl⟩
  obtain ⟨checked, truthValue, sorted, reversed⟩ :=
    comparisons_checked_and_sorted m 0 World.initial .less
  obtain ⟨-, -, leftmost⟩ := checked _ shows
  obtain ⟨e, shown, text, failed, message⟩ := leftmost before _ after rfl numbers (truthValue true)
  obtain rfl : "#t" = shown := Except.ok.inj text
  exact ⟨shows, numbers, truthValue true, ⟨e, failed, message⟩, sorted [1, 2, 5],
    reversed [1, 2, 5]⟩

end SmallLisp
