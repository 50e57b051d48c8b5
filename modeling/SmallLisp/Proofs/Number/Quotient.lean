import SmallLisp.Eval.Rules
import SmallLisp.Proofs.Failure
import SmallLisp.Proofs.Number.FloatWord

/-!
# Quotients of integers

A quotient is taken one divisor at a time. It stays an integer as long as there is no remainder,
and once it is a float it does not become an integer again. So it is decided by the product of the
divisors alone whether the whole is an integer. Main statements: what a division by one integer can
give (`div_int_cases`), what a row of divisions gives (`foldlM_div_cases`), and from these that
quotients are exact when they can be and fit remainders (`quotients_exact`).
-/

namespace SmallLisp

namespace Binary64

/-- The nearest float to a positive integer is not zero. -/
theorem nearestBits_pos {n : Nat} (h : n ≠ 0) : 0 < nearestBits n 1 := by
  have above : minExponent < unitExponent n 1 := by
    have one : Nat.log2 1 = 0 := by decide
    simp only [unitExponent, one, minExponent, fractionBits]
    split <;> omega
  have places : 1 * fractionSize ≤ (unitExponent n 1 - minExponent).toNat * fractionSize :=
    Nat.mul_le_mul_right _ (by omega)
  rw [nearestBits, if_neg h]
  simp only [fractionSize] at *
  omega

/-- Only the zeros equal zero. -/
theorem ofFloat_of_beq_zero {x : Float} (h : (x == 0) = true) :
    ∃ negative, ofFloat x = .finite negative 0 minExponent := by
  obtain ⟨-, -, rfl | ⟨rfl, -⟩ | ⟨rfl, -⟩⟩ := Float.beq_iff_ne_nan_and_eq.1 h
  · exact ⟨false, by decide⟩
  · exact ⟨false, by decide⟩
  · exact ⟨true, by decide⟩

/-- An integer becomes a float that equals zero only if it is zero. -/
theorem beq_zero_of_ofInt? {n : Int} {x : Float} (h : ofInt? n = some x) :
    (x == 0) = decide (n = 0) := by
  rw [ofInt?, nearest?] at h
  split at h
  · rename_i finite
    cases h
    by_cases zero : n = 0
    · subst zero
      decide
    · rw [decide_eq_false zero, Bool.eq_false_iff]
      intro equal
      obtain ⟨negative, parts⟩ := ofFloat_of_beq_zero equal
      have pos := nearestBits_pos (Int.natAbs_ne_zero.2 zero)
      rw [ofFloat_withSign _ finite.le] at parts
      generalize nearestBits n.natAbs 1 = bits at *
      have size : bits + (if decide (n < 0) then signBit else 0) < 2 ^ 64 := by
        simp only [infinityBits, signBit] at *
        split <;> omega
      have word := eq_wordOf size parts
      simp only [wordOf, Int.sub_self, Int.toNat_zero, Nat.zero_mul, Nat.zero_add, infinityBits,
        signBit] at *
      split at word <;> split at word <;> omega
  · cases h

end Binary64

namespace Number

/-- A float, or the failure to find one in range. -/
def LeavesIntegers (r : Except Error Number) : Prop :=
  (∃ x, r = .ok (float x)) ∨ ∃ e, r = .error e ∧ e.kind = .overflow

theorem LeavesIntegers.ne_int {r : Except Error Number} (h : LeavesIntegers r) (n : Int) :
    r ≠ .ok (int n) := by
  rcases h with ⟨x, rfl⟩ | ⟨e, rfl, -⟩ <;> nofun

theorem div_zero (n : Number) : div n (int 0) = .error .divisionByZero := by
  cases n with
  | int a => rfl
  | float x => rfl

theorem leavesIntegers_divInts (a b : Int) : LeavesIntegers (divInts a b) := by
  unfold divInts
  split
  · exact .inl ⟨_, rfl⟩
  · exact .inr ⟨_, rfl, rfl⟩

theorem leavesIntegers_div_float (x : Float) {b : Int} (nonzero : b ≠ 0) :
    LeavesIntegers (div (float x) (int b)) := by
  cases near : Binary64.ofInt? b with
  | none =>
    have given : div (float x) (int b) = .error .intTooLarge := by
      simp [div, toFloat, near, bind, Except.bind]
    exact .inr ⟨_, given, rfl⟩
  | some y =>
    have notZero := Binary64.beq_zero_of_ofInt? near
    rw [decide_eq_false nonzero] at notZero
    have given : div (float x) (int b) = .ok (float (x / y)) := by
      simp [div, toFloat, near, notZero, bind, Except.bind, pure, Except.pure]
    exact .inl ⟨_, given⟩

/-- What a division by an integer can give. -/
theorem div_int_cases (n : Number) (b : Int) :
    b = 0 ∧ div n (int b) = .error .divisionByZero ∨
      b ≠ 0 ∧ ((∃ a, n = int (b * a) ∧ div n (int b) = .ok (int a)) ∨
        (∀ a, n ≠ int (b * a)) ∧ LeavesIntegers (div n (int b))) := by
  by_cases zero : b = 0
  · subst zero
    exact .inl ⟨rfl, div_zero n⟩
  refine .inr ⟨zero, ?_⟩
  cases n with
  | float x => exact .inr ⟨nofun, leavesIntegers_div_float x zero⟩
  | int a =>
    by_cases exact : b ∣ a
    · obtain ⟨q, rfl⟩ := exact
      refine .inl ⟨q, rfl, ?_⟩
      rw [div_int_of_dvd zero (Int.dvd_mul_right b q), Int.mul_ediv_cancel_left q zero]
    · refine .inr ⟨?_, ?_⟩
      · rintro q ⟨⟩
        exact exact (Int.dvd_mul_right b q)
      · simp only [div, zero, exact, ↓reduceIte]
        exact leavesIntegers_divInts a b

variable {bs : List Int}

/-- Once the quotient is a float, it does not become an integer again. -/
theorem foldlM_div_float (nonzero : 0 ∉ bs) (x : Float) :
    LeavesIntegers ((bs.map int).foldlM div (float x)) := by
  induction bs generalizing x with
  | nil => exact .inl ⟨x, rfl⟩
  | cons b bs ih =>
    rw [List.mem_cons, not_or] at nonzero
    rw [List.map_cons, List.foldlM_cons]
    rcases leavesIntegers_div_float x (Ne.symm nonzero.1) with ⟨y, given⟩ | ⟨e, fails, overflow⟩
    · rw [given]
      exact ih nonzero.2 y
    · rw [fails]
      exact .inr ⟨e, rfl, overflow⟩

/-- A row of divisions stays in the integers if and only if the product of the divisors divides the
number, and then gives the exact quotient. -/
theorem foldlM_div_cases (nonzero : 0 ∉ bs) (a : Int) :
    (∃ q, q * bs.prod = a ∧ (bs.map int).foldlM div (int a) = .ok (int q)) ∨
      ¬ bs.prod ∣ a ∧ LeavesIntegers ((bs.map int).foldlM div (int a)) := by
  induction bs generalizing a with
  | nil => exact .inl ⟨a, by simp, rfl⟩
  | cons b bs ih =>
    rw [List.mem_cons, not_or] at nonzero
    rw [List.map_cons, List.foldlM_cons, List.prod_cons]
    rcases div_int_cases (int a) b with ⟨zero, -⟩ | ⟨-, ⟨c, same, given⟩ | ⟨inexact, leaves⟩⟩
    · exact absurd zero.symm nonzero.1
    · -- What is left for the other divisors is the quotient by the first.
      cases same
      rw [given]
      rcases ih nonzero.2 c with ⟨q, rfl, rest⟩ | ⟨notDvd, rest⟩
      · exact .inl ⟨q, by ring, rest⟩
      · exact .inr ⟨fun dvd => notDvd (Int.dvd_of_mul_dvd_mul_left (Ne.symm nonzero.1) dvd), rest⟩
    · -- A product that divides would let its first factor divide as well.
      refine .inr ⟨?_, ?_⟩
      · rintro ⟨c, rfl⟩
        exact inexact (bs.prod * c) (by rw [mul_assoc])
      · rcases leaves with ⟨x, given⟩ | ⟨e, fails, overflow⟩
        · rw [given]
          exact foldlM_div_float nonzero.2 x
        · rw [fails]
          exact .inr ⟨e, rfl, overflow⟩

/-- A zero among the divisors is never passed. -/
theorem foldlM_div_of_zero_mem (h : 0 ∈ bs) (n : Number) :
    ∃ e, (bs.map int).foldlM div n = .error e ∧ (e = .divisionByZero ∨ e.kind = .overflow) := by
  induction bs generalizing n with
  | nil => cases h
  | cons b bs ih =>
    rw [List.map_cons, List.foldlM_cons]
    rcases div_int_cases n b with ⟨-, fails⟩ | ⟨nonzero, step⟩
    · rw [fails]
      exact ⟨_, rfl, .inl rfl⟩
    · have rest : 0 ∈ bs := (List.mem_cons.1 h).resolve_left (Ne.symm nonzero)
      rcases step with ⟨a, -, given⟩ | ⟨-, ⟨x, given⟩ | ⟨e, fails, overflow⟩⟩
      · rw [given]
        exact ih rest (int a)
      · rw [given]
        exact ih rest (float x)
      · rw [fails]
        exact ⟨e, rfl, .inr overflow⟩

/-- A quotient by several divisors is taken from left to right. -/
theorem quotient_cons (a : Int) (nonempty : bs ≠ []) :
    Builtin.quotient ((a :: bs).map int) = (bs.map int).foldlM div (int a) := by
  cases bs with
  | nil => exact absurd rfl nonempty
  | cons => rfl

theorem quotient_eq_int_iff (nonempty : bs ≠ []) (nonzero : 0 ∉ bs) (a q : Int) :
    Builtin.quotient ((a :: bs).map int) = .ok (int q) ↔ q * bs.prod = a := by
  rw [quotient_cons a nonempty]
  rcases foldlM_div_cases nonzero a with ⟨q', rfl, given⟩ | ⟨notDvd, leaves⟩
  · rw [given]
    simp [List.prod_ne_zero nonzero, eq_comm]
  · refine iff_of_false (leaves.ne_int q) ?_
    rintro rfl
    exact notDvd (dvd_mul_left ..)

/-- The remainder is the only representative of the dividend between zero and the divisor. -/
theorem mod_eq_int_iff {a b r : Int} (nonzero : b ≠ 0) : mod (int a) (int b) = .ok (int r) ↔
    b ∣ a - r ∧ (0 ≤ r ∧ r < b ∨ b < r ∧ r ≤ 0) := by
  obtain ⟨r', given, dvd', between'⟩ := mod_int a nonzero
  rw [given]
  constructor
  · intro same
    cases same
    exact ⟨dvd', between'⟩
  · rintro ⟨dvd, between⟩
    have difference : b ∣ r' - r := by
      have := Int.dvd_sub dvd dvd'
      rwa [show a - r - (a - r') = r' - r by ring] at this
    have small : (r' - r).natAbs < b.natAbs := by omega
    have zero := Int.eq_zero_of_dvd_of_natAbs_lt_natAbs difference small
    rw [show r' = r by omega]

end Number

/-! ### Runs of operations -/

namespace Machine

/-- How the computation of a number ends as a run. -/
def outcome (r : Except Error Number) : Except Stop Value :=
  (r.map Value.number).mapError Stop.error

theorem outcome_eq_ok_iff {r : Except Error Number} {n : Number} :
    outcome r = .ok (.number n) ↔ r = .ok n := by
  cases r <;> simp [outcome, Except.map, Except.mapError, Value.number]

variable (m : Machine) (caller : FrameId) (w : World)

theorem runFrom_number (r : Except Error Number) :
    (EvalM.ofExcept do return Value.number (← r)).runFrom w = (outcome r, w) := by
  cases r <;> rfl

theorem runFrom_div (ns : List Number) :
    (m.runBuiltin caller .div (ns.map Value.number)).runFrom w =
      (outcome (Builtin.quotient ns), w) := by
  rw [runBuiltin, Builtin.numbers_map_number]
  exact runFrom_number w (Builtin.quotient ns)

theorem runFrom_sub (ns : List Number) :
    (m.runBuiltin caller .sub (ns.map Value.number)).runFrom w =
      (outcome (Builtin.difference ns), w) := by
  rw [runBuiltin, Builtin.numbers_map_number]
  exact runFrom_number w (Builtin.difference ns)

theorem runFrom_mod (a b : Number) :
    (m.runBuiltin caller .mod ([a, b].map Value.number)).runFrom w = (outcome (a.mod b), w) := by
  exact runFrom_number w (a.mod b)

end Machine

/-- Integers are divided exactly when they can be. If no divisor is zero, the quotient of an integer
by several others is an integer if and only if their product divides it, and then the exact
quotient, in whatever order the divisors stand. Otherwise it is a float or out of range. With a zero
among the divisors there is no result, and a single number divides one. The remainder by a divisor
that is not zero is the representative of the dividend between zero and the divisor, so that what is
left of the dividend without it can be divided exactly. -/
theorem quotients_exact (m : Machine) (caller : FrameId) (w : World) :
    let run (op : Builtin) (ns : List Int) :=
      (m.runBuiltin caller op ((ns.map Number.int).map Value.number)).runFrom w
    let int (n : Int) := Value.number (.int n)
    (∀ a bs, bs ≠ [] → 0 ∉ bs →
      ((∃ q, run .div (a :: bs) = (.ok (int q), w)) ↔ bs.prod ∣ a) ∧
      (∀ cs, cs.Perm bs → ∀ q, run .div (a :: cs) = (.ok (int q), w) ↔ q * bs.prod = a) ∧
      (¬ bs.prod ∣ a → (∃ x, run .div (a :: bs) = (.ok (.number (.float x)), w)) ∨
        ∃ e, run .div (a :: bs) = (.error (.error e), w) ∧ e.kind = .overflow)) ∧
    (∀ a bs, 0 ∈ bs → ∃ e, run .div (a :: bs) = (.error (.error e), w) ∧
      (e = .divisionByZero ∨ e.kind = .overflow)) ∧
    (∀ b, run .div [b] = run .div [1, b]) ∧
    ∀ a b, b ≠ 0 →
      (∀ r, run .mod [a, b] = (.ok (int r), w) ↔
        b ∣ a - r ∧ (0 ≤ r ∧ r < b ∨ b < r ∧ r ≤ 0)) ∧
      ∃ r q, run .mod [a, b] = (.ok (int r), w) ∧ run .sub [a, r] = (.ok (int (a - r)), w) ∧
        run .div [a - r, b] = (.ok (int q), w) ∧ q * b + r = a := by
  intro run int
  have div_eq (ns : List Int) :
      run .div ns = (Machine.outcome (Builtin.quotient (ns.map Number.int)), w) :=
    Machine.runFrom_div m caller w _
  have exact_iff {a q : Int} {bs : List Int} (nonempty : bs ≠ []) (nonzero : 0 ∉ bs) :
      run .div (a :: bs) = (.ok (int q), w) ↔ q * bs.prod = a := by
    rw [div_eq, Prod.mk.injEq, Machine.outcome_eq_ok_iff, and_iff_left rfl,
      Number.quotient_eq_int_iff nonempty nonzero]
  refine ⟨fun a bs nonempty nonzero => ⟨?_, fun cs perm q => ?_, fun notDvd => ?_⟩,
    fun a bs zero => ?_, fun b => ?_, fun a b nonzero => ?_⟩
  · simp only [exact_iff nonempty nonzero, dvd_iff_exists_eq_mul_left, eq_comm]
  · have others : cs ≠ [] := fun none => nonempty (by simpa [none] using perm)
    rw [exact_iff others (perm.mem_iff.not.2 nonzero), perm.prod_eq]
  · simp only [div_eq, Number.quotient_cons a nonempty]
    rcases Number.foldlM_div_cases nonzero a with ⟨q, rfl, -⟩ | ⟨-, leaves⟩
    · exact absurd (dvd_mul_left ..) notDvd
    · rcases leaves with ⟨x, given⟩ | ⟨e, fails, overflow⟩
      · exact .inl ⟨x, by rw [given]; rfl⟩
      · exact .inr ⟨e, by rw [fails]; rfl, overflow⟩
  · obtain ⟨e, fails, cause⟩ := Number.foldlM_div_of_zero_mem zero (.int a)
    rw [← Number.quotient_cons a (List.ne_nil_of_mem zero)] at fails
    exact ⟨e, by rw [div_eq, fails]; rfl, cause⟩
  · have single : Builtin.quotient [.int b] = Builtin.quotient [.int 1, .int b] :=
      (bind_pure _).symm
    rw [div_eq, div_eq]
    exact congrArg (fun r => (Machine.outcome r, w)) single
  · have mod_iff (r : Int) : run .mod [a, b] = (.ok (int r), w) ↔
        b ∣ a - r ∧ (0 ≤ r ∧ r < b ∨ b < r ∧ r ≤ 0) := by
      rw [← Number.mod_eq_int_iff nonzero, ← Machine.outcome_eq_ok_iff]
      have ends : run .mod [a, b] = _ := Machine.runFrom_mod m caller w (.int a) (.int b)
      rw [ends, Prod.mk.injEq, and_iff_left rfl]
    obtain ⟨r, given, ⟨q, exact⟩, between⟩ := Number.mod_int a nonzero
    have fits := (Number.mod_eq_int_iff nonzero).1 given
    have divided : run .div [a - r, b] = (.ok (int q), w) :=
      (exact_iff (List.cons_ne_nil b []) (by simpa using Ne.symm nonzero)).2
        (by rw [List.prod_singleton, exact, mul_comm])
    exact ⟨mod_iff, r, q, (mod_iff r).2 fits, Machine.runFrom_sub m caller w [.int a, .int r],
      divided, by rw [mul_comm, ← exact]; ring⟩

/-- Twelve with a minus sign, divided by two and by minus three in either order, is two. The remainder
of seven by minus two is minus one, and eight is divided by minus two without a remainder. -/
theorem quotients_exact_signs :
    let run (op : Builtin) (ns : List Int) :=
      ((machine 1 0).runBuiltin 0 op ((ns.map Number.int).map Value.number)).runFrom World.initial
    let int (n : Int) := Value.number (.int n)
    ([2, -3] ≠ ([] : List Int) ∧ 0 ∉ ([2, -3] : List Int) ∧ ([-3, 2] : List Int).Perm [2, -3]) ∧
      run .div [-12, -3, 2] = (.ok (int 2), World.initial) ∧
      (-2 : Int) ≠ 0 ∧ run .mod [7, -2] = (.ok (int (-1)), World.initial) ∧
      ∃ r q, run .mod [7, -2] = (.ok (int r), World.initial) ∧
        run .sub [7, r] = (.ok (int (7 - r)), World.initial) ∧
        run .div [7 - r, -2] = (.ok (int q), World.initial) ∧ q * -2 + r = 7 := by
  intro run int
  have order : ([-3, 2] : List Int).Perm [2, -3] := .swap 2 (-3) []
  obtain ⟨quotient, -, -, remainder⟩ := quotients_exact (machine 1 0) 0 World.initial
  obtain ⟨-, anyOrder, -⟩ := quotient (-12) [2, -3] (by decide) (by decide)
  obtain ⟨unique, fits⟩ := remainder 7 (-2) (by decide)
  exact ⟨⟨by decide, by decide, order⟩, (anyOrder [-3, 2] order 2).2 (by decide), by decide,
    (unique (-1)).2 (by decide), fits⟩

end SmallLisp
