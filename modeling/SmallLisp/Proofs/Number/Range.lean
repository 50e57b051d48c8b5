import Mathlib.Algebra.Order.Field.Rat
import Mathlib.Algebra.Order.Field.Power
import Mathlib.Tactic.Ring
import Mathlib.Tactic.Linarith
import Mathlib.Tactic.NormNum
import Mathlib.Tactic.Positivity
import Mathlib.Tactic.FieldSimp
import SmallLisp.Builtin.Numeric
import SmallLisp.Proofs.Failure

/-!
# The range of floats

The nearest float to a fraction is finite if the fraction lies below a bound, half a unit above the
largest float. From this follows for which numbers arithmetic fails with an error outside the
language: when an integer beyond the bound has to become a float, and when a quotient of integers
that is no integer lies beyond it. Main statements: a fraction has a finite float next to it if and
only if it lies below the bound (`nearestBits_lt_iff`), and where sums, differences, products,
quotients and remainders leave the language (`sum_failsInLanguage_iff` and its like).
-/

namespace SmallLisp

namespace Binary64

/-- The fraction that exceeds the largest float by half a unit of its last place. -/
def rangeBound : Nat := (2 * significandBound - 1) * 2 ^ 970

/-- A quotient is rounded below an even number if it is more than one half below it. At one half the
tie goes to the even number. -/
theorem roundQuotient_lt_iff (num : Nat) {den bound : Nat} (hden : 0 < den) (pos : 0 < bound)
    (even : bound % 2 = 0) :
    roundQuotient num den < bound ↔ 2 * num < (2 * bound - 1) * den := by
  have split : den * (num / den) + num % den = num := Nat.div_add_mod num den
  have rest_lt : num % den < den := Nat.mod_lt _ hden
  simp only [roundQuotient]
  generalize num / den = below at *
  generalize num % den = rest at *
  obtain ⟨k, rfl⟩ : ∃ k, bound = k + 1 := ⟨bound - 1, by omega⟩
  have odd : (2 * (k + 1) - 1) * den = 2 * (den * k) + den := by
    rw [show 2 * (k + 1) - 1 = 2 * k + 1 by omega]
    ring
  rw [odd]
  rcases Nat.lt_trichotomy below k with lt | rfl | gt
  · -- one unit further up the bound is not reached
    have le : den * (below + 1) ≤ den * k := Nat.mul_le_mul_left den lt
    rw [Nat.mul_add, Nat.mul_one] at le
    split <;> constructor <;> intro <;> omega
  · split
    · rename_i down
      simp only [Bool.or_eq_true, decide_eq_true_eq, Bool.and_eq_true, beq_iff_eq] at down
      constructor <;> intro <;> omega
    · rename_i up
      simp only [Bool.or_eq_true, decide_eq_true_eq, Bool.and_eq_true, beq_iff_eq, not_or] at up
      constructor <;> intro <;> omega
  · have le : den * (k + 1) ≤ den * below := Nat.mul_le_mul_left den gt
    rw [Nat.mul_add, Nat.mul_one] at le
    split <;> constructor <;> intro <;> omega

variable {num den : Nat}

/-- A power with a negative exponent is a fraction. -/
theorem zpow_mul_toNat_neg {a : ℚ} (ha : a ≠ 0) (n : Int) :
    a ^ n * a ^ (-n).toNat = a ^ n.toNat := by
  rw [← zpow_natCast, ← zpow_natCast, ← zpow_add₀ ha]
  congr 1
  omega

/-- Counting in units multiplies both parts of a fraction by powers of two. -/
theorem inUnits_lt_iff (num den c : Nat) (exponent : Int) :
    (inUnits num den exponent).1 < c * (inUnits num den exponent).2 ↔
      (num : ℚ) < c * 2 ^ exponent * den := by
  have cast : (inUnits num den exponent).1 < c * (inUnits num den exponent).2 ↔
      (num : ℚ) * 2 ^ (-exponent).toNat < c * (den * 2 ^ exponent.toNat) := by
    simp only [inUnits, Nat.pow_eq]
    exact_mod_cast Iff.rfl
  rw [cast, ← zpow_mul_toNat_neg two_ne_zero exponent,
    show (c : ℚ) * (den * (2 ^ exponent * 2 ^ (-exponent).toNat)) =
      c * 2 ^ exponent * den * 2 ^ (-exponent).toNat by ring,
    mul_lt_mul_iff_left₀ (by positivity)]

theorem le_inUnits_iff (num den c : Nat) (exponent : Int) :
    c * (inUnits num den exponent).2 ≤ (inUnits num den exponent).1 ↔
      (c * 2 ^ exponent * den : ℚ) ≤ num := by
  rw [← not_lt, ← not_lt, inUnits_lt_iff]

theorem two_zpow_add (a b : Int) : (2 : ℚ) ^ (a + b) = 2 ^ a * 2 ^ b := zpow_add₀ two_ne_zero a b

theorem two_mul_zpow_le {a b : Int} (h : a < b) : (2 : ℚ) * 2 ^ a ≤ 2 ^ b := by
  rw [← zpow_one_add₀ two_ne_zero]
  exact zpow_le_zpow_right₀ one_le_two (by omega)

/-- The first guess is off by at most one place. -/
theorem guess_bounds (hnum : num ≠ 0) (hden : den ≠ 0) :
    let guess : Int := (num.log2 : Int) - den.log2 - fractionBits
    (2 ^ 51 * 2 ^ guess * den : ℚ) < num ∧ (num : ℚ) < 2 ^ 53 * 2 ^ guess * den := by
  intro guess
  have numLow : (2 ^ (num.log2 : Int) : ℚ) ≤ num := by exact_mod_cast Nat.log2_self_le hnum
  have numHigh : (num : ℚ) < 2 ^ ((num.log2 : Int) + 1) := by
    exact_mod_cast Nat.lt_log2_self (n := num)
  have denLow : (2 ^ (den.log2 : Int) : ℚ) ≤ den := by exact_mod_cast Nat.log2_self_le hden
  have denHigh : (den : ℚ) < 2 ^ ((den.log2 : Int) + 1) := by
    exact_mod_cast Nat.lt_log2_self (n := den)
  have pos : (0 : ℚ) < 2 ^ guess := by positivity
  constructor
  · calc (2 ^ 51 * 2 ^ guess * den : ℚ)
        < 2 ^ 51 * 2 ^ guess * 2 ^ ((den.log2 : Int) + 1) := by gcongr
      _ = 2 ^ (num.log2 : Int) := by
        rw [← zpow_natCast, ← two_zpow_add, ← two_zpow_add]
        congr 1
        simp only [guess, fractionBits]
        omega
      _ ≤ num := numLow
  · calc (num : ℚ) < 2 ^ ((num.log2 : Int) + 1) := numHigh
      _ = 2 ^ 53 * 2 ^ guess * 2 ^ (den.log2 : Int) := by
        rw [← zpow_natCast, ← two_zpow_add, ← two_zpow_add]
        congr 1
        simp only [guess, fractionBits]
        omega
      _ ≤ 2 ^ 53 * 2 ^ guess * den := by gcongr

/-- In units of the last place a fraction counts less than a significand may, and at least half as
much unless the place is that of the smallest numbers. -/
theorem unitExponent_bounds (hnum : num ≠ 0) (hden : den ≠ 0) :
    (num : ℚ) < 2 ^ 53 * 2 ^ unitExponent num den * den ∧ (minExponent < unitExponent num den →
      (2 ^ 52 * 2 ^ unitExponent num den * den : ℚ) ≤ num) := by
  obtain ⟨low, high⟩ := guess_bounds hnum hden
  set guess : Int := (num.log2 : Int) - den.log2 - fractionBits with guess_eq
  have half : (2 : ℚ) ^ guess = 2 * 2 ^ (guess - 1) := by
    rw [← zpow_one_add₀ two_ne_zero]
    congr 1
    omega
  obtain ⟨place, unit_eq, low', high'⟩ : ∃ place, unitExponent num den = max minExponent place ∧
      (2 ^ 52 * 2 ^ place * den : ℚ) ≤ num ∧ (num : ℚ) < 2 ^ 53 * 2 ^ place * den := by
    by_cases full : fractionSize * (inUnits num den guess).2 ≤ (inUnits num den guess).1
    · refine ⟨guess, by simp only [unitExponent, ← guess_eq, if_pos full], ?_, high⟩
      exact_mod_cast (le_inUnits_iff num den fractionSize guess).1 full
    · refine ⟨guess - 1, by simp only [unitExponent, ← guess_eq, if_neg full], ?_, ?_⟩
      · rw [half] at low
        linarith
      · rw [not_le, inUnits_lt_iff, half] at full
        norm_num [fractionSize] at full ⊢
        linarith
  have grows : (2 : ℚ) ^ place ≤ 2 ^ max minExponent place :=
    zpow_le_zpow_right₀ one_le_two (le_max_right ..)
  rw [unit_eq]
  constructor
  · calc (num : ℚ) < 2 ^ 53 * 2 ^ place * den := high'
      _ ≤ 2 ^ 53 * 2 ^ max minExponent place * den := by gcongr
  · intro above
    rwa [max_eq_right (le_of_lt (by simpa using above))]

theorem rangeBound_pos : 0 < rangeBound := Nat.mul_pos (by decide) (pow_pos two_pos 970)

/-- The bound lies half a unit below the double of the largest power of two that is a float. -/
theorem lt_rangeBound_iff (num den : Nat) : num < rangeBound * den ↔
    (2 * num : ℚ) < (2 ^ 54 - 1 : Nat) * 2 ^ maxExponent * den := by
  have twice {n : Nat} (h : maxExponent = (n + 1 : Nat)) :
      (2 : ℚ) ^ maxExponent = 2 * (2 ^ n : Nat) := by
    rw [h, zpow_natCast, pow_succ', Nat.cast_pow, Nat.cast_ofNat]
  have bound : 2 * significandBound - 1 = 2 ^ 54 - 1 := by decide
  rw [rangeBound, bound, twice rfl]
  generalize 2 ^ 970 = unit
  generalize 2 ^ 54 - 1 = units
  constructor
  · intro lt
    have lt : ((num : Nat) : ℚ) < ((units * unit * den : Nat) : ℚ) := by exact_mod_cast lt
    push_cast at lt
    linarith
  · intro lt
    have lt : ((num : Nat) : ℚ) < ((units * unit * den : Nat) : ℚ) := by
      push_cast
      linarith
    exact_mod_cast lt

theorem inUnits_double (num den : Nat) (exponent : Int) :
    inUnits (2 * num) den exponent =
      (2 * (inUnits num den exponent).1, (inUnits num den exponent).2) := by
  rw [inUnits, inUnits, Nat.mul_assoc]

/-- A fraction has a finite float next to it if and only if it lies below the bound. -/
theorem nearestBits_lt_iff (num : Nat) (hden : den ≠ 0) :
    nearestBits num den < infinityBits ↔ num < rangeBound * den := by
  by_cases hnum : num = 0
  · subst hnum
    have pos : 0 < rangeBound * den := Nat.mul_pos rangeBound_pos (Nat.pos_of_ne_zero hden)
    simp [nearestBits, pos, infinityBits]
  obtain ⟨high, low⟩ := unitExponent_bounds hnum hden
  have least : minExponent ≤ unitExponent num den := le_max_left ..
  rw [nearestBits, if_neg hnum, lt_rangeBound_iff]
  generalize unitExponent num den = exponent at *
  have denPos : 0 < (inUnits num den exponent).2 :=
    Nat.mul_pos (Nat.pos_of_ne_zero hden) (Nat.pow_pos Nat.two_pos)
  have denPos' : (0 : ℚ) < den := by exact_mod_cast Nat.pos_of_ne_zero hden
  have field : (exponent - minExponent).toNat = exponent + 1074 := by
    simp only [minExponent] at *
    omega
  have top : maxExponent = 971 := rfl
  rcases Int.lt_trichotomy exponent maxExponent with below | rfl | above
  · -- the significand is rounded to at most the double of the smallest one of full precision
    have step : (2 : ℚ) * 2 ^ exponent ≤ 2 ^ maxExponent := two_mul_zpow_le below
    have inRange : (2 * num : ℚ) < (2 ^ 54 - 1 : Nat) * 2 ^ maxExponent * den :=
      calc (2 * num : ℚ) < 2 * (2 ^ 53 * 2 ^ exponent * den) := by gcongr
        _ = 2 ^ 53 * (2 * 2 ^ exponent) * den := by ring
        _ ≤ (2 ^ 54 - 1 : Nat) * 2 ^ maxExponent * den := by gcongr; norm_num
    have fits : 2 * (inUnits num den exponent).1 <
        (2 * (2 ^ 53 + 2) - 1) * (inUnits num den exponent).2 := by
      have := (inUnits_lt_iff num den (2 ^ 53) exponent).2 (by exact_mod_cast high)
      omega
    have rounded := (roundQuotient_lt_iff _ denPos (by decide) (by decide)).2 fits
    refine iff_of_true ?_ inRange
    simp only [fractionSize, infinityBits]
    omega
  · have fits := inUnits_lt_iff (2 * num) den (2 ^ 54 - 1) maxExponent
    rw [inUnits_double, Nat.cast_mul] at fits
    have rounded := roundQuotient_lt_iff (inUnits num den maxExponent).1 denPos
      (by decide : 0 < 2 ^ 53) (by decide)
    rw [show 2 * 2 ^ 53 - 1 = 2 ^ 54 - 1 by decide] at rounded
    rw [Nat.cast_ofNat] at fits
    rw [← fits, ← rounded]
    simp only [fractionSize, infinityBits]
    omega
  · have step : (2 : ℚ) * 2 ^ maxExponent ≤ 2 ^ exponent := two_mul_zpow_le above
    have least := low (by simp only [minExponent]; omega)
    have outOfRange : ((2 ^ 54 - 1 : Nat) * 2 ^ maxExponent * den : ℚ) ≤ 2 * num :=
      calc ((2 ^ 54 - 1 : Nat) * 2 ^ maxExponent * den : ℚ) ≤ 2 ^ 54 * 2 ^ maxExponent * den := by
            gcongr; norm_num
        _ = 2 ^ 53 * (2 * 2 ^ maxExponent) * den := by ring
        _ ≤ 2 ^ 53 * 2 ^ exponent * den := by gcongr
        _ = 2 * (2 ^ 52 * 2 ^ exponent * den) := by ring
        _ ≤ 2 * num := by gcongr
    have full : 2 ^ 52 * (inUnits num den exponent).2 ≤ (inUnits num den exponent).1 :=
      (le_inUnits_iff num den (2 ^ 52) exponent).2 (by exact_mod_cast least)
    have rounded := roundQuotient_lt_iff (inUnits num den exponent).1 denPos
      (by decide : 0 < 2 ^ 52) (by decide)
    refine iff_of_false ?_ (not_lt.2 outOfRange)
    simp only [fractionSize, infinityBits]
    omega

theorem nearest?_isSome_iff (negative : Bool) (num : Nat) (hden : den ≠ 0) :
    (nearest? negative num den).isSome = true ↔ num < rangeBound * den := by
  rw [← nearestBits_lt_iff num hden]
  simp only [nearest?]
  split <;> simp [*]

end Binary64

namespace Number

open Binary64 (rangeBound)

/-- A float, or an integer with a finite float next to it. -/
def InRange : Number → Prop
  | int n => n.natAbs < rangeBound
  | float _ => True

theorem toFloat_cases (a : Number) :
    a.InRange ∧ (∃ x, a.toFloat = .ok x) ∨ ¬ a.InRange ∧ a.toFloat = .error .intTooLarge := by
  cases a with
  | float x => exact .inl ⟨trivial, x, rfl⟩
  | int n =>
    have isSome := Binary64.nearest?_isSome_iff (decide (n < 0)) n.natAbs Nat.one_ne_zero
    rw [Nat.mul_one] at isSome
    rw [InRange, ← isSome, toFloat, Binary64.ofInt?]
    cases Binary64.nearest? (decide (n < 0)) n.natAbs 1 with
    | none => exact .inr ⟨by simp, rfl⟩
    | some x => exact .inl ⟨rfl, x, rfl⟩

/-- Both numbers become floats. -/
theorem toFloats_failsInLanguage_iff {α : Type} (a b : Number)
    {f : Float → Float → Except Error α} (hf : ∀ x y, FailsInLanguage (f x y)) :
    FailsInLanguage (do f (← a.toFloat) (← b.toFloat)) ↔ a.InRange ∧ b.InRange := by
  rcases toFloat_cases a with ⟨inA, x, givenA⟩ | ⟨outA, failsA⟩
  · rcases toFloat_cases b with ⟨inB, y, givenB⟩ | ⟨outB, failsB⟩
    · simp [failsInLanguage_bind_iff, inA, inB, givenA, givenB, hf x y]
    · simp [failsInLanguage_bind_iff, outB, givenA, failsB, Error.kind, ErrorKind.inLanguage]
  · simp [failsInLanguage_bind_iff, outA, failsA, Error.kind, ErrorKind.inLanguage]

/-- Two numbers that an operation can bring together: integers, or numbers that are floats or can be
made floats. -/
def Meet : Number → Number → Prop
  | int _, int _ => True
  | a, b => a.InRange ∧ b.InRange

theorem combine_failsInLanguage_iff (onInts : Int → Int → Int) (onFloats : Float → Float → Float)
    (a b : Number) : FailsInLanguage (combine onInts onFloats a b) ↔ Meet a b := by
  have floats := toFloats_failsInLanguage_iff a b (f := fun x y => .ok (float (onFloats x y)))
    fun _ _ => by simp
  cases a with
  | float x => exact floats
  | int a =>
    cases b with
    | float y => exact floats
    | int b => simp [combine, Meet]

/-- Two numbers of which the quotient can be taken, if only for the reason that it is known to be
undefined. -/
def Divide : Number → Number → Prop
  | int a, int b => b = 0 ∨ b ∣ a ∨ a.natAbs < rangeBound * b.natAbs
  | a, b => a.InRange ∧ b.InRange

theorem div_failsInLanguage_iff (a b : Number) : FailsInLanguage (div a b) ↔ Divide a b := by
  have floats := toFloats_failsInLanguage_iff a b
    (f := fun x y => if y == 0 then .error .divisionByZero else .ok (float (x / y)))
    fun _ y => by split <;> simp [Error.kind, ErrorKind.inLanguage]
  cases a with
  | float x => exact floats
  | int a =>
    cases b with
    | float y => exact floats
    | int b =>
      by_cases zero : b = 0
      · simp [div, Divide, zero, Error.kind, ErrorKind.inLanguage]
      by_cases exact : b ∣ a
      · simp [div, Divide, zero, exact]
      have isSome := Binary64.nearest?_isSome_iff (decide (a < 0) != decide (b < 0)) a.natAbs
        (Int.natAbs_ne_zero.2 zero)
      simp only [div, zero, exact, ↓reduceIte, divInts, Divide, false_or, ← isSome]
      cases Binary64.nearest? (decide (a < 0) != decide (b < 0)) a.natAbs b.natAbs with
      | none => simp [Error.kind, ErrorKind.inLanguage]
      | some x => simp

theorem mod_failsInLanguage_iff (a b : Number) :
    FailsInLanguage (mod a b) ↔ b.isZero = true ∨ Meet a b := by
  have floats := toFloats_failsInLanguage_iff a b (f := fun x y => .ok (float (modFloats x y)))
    fun _ _ => by simp
  by_cases zero : b.isZero = true
  · simp [mod, zero, Error.kind, ErrorKind.inLanguage]
  unfold mod
  rw [or_iff_right zero, if_neg zero]
  cases a with
  | float x => exact floats
  | int a =>
    cases b with
    | float y => exact floats
    | int b => simp [Meet]

/-- Numbers of which each fits what the step makes of those before it. -/
def Follow (fits : Number → Number → Prop) (step : Number → Number → Except Error Number) :
    Number → List Number → Prop
  | _, [] => True
  | a, n :: rest => fits a n ∧ ∀ b, step a n = .ok b → Follow fits step b rest

theorem foldlM_failsInLanguage_iff {fits : Number → Number → Prop}
    {step : Number → Number → Except Error Number}
    (h : ∀ a b, FailsInLanguage (step a b) ↔ fits a b) (a : Number) (ns : List Number) :
    FailsInLanguage (ns.foldlM step a) ↔ Follow fits step a ns := by
  induction ns generalizing a with
  | nil => simp [Follow]
  | cons n ns ih => simp only [List.foldlM_cons, failsInLanguage_bind_iff, h, ih, Follow]

end Number

namespace Builtin

open Number (Meet Divide Follow)

/-- Numbers for which arithmetic leaves the range of floats nowhere that it needs one. -/
def Fits : Builtin → List Number → Prop
  | add, ns => Follow Meet Number.add (.int 0) ns
  | mul, ns => Follow Meet Number.mul (.int 1) ns
  | sub, n :: second :: rest => Follow Meet Number.sub n (second :: rest)
  | div, [n] => Divide (.int 1) n
  | div, n :: second :: rest => Follow Divide Number.div n (second :: rest)
  | mod, [a, b] => b.isZero = true ∨ Meet a b
  | _, _ => True

theorem sum_failsInLanguage_iff (ns : List Number) : FailsInLanguage (sum ns) ↔ Fits .add ns :=
  Number.foldlM_failsInLanguage_iff (Number.combine_failsInLanguage_iff _ _) (.int 0) ns

theorem product_failsInLanguage_iff (ns : List Number) :
    FailsInLanguage (product ns) ↔ Fits .mul ns :=
  Number.foldlM_failsInLanguage_iff (Number.combine_failsInLanguage_iff _ _) (.int 1) ns

theorem difference_failsInLanguage_iff (ns : List Number) :
    FailsInLanguage (difference ns) ↔ Fits .sub ns := by
  match ns with
  | [] => simp [difference, Fits, Error.kind, ErrorKind.inLanguage]
  | [n] => simp [difference, Fits]
  | n :: second :: rest =>
    exact Number.foldlM_failsInLanguage_iff (Number.combine_failsInLanguage_iff _ _) n _

theorem quotient_failsInLanguage_iff (ns : List Number) :
    FailsInLanguage (quotient ns) ↔ Fits .div ns := by
  match ns with
  | [] => simp [quotient, Fits, Error.kind, ErrorKind.inLanguage]
  | [n] => exact Number.div_failsInLanguage_iff (.int 1) n
  | n :: second :: rest =>
    exact Number.foldlM_failsInLanguage_iff Number.div_failsInLanguage_iff n _

theorem remainder_failsInLanguage_iff (levels : Nat) (ns : List Number) :
    FailsInLanguage (remainder levels (ns.map Value.number)) ↔ Fits .mod ns := by
  match ns with
  | [a, b] =>
    have numbers := numbers_map_number .mod levels [a, b]
    rw [Fits, ← Number.mod_failsInLanguage_iff]
    simp only [remainder, two, List.map_cons, List.map_nil] at numbers ⊢
    simp [failsInLanguage_bind_iff, numbers]
  | [] | [_] | _ :: _ :: _ :: _ =>
    simp [remainder, two, Fits, failsInLanguage_bind_iff, Error.kind, ErrorKind.inLanguage]

end Builtin

end SmallLisp
