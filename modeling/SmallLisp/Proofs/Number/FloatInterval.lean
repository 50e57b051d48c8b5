import SmallLisp.Binary64.Text
import SmallLisp.Proofs.Number.FloatWord
import SmallLisp.Proofs.Number.Range

/-!
# The numbers that round to a float

A finite float is the one nearest to every number of its interval, of which the shortest decimal
is one. Main statements: a number of the interval is rounded to the float (`nearestBits_of_contains`
and `ofDecimal_of_contains`), the shortest decimal lies in the interval (`contains_shortest`), and
a decimal is too large for a finite float exactly from a bound on (`ofFloat_ofDecimal`).
-/

namespace SmallLisp

/-- The number that a decimal stands for. -/
def Decimal.value (d : Decimal) : ℚ := d.digits * 10 ^ d.exponent

namespace Binary64

/-! ### The interval of a float -/

namespace Interval

/-- The number lies in the interval. -/
def Contains (i : Interval) (q : ℚ) : Prop :=
  if i.closed then i.low ≤ q / 2 ^ i.exponent ∧ q / 2 ^ i.exponent ≤ i.high
  else i.low < q / 2 ^ i.exponent ∧ q / 2 ^ i.exponent < i.high

variable {i : Interval} {q : ℚ}

theorem Contains.bounds (h : i.Contains q) :
    i.low ≤ q / 2 ^ i.exponent ∧ q / 2 ^ i.exponent ≤ i.high := by
  rw [Contains] at h
  split at h
  · exact h
  · exact ⟨h.1.le, h.2.le⟩

/-- Bounds and points are multiplied by the same power of two and of ten. -/
theorem exists_scale (i : Interval) (step : Int) : ∃ scale : ℚ, 0 < scale ∧
    (∀ bound, (i.scaleBound step bound : ℚ) = bound * 2 ^ i.exponent * scale) ∧
    ∀ point, (i.scalePoint step point : ℚ) = point * 10 ^ step * scale := by
  refine ⟨2 ^ (-i.exponent).toNat * 10 ^ (-step).toNat, by positivity, fun bound => ?_,
    fun point => ?_⟩
  · simp only [scaleBound, Nat.pow_eq]
    push_cast
    rw [← zpow_mul_toNat_neg two_ne_zero i.exponent]
    ring
  · simp only [scalePoint, Nat.pow_eq]
    push_cast
    rw [← zpow_mul_toNat_neg (a := 10) (by norm_num) step]
    ring

/-- The comparison in whole numbers is that of the numbers themselves. -/
theorem admits_iff (i : Interval) (step : Int) (point : Nat) :
    i.admits step point = true ↔ i.Contains (point * 10 ^ step) := by
  obtain ⟨scale, pos, bounds, points⟩ := i.exists_scale step
  have unit : (0 : ℚ) < 2 ^ i.exponent := by positivity
  have le_iff (bound : Nat) : i.scaleBound step bound ≤ i.scalePoint step point ↔
      (bound : ℚ) ≤ point * 10 ^ step / 2 ^ i.exponent := by
    rw [← Nat.cast_le (α := ℚ), bounds, points, mul_le_mul_iff_left₀ pos, le_div_iff₀ unit]
  have ge_iff (bound : Nat) : i.scalePoint step point ≤ i.scaleBound step bound ↔
      (point * 10 ^ step / 2 ^ i.exponent : ℚ) ≤ bound := by
    rw [← Nat.cast_le (α := ℚ), bounds, points, mul_le_mul_iff_left₀ pos, div_le_iff₀ unit]
  simp only [admits, Contains]
  split <;> simp [le_iff, ge_iff, ← not_le]

theorem contains_of_search {tries : Nat} {step : Int} {d : Decimal}
    (h : i.search tries step = some d) : i.Contains d.value := by
  induction tries generalizing step with
  | zero => cases h
  | succ tries ih =>
    rw [search] at h
    split at h
    · rename_i point found
      cases h
      exact (i.admits_iff step point).1 (admits_of_nearestOnGrid? found)
    · exact ih h

end Interval

/-! ### Rounding a number of the interval -/

/-- The number lies within half of the natural number, and closer to it if it is odd. -/
def RoundsTo (x : ℚ) (n : Nat) : Prop :=
  (n - 1 / 2 ≤ x ∧ x ≤ n + 1 / 2) ∧ (n % 2 = 1 → n - 1 / 2 < x ∧ x < n + 1 / 2)

/-- For a fraction this is a condition on whole numbers. -/
theorem RoundsTo.bounds {num den n : Nat} (pos : 0 < den) (h : RoundsTo (num / den) n) :
    (2 * (n * den) ≤ 2 * num + den ∧ 2 * num ≤ 2 * (n * den) + den) ∧
      (n % 2 = 1 → 2 * (n * den) < 2 * num + den ∧ 2 * num < 2 * (n * den) + den) := by
  have pos' : (0 : ℚ) < den := Nat.cast_pos.2 pos
  obtain ⟨⟨low, high⟩, odd⟩ := h
  rw [le_div_iff₀ pos'] at low
  rw [div_le_iff₀ pos'] at high
  rw [lt_div_iff₀ pos', div_lt_iff₀ pos'] at odd
  refine ⟨?_, fun isOdd => ?_⟩
  · rw [← Nat.cast_le (α := ℚ), ← Nat.cast_le (α := ℚ)]
    push_cast
    constructor <;> linarith
  · obtain ⟨low, high⟩ := odd isOdd
    rw [← Nat.cast_lt (α := ℚ), ← Nat.cast_lt (α := ℚ)]
    push_cast
    constructor <;> linarith

theorem roundQuotient_eq {num den n : Nat} (pos : 0 < den) (h : RoundsTo (num / den) n) :
    roundQuotient num den = n := by
  obtain ⟨⟨low, high⟩, odd⟩ := h.bounds pos
  have split : num / den * den + num % den = num := Nat.div_add_mod' num den
  have rest_lt : num % den < den := Nat.mod_lt _ pos
  simp only [roundQuotient]
  generalize num / den = below at *
  generalize num % den = rest at *
  rcases Nat.lt_trichotomy n below with lt | rfl | gt
  · have le : (n + 1) * den ≤ below * den := Nat.mul_le_mul_right den lt
    rw [Nat.succ_mul] at le
    omega
  · have down : 2 * rest < den ∨ 2 * rest = den ∧ n % 2 = 0 := by omega
    rw [if_pos (by simpa using down)]
  · have le : (below + 1) * den ≤ n * den := Nat.mul_le_mul_right den gt
    have next : n = below + 1 := by
      by_contra further
      have le : (below + 2) * den ≤ n * den := Nat.mul_le_mul_right den (by omega)
      rw [Nat.add_mul] at le
      omega
    subst next
    have product : (below + 1) * den = below * den + den := Nat.succ_mul below den
    have up : ¬ (2 * rest < den ∨ 2 * rest = den ∧ below % 2 = 0) := by omega
    rw [if_neg (by simpa using up)]

variable {significand : Nat} {exponent : Int} {q : ℚ}

/-- The units of the interval are quarters of the last place. -/
theorem div_quarter (q : ℚ) (significand : Nat) (exponent : Int) :
    q / 2 ^ (Interval.around significand exponent).exponent = 4 * (q / 2 ^ exponent) := by
  have place : (Interval.around significand exponent).exponent = exponent - 2 := rfl
  have quarter : (2 : ℚ) ^ (exponent - 2) = 2 ^ exponent / 4 := by
    rw [zpow_sub₀ two_ne_zero]
    norm_num
  rw [place, quarter]
  ring

theorem Interval.Contains.roundsTo (pos : 0 < significand)
    (h : (Interval.around significand exponent).Contains q) :
    RoundsTo (q / 2 ^ exponent) significand := by
  have low : (4 * significand - 2 : ℚ) ≤ (Interval.around significand exponent).low := by
    have le : 4 * significand ≤ (Interval.around significand exponent).low + 2 := by
      simp only [around]
      split <;> omega
    have le : ((4 * significand : Nat) : ℚ) ≤ ((around significand exponent).low + 2 : Nat) :=
      Nat.cast_le.2 le
    push_cast at le
    linarith
  have high : ((Interval.around significand exponent).high : ℚ) = 4 * significand + 2 := by
    simp [around]
  have bounds := h.bounds
  rw [div_quarter, high] at bounds
  refine ⟨⟨by linarith, by linarith⟩, fun odd => ?_⟩
  have isOpen : (around significand exponent).closed = false := by simp [around, odd]
  rw [Contains, isOpen, if_neg Bool.false_ne_true, div_quarter, high] at h
  constructor <;> linarith

theorem Interval.Contains.quarter (h : (Interval.around fractionSize exponent).Contains q)
    (above : minExponent < exponent) : fractionSize - 1 / 4 ≤ q / 2 ^ exponent := by
  have low : (Interval.around fractionSize exponent).low = 4 * fractionSize - 1 := by
    simp [around, above]
  have bounds := h.bounds
  rw [div_quarter, low] at bounds
  norm_num [fractionSize] at bounds ⊢
  linarith

theorem exactDecimal_value (significand : Nat) (exponent : Int) :
    (exactDecimal significand exponent).value = significand * 2 ^ exponent := by
  have tens : (10 : ℚ) ^ min exponent 0 * 10 ^ (-exponent).toNat = 1 := by
    have place : min exponent 0 + (-exponent).toNat = 0 := by omega
    rw [← zpow_natCast, ← zpow_add₀ (by norm_num), place, zpow_zero]
  have twos := zpow_mul_toNat_neg (a := 2) two_ne_zero exponent
  have split : (10 : ℚ) ^ (-exponent).toNat = 2 ^ (-exponent).toNat * 5 ^ (-exponent).toNat := by
    rw [← mul_pow]
    norm_num
  simp only [Decimal.value, exactDecimal, Nat.pow_eq]
  push_cast
  rw [← twos]
  calc _ = (significand * 2 ^ exponent : ℚ) * (10 ^ min exponent 0 *
        (2 ^ (-exponent).toNat * 5 ^ (-exponent).toNat)) := by ring
    _ = significand * 2 ^ exponent := by rw [← split, tens, mul_one]

/-- A positive float lies in its own interval. -/
theorem contains_self (pos : 0 < significand) :
    (Interval.around significand exponent).Contains (significand * 2 ^ exponent) := by
  have unit : (2 : ℚ) ^ exponent ≠ 0 := by positivity
  have low : (Interval.around significand exponent).low < 4 * significand := by
    simp only [Interval.around]
    split <;> omega
  have low : ((Interval.around significand exponent).low : ℚ) < 4 * significand := by
    exact_mod_cast low
  have high : (4 * significand : ℚ) < (Interval.around significand exponent).high := by
    simp [Interval.around]
  rw [Interval.Contains, div_quarter, mul_div_cancel_right₀ _ unit]
  split
  · exact ⟨low.le, high.le⟩
  · exact ⟨low, high⟩

/-- The shortest decimal of a positive float lies in its interval. -/
theorem contains_shortest (pos : 0 < significand) (exponent : Int) :
    (Interval.around significand exponent).Contains (shortest significand exponent).value := by
  rw [shortest]
  cases found : (Interval.around significand exponent).search gridCount
      (coarsestStep significand exponent) with
  | some d => exact Interval.contains_of_search found
  | none =>
    rw [Option.getD_none, exactDecimal_value]
    exact contains_self pos

/-! ### The nearest word -/

/-- A significand and an exponent that a finite float has. -/
structure IsPlace (significand : Nat) (exponent : Int) : Prop where
  lt : significand < significandBound
  least : minExponent ≤ exponent
  most : exponent ≤ maxExponent
  full : minExponent < exponent → fractionSize ≤ significand

theorem isPlace_of_ofBits {bits : Nat} {negative : Bool}
    (h : ofBits bits = .finite negative significand exponent) : IsPlace significand exponent where
  lt := significand_lt h
  least := (exponent_bounds h).1
  most := (exponent_bounds h).2
  full above := by
    rcases ofBits_eq_finite h with ⟨-, rfl⟩ | ⟨_, _, _, _, _, rfl, _⟩
    · exact absurd above (lt_irrefl _)
    · exact Nat.le_add_right ..

theorem IsPlace.wordOf_lt (h : IsPlace significand exponent) :
    wordOf significand exponent < infinityBits := by
  obtain ⟨lt, least, most, -⟩ := h
  simp only [wordOf, significandBound, minExponent, maxExponent, fractionSize, infinityBits] at *
  omega

variable {num den : Nat}

/-- The fraction in units of the last place. -/
theorem inUnits_div (num : Nat) (hden : den ≠ 0) (exponent : Int) :
    ((inUnits num den exponent).1 / (inUnits num den exponent).2 : ℚ) =
      num / den / 2 ^ exponent := by
  have hden' : (den : ℚ) ≠ 0 := Nat.cast_ne_zero.2 hden
  have twos := zpow_mul_toNat_neg (a := 2) two_ne_zero exponent
  simp only [inUnits, Nat.pow_eq]
  push_cast
  rw [← twos]
  field_simp

/-- The exponent of the last place is the one in whose units the fraction has as many binary places
as a significand. -/
theorem unitExponent_eq (hnum : num ≠ 0) (hden : den ≠ 0) (least : minExponent ≤ exponent)
    (below : (num / den : ℚ) / 2 ^ exponent < 2 ^ 53)
    (full : minExponent < exponent → 2 ^ 52 ≤ (num / den : ℚ) / 2 ^ exponent) :
    unitExponent num den = exponent := by
  have denPos : (0 : ℚ) < den := Nat.cast_pos.2 (Nat.pos_of_ne_zero hden)
  obtain ⟨high, low⟩ := unitExponent_bounds hnum hden
  rw [← div_lt_iff₀ denPos] at high
  rw [← le_div_iff₀ denPos] at low
  rw [div_lt_iff₀ (by positivity)] at below
  rw [le_div_iff₀ (by positivity)] at full
  have least' : minExponent ≤ unitExponent num den := le_max_left ..
  rcases lt_trichotomy (unitExponent num den) exponent with coarser | same | finer
  · have step := two_mul_zpow_le coarser
    have := full (lt_of_le_of_lt least' coarser)
    linarith
  · exact same
  · have step := two_mul_zpow_le finer
    have := low (lt_of_le_of_lt least finer)
    linarith

/-- The word of a fraction, once its last place and its significand are known. -/
theorem nearestBits_eq (hnum : num ≠ 0) (hden : den ≠ 0) (least : minExponent ≤ exponent)
    (below : (num / den : ℚ) / 2 ^ exponent < 2 ^ 53)
    (full : minExponent < exponent → 2 ^ 52 ≤ (num / den : ℚ) / 2 ^ exponent)
    (units : RoundsTo (num / den / 2 ^ exponent) significand) :
    nearestBits num den = wordOf significand exponent := by
  have denPos : 0 < (inUnits num den exponent).2 :=
    Nat.mul_pos (Nat.pos_of_ne_zero hden) (Nat.pow_pos Nat.two_pos)
  rw [← inUnits_div num hden] at units
  rw [nearestBits, if_neg hnum, unitExponent_eq hnum hden least below full, wordOf,
    ← roundQuotient_eq denPos units]

/-- A fraction in the interval of a float is rounded to it. -/
theorem nearestBits_of_contains (hden : den ≠ 0) (pos : 0 < significand)
    (place : IsPlace significand exponent)
    (h : (Interval.around significand exponent).Contains (num / den)) :
    nearestBits num den = wordOf significand exponent := by
  have near := h.roundsTo pos
  obtain ⟨lt, least, -, full⟩ := place
  have one_le : (1 : ℚ) ≤ significand := by exact_mod_cast pos
  have hnum : num ≠ 0 := by
    rintro rfl
    have := near.1.1
    rw [Nat.cast_zero, zero_div, zero_div] at this
    linarith
  have bound : (significand + 1 : ℚ) ≤ 2 ^ 53 := by
    have : significand + 1 ≤ 2 ^ 53 := lt
    exact_mod_cast this
  by_cases inside : minExponent < exponent → 2 ^ 52 ≤ (num / den : ℚ) / 2 ^ exponent
  · exact nearestBits_eq hnum hden least (by linarith [near.1.2]) inside near
  · -- below a power of two the places are half as large
    obtain ⟨above, lower⟩ := Classical.not_imp.1 inside
    rw [not_le] at lower
    have power : significand = fractionSize := by
      have le : (significand : ℚ) < (fractionSize + 1 : Nat) :=
        calc (significand : ℚ) ≤ num / den / 2 ^ exponent + 1 / 2 := by linarith [near.1.1]
          _ < 2 ^ 52 + 1 := by linarith
          _ = (fractionSize + 1 : Nat) := by norm_num [fractionSize]
      exact Nat.le_antisymm (Nat.lt_succ_iff.1 (Nat.cast_lt.1 le)) (full above)
    subst power
    have quarter := h.quarter above
    have half : (num / den : ℚ) / 2 ^ (exponent - 1) = 2 * (num / den / 2 ^ exponent) := by
      rw [zpow_sub_one₀ two_ne_zero]
      field_simp
    have rounded : RoundsTo (num / den / 2 ^ (exponent - 1)) significandBound := by
      rw [half]
      norm_num [RoundsTo, significandBound, fractionSize] at quarter lower ⊢
      constructor <;> linarith
    rw [nearestBits_eq hnum hden (by omega) ?_ (fun _ => ?_) rounded, wordOf, wordOf]
    · simp only [significandBound, fractionSize]
      omega
    · rw [half]
      linarith
    · rw [half]
      norm_num [fractionSize] at quarter ⊢
      linarith

/-! ### Reading a decimal -/

variable {digits : Nat}

/-- The value of a decimal as a fraction. -/
theorem value_eq_div (digits : Nat) (exponent : Int) : (Decimal.mk digits exponent).value =
    (digits * Nat.pow 10 exponent.toNat : Nat) / (Nat.pow 10 (-exponent).toNat : Nat) := by
  simp only [Decimal.value, Nat.pow_eq]
  push_cast
  rw [eq_div_iff (by positivity), mul_assoc, zpow_mul_toNat_neg (by norm_num)]

theorem digitCount_bounds (hdigits : digits ≠ 0) : 0 < digitCount digits ∧
    10 ^ (digitCount digits - 1) ≤ digits ∧ digits < 10 ^ digitCount digits := by
  have pos : 0 < (Nat.toDigits 10 digits).length := List.length_pos_iff.2 Nat.toDigits_ne_nil
  have le_iff {k : Nat} (hk : 0 < k) : (Nat.toDigits 10 digits).length ≤ k ↔ digits < 10 ^ k :=
    Nat.length_toDigits_le_iff (by decide) hk
  rw [digitCount, if_neg hdigits, decimalDigits]
  refine ⟨pos, ?_, (le_iff pos).1 le_rfl⟩
  rcases Nat.eq_zero_or_pos ((Nat.toDigits 10 digits).length - 1) with one | more
  · rw [one, pow_zero]
    exact Nat.pos_of_ne_zero hdigits
  · exact Nat.not_lt.1 fun lt => by
      have := (le_iff more).2 lt
      omega

/-- A decimal lies between the powers of ten of its places. -/
theorem value_bounds (hdigits : digits ≠ 0) (exponent : Int) :
    (10 : ℚ) ^ (exponent + digitCount digits - 1) ≤ (Decimal.mk digits exponent).value ∧
      (Decimal.mk digits exponent).value < 10 ^ (exponent + digitCount digits) := by
  obtain ⟨pos, low, high⟩ := digitCount_bounds hdigits
  have low : (10 : ℚ) ^ (digitCount digits - 1) ≤ digits := by exact_mod_cast low
  have high : (digits : ℚ) < 10 ^ digitCount digits := by exact_mod_cast high
  have split (n : Nat) : (10 : ℚ) ^ (exponent + n) = 10 ^ n * 10 ^ exponent := by
    rw [zpow_add₀ (by norm_num), zpow_natCast, mul_comm]
  have place : exponent + digitCount digits - 1 = exponent + (digitCount digits - 1 : Nat) := by
    omega
  rw [place, split, split, Decimal.value]
  constructor <;> gcongr

/-- Ten is more than the third power of two, so that the numbers of four hundred places are beyond
the largest floats, and those with four hundred zeros behind the point below the smallest. -/
theorem two_pow_le_ten_pow : (2 : ℚ) ^ 1200 ≤ 10 ^ 400 := by
  rw [show 1200 = 3 * 400 by decide, pow_mul]
  exact pow_le_pow_left₀ (by norm_num) (by norm_num) 400

theorem rangeBound_le : (rangeBound : ℚ) ≤ 2 ^ 1200 := by
  have le : rangeBound ≤ 2 ^ 54 * 2 ^ 970 := Nat.mul_le_mul_right _ (by decide)
  calc (rangeBound : ℚ) ≤ 2 ^ 54 * 2 ^ 970 := by exact_mod_cast le
    _ = 2 ^ (54 + 970) := (pow_add 2 54 970).symm
    _ ≤ 2 ^ 1200 := pow_le_pow_right₀ one_le_two (by decide)

theorem lt_rangeBound_mul_iff (hden : den ≠ 0) :
    num < rangeBound * den ↔ (num / den : ℚ) < rangeBound := by
  rw [div_lt_iff₀ (Nat.cast_pos.2 (Nat.pos_of_ne_zero hden))]
  exact_mod_cast Iff.rfl

/-- A fraction too small for the smallest float is rounded to zero. -/
theorem nearestBits_eq_zero (hnum : num ≠ 0) (hden : den ≠ 0)
    (small : (num / den : ℚ) < 10 ^ (-400 : Int)) : nearestBits num den = 0 := by
  have tiny : (num / den : ℚ) / 2 ^ minExponent ≤ 1 / 2 := by
    rw [div_le_iff₀ (by positivity)]
    calc (num / den : ℚ) ≤ (10 ^ 400)⁻¹ := small.le
      _ ≤ (2 ^ 1200)⁻¹ := inv_anti₀ (by positivity) two_pow_le_ten_pow
      _ = 2 ^ (-1200 : Int) := rfl
      _ ≤ 2 ^ (minExponent - 1) := zpow_le_zpow_right₀ one_le_two (by decide)
      _ = 1 / 2 * 2 ^ minExponent := by
        rw [zpow_sub_one₀ two_ne_zero]
        ring
  have nonneg : 0 ≤ (num / den : ℚ) / 2 ^ minExponent := by positivity
  have units : RoundsTo (num / den / 2 ^ minExponent) 0 := by
    refine ⟨⟨?_, ?_⟩, nofun⟩ <;> rw [Nat.cast_zero] <;> linarith
  rw [nearestBits_eq hnum hden le_rfl (by linarith) (fun lt => absurd lt (lt_irrefl _)) units]
  rfl

/-- The cut-offs spare computations and change no result. -/
theorem ofDecimal_eq_nearest (negative : Bool) (digits : Nat) (exponent : Int) :
    ofDecimal negative digits exponent =
      nearest negative (digits * Nat.pow 10 exponent.toNat) (Nat.pow 10 (-exponent).toNat) := by
  have hden : Nat.pow 10 (-exponent).toNat ≠ 0 := (Nat.pow_pos (by decide)).ne'
  by_cases hdigits : digits = 0
  · simp [ofDecimal, hdigits, nearest, nearestBits]
  have hnum : digits * Nat.pow 10 exponent.toNat ≠ 0 :=
    Nat.mul_ne_zero hdigits (Nat.pow_pos (by decide)).ne'
  obtain ⟨low, high⟩ := value_bounds hdigits exponent
  rw [value_eq_div] at low high
  simp only [ofDecimal, hdigits, decide_false, Bool.false_or, decide_eq_true_eq]
  generalize digits * Nat.pow 10 exponent.toNat = num at *
  generalize Nat.pow 10 (-exponent).toNat = den at *
  split
  · rename_i small
    have below : (10 : ℚ) ^ (exponent + digitCount digits) ≤ 10 ^ (-400 : Int) :=
      zpow_le_zpow_right₀ (by norm_num) small.le
    rw [nearest, nearestBits_eq_zero hnum hden (lt_of_lt_of_le high below), Nat.zero_min]
  · split
    · rename_i large
      have beyond : (rangeBound : ℚ) ≤ num / den :=
        calc (rangeBound : ℚ) ≤ 2 ^ 1200 := rangeBound_le
          _ ≤ 10 ^ 400 := two_pow_le_ten_pow
          _ = 10 ^ (400 : Int) := rfl
          _ ≤ 10 ^ (exponent + digitCount digits - 1) :=
            zpow_le_zpow_right₀ (by norm_num) (by omega)
          _ ≤ num / den := low
      have infinite : infinityBits ≤ nearestBits num den := by
        rw [← Nat.not_lt, nearestBits_lt_iff num hden, lt_rangeBound_mul_iff hden]
        exact not_lt.2 beyond
      rw [nearest, Nat.min_eq_right infinite]
    · rfl

/-- A decimal in the interval of a float is read as this float. -/
theorem ofDecimal_of_contains {x : Float} {negative : Bool} (pos : 0 < significand)
    (h : ofFloat x = .finite negative significand exponent) {d : Decimal}
    (contains : (Interval.around significand exponent).Contains d.value) :
    ofDecimal negative d.digits d.exponent = x := by
  have place := isPlace_of_ofBits h
  have hden : Nat.pow 10 (-d.exponent).toNat ≠ 0 := (Nat.pow_pos (by decide)).ne'
  rw [value_eq_div] at contains
  rw [ofDecimal_eq_nearest, nearest, nearestBits_of_contains hden pos place contains,
    Nat.min_eq_left place.wordOf_lt.le, withSign_wordOf h]

/-- A decimal that is zero is read as the zero with the sign. -/
theorem ofDecimal_zero {x : Float} {negative : Bool} (h : ofFloat x = .finite negative 0 exponent)
    {d : Decimal} (value : d.value = 0) : ofDecimal negative d.digits d.exponent = x := by
  have least : exponent = minExponent := by
    obtain ⟨-, least, -, full⟩ := isPlace_of_ofBits h
    by_contra above
    exact absurd (full (lt_of_le_of_ne least (Ne.symm above))) (by decide)
  have digits : d.digits = 0 := by
    have tens : (10 : ℚ) ^ d.exponent ≠ 0 := by positivity
    exact Nat.cast_eq_zero.1 ((mul_eq_zero.1 value).resolve_right tens)
  have word : wordOf 0 minExponent = 0 := rfl
  rw [← withSign_wordOf h, least, word]
  simp [ofDecimal, digits]

/-- A decimal is read as an infinity if and only if it reaches the bound, and as a finite float
otherwise. -/
theorem ofFloat_ofDecimal (negative : Bool) (d : Decimal) :
    (d.value < rangeBound → ∃ significand exponent,
      ofFloat (ofDecimal negative d.digits d.exponent) = .finite negative significand exponent) ∧
    (rangeBound ≤ d.value →
      ofFloat (ofDecimal negative d.digits d.exponent) = .infinite negative) := by
  have hden : Nat.pow 10 (-d.exponent).toNat ≠ 0 := (Nat.pow_pos (by decide)).ne'
  rw [ofDecimal_eq_nearest, nearest, ofFloat_withSign negative (Nat.min_le_right ..),
    value_eq_div, ← not_lt, ← lt_rangeBound_mul_iff hden, ← nearestBits_lt_iff _ hden]
  constructor
  · intro lt
    rw [Nat.min_eq_left lt.le]
    exact ofBits_finite negative lt
  · intro ge
    rw [Nat.min_eq_right (Nat.not_lt.1 ge)]
    exact ofBits_infinite negative

end Binary64

end SmallLisp
