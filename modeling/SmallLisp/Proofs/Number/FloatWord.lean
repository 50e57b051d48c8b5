import Mathlib
import SmallLisp.Binary64.Nearest

/-!
# The words of floats

A float has a word of 64 bits and is determined by it. The word of a finite float is its sign in
front of a number that grows with the magnitude: the significand, and one more fraction size for
each exponent above the smallest. Main statements: a float keeps the word of a number that it is
made of (`toBits_ofBits`), the word of a finite float is made of its sign and magnitude
(`withSign_wordOf`), and a word up to that of infinity is kept (`ofFloat_withSign`).
-/

namespace SmallLisp.Binary64

open Float.Model (Format)
open Float.Model.UnpackedFloat (unpack pack unpackExponent unpackMantissa pack_unpack_of_valid)

theorem toNat_exponentField (b : BitVec Format.binary64.numBits) :
    (unpackExponent b).toNat = b.toNat / 2 ^ 52 % 2048 := by
  simp [unpackExponent, BitVec.extractLsb_toNat, Nat.shiftRight_eq_div_pow]

theorem toNat_fractionField (b : BitVec Format.binary64.numBits) :
    (unpackMantissa b).toNat = b.toNat % 2 ^ 52 := by
  simp [unpackMantissa, BitVec.extractLsb_toNat]

/-- A float keeps the word that it is made of, unless the word is that of no number. -/
theorem toBits_ofBits {word : UInt64} (number : ofBits word.toNat ≠ .nan) :
    (Float.ofBits word).toBits = word := by
  have valid : Format.binary64.Valid word.toBitVec := by
    refine ⟨fun top full => absurd ?_ number⟩
    have exponent := congrArg BitVec.toNat top
    have fraction := mt BitVec.toNat_inj.1 full
    rw [toNat_exponentField] at exponent
    rw [toNat_fractionField] at fraction
    have field : word.toNat / fractionSize % 2048 = 2047 := exponent
    have rest : word.toNat % fractionSize ≠ 0 := fraction
    simp [ofBits, field, rest]
  have same : pack Format.binary64 (unpack Format.binary64 word.toBitVec) = word.toBitVec :=
    pack_unpack_of_valid valid
  simp only [Float.ofBits, Float.toBits, Float.Model.ofBits, Float.Model.pack, same]

/-- The word of a magnitude. -/
def wordOf (significand : Nat) (exponent : Int) : Nat :=
  (exponent - minExponent).toNat * fractionSize + significand

/-- A word is put together from its sign and its magnitude. -/
theorem eq_wordOf {bits significand : Nat} {negative : Bool} {exponent : Int} (size : bits < 2 ^ 64)
    (h : ofBits bits = .finite negative significand exponent) :
    bits = wordOf significand exponent + if negative then signBit else 0 := by
  have size' : bits < 2 * signBit := size
  have sign : (if decide (signBit ≤ bits) then signBit else 0) = bits / signBit * signBit := by
    by_cases high : signBit ≤ bits
    · simp only [high, decide_true, ↓reduceIte]
      simp only [signBit] at *
      omega
    · simp only [high, decide_false, Bool.false_eq_true, ↓reduceIte]
      rw [Nat.div_eq_of_lt (Nat.not_le.1 high), Nat.zero_mul]
  by_cases top : bits / fractionSize % 2048 = 2047
  · by_cases empty : bits % fractionSize = 0 <;> simp [ofBits, top, empty] at h
  by_cases bottom : bits / fractionSize % 2048 = 0
  · simp only [ofBits, bottom, Nat.reduceEqDiff, ↓reduceIte] at h
    cases h
    rw [sign, wordOf]
    simp only [minExponent, fractionSize, signBit] at *
    omega
  · simp only [ofBits, top, bottom, ↓reduceIte] at h
    cases h
    rw [sign, wordOf]
    simp only [minExponent, fractionSize, signBit] at *
    omega

theorem withSign_wordOf {x : Float} {negative : Bool} {significand : Nat} {exponent : Int}
    (h : ofFloat x = .finite negative significand exponent) :
    withSign negative (wordOf significand exponent) = x := by
  rw [withSign, ← eq_wordOf x.toBits.toNat_lt h, UInt64.ofNat_toNat, Float.ofBits_toBits]

theorem ofBits_eq_nan_iff {bits : Nat} : ofBits bits = .nan ↔
    bits / fractionSize % 2048 = 2047 ∧ bits % fractionSize ≠ 0 := by
  by_cases top : bits / fractionSize % 2048 = 2047
  · by_cases empty : bits % fractionSize = 0 <;> simp [ofBits, top, empty]
  · by_cases bottom : bits / fractionSize % 2048 = 0 <;> simp [ofBits, top, bottom]

/-- Words up to that of infinity are those of numbers, with any sign. -/
theorem ofBits_ne_nan (negative : Bool) {bits : Nat} (le : bits ≤ infinityBits) :
    ofBits (bits + if negative then signBit else 0) ≠ .nan := by
  rw [Ne, ofBits_eq_nan_iff]
  cases negative <;> simp only [↓reduceIte, Bool.false_eq_true, infinityBits, fractionSize,
    signBit] at * <;> omega

/-- Words below that of infinity are those of finite floats, with any sign. -/
theorem ofBits_finite (negative : Bool) {bits : Nat} (lt : bits < infinityBits) :
    ∃ significand exponent,
      ofBits (bits + if negative then signBit else 0) = .finite negative significand exponent := by
  have sign : decide (signBit ≤ bits + if negative then signBit else 0) = negative := by
    cases negative
    · simp only [Bool.false_eq_true, ↓reduceIte, Nat.add_zero, decide_eq_false_iff_not,
        infinityBits, signBit] at *
      omega
    · simp
  have field : (bits + if negative then signBit else 0) / fractionSize % 2048 ≠ 2047 := by
    cases negative <;> simp only [↓reduceIte, Bool.false_eq_true, infinityBits, fractionSize,
      signBit] at * <;> omega
  generalize bits + (if negative then signBit else 0) = word at *
  rw [ofBits, sign]
  simp only [if_neg field]
  split
  · exact ⟨_, _, rfl⟩
  · exact ⟨_, _, rfl⟩

theorem ofBits_infinite (negative : Bool) :
    ofBits (infinityBits + if negative then signBit else 0) = .infinite negative := by
  cases negative <;> decide

/-- A float with the word of a magnitude up to infinity has this magnitude. -/
theorem ofFloat_withSign (negative : Bool) {bits : Nat} (le : bits ≤ infinityBits) :
    ofFloat (withSign negative bits) = ofBits (bits + if negative then signBit else 0) := by
  have number := ofBits_ne_nan negative le
  have size : bits + (if negative then signBit else 0) < 2 ^ 64 := by
    simp only [infinityBits, signBit] at *
    split <;> omega
  have same : (UInt64.ofNat (bits + if negative then signBit else 0)).toNat =
      bits + if negative then signBit else 0 := by
    rw [UInt64.toNat_ofNat', Nat.mod_eq_of_lt size]
  rw [withSign, ofFloat, toBits_ofBits (same.symm ▸ number), same]

end SmallLisp.Binary64
