/-!
# The value of a float

A double precision float is a sign with a number `significand * 2 ^ exponent`, an infinity, or not
a number. Main statements: a significand has at most 53 bits (`significand_lt`), and the exponent
of the last place lies between `minExponent` and `maxExponent` (`exponent_bounds`).
-/

namespace SmallLisp

/-- What a double precision float denotes. -/
inductive Binary64 where
  | nan
  | infinite (negative : Bool)
  | finite (negative : Bool) (significand : Nat) (exponent : Int)
  deriving DecidableEq, Repr

namespace Binary64

/-- A significand below this bound and at or above half of it belongs to a number of full
precision. -/
def significandBound : Nat := 0x20000000000000

/-- The number of fraction bits, which separate the exponent field from the end of the word. -/
def fractionBits : Nat := 52

/-- The number of fractions, two to the power `fractionBits`. -/
def fractionSize : Nat := 0x10000000000000

/-- The exponent of the last place of the smallest numbers. -/
def minExponent : Int := -1074

/-- The exponent of the last place of the largest numbers. -/
def maxExponent : Int := 971

/-- The sign bit of a word. -/
def signBit : Nat := 0x8000000000000000

/-- The word of positive infinity, the first above those of the finite numbers. -/
def infinityBits : Nat := 0x7FF0000000000000

/-- Splits a word into its three fields. -/
def ofBits (bits : Nat) : Binary64 :=
  let negative := decide (signBit ≤ bits)
  let field := bits / fractionSize % 2048
  let fraction := bits % fractionSize
  if field = 2047 then
    if fraction = 0 then .infinite negative else .nan
  else if field = 0 then .finite negative fraction minExponent
  else .finite negative (fractionSize + fraction) (field + minExponent - 1)

/-- What a float denotes. -/
def ofFloat (x : Float) : Binary64 := ofBits x.toBits.toNat

/-- A word denotes a number in one of two ways, by the value of its exponent field. -/
theorem ofBits_eq_finite {bits : Nat} {negative : Bool} {significand : Nat} {exponent : Int}
    (h : ofBits bits = .finite negative significand exponent) :
    significand < fractionSize ∧ exponent = minExponent ∨
      ∃ field fraction : Nat, 1 ≤ field ∧ field ≤ 2046 ∧ fraction < fractionSize ∧
        significand = fractionSize + fraction ∧ exponent = field + minExponent - 1 := by
  have fraction_lt := Nat.mod_lt bits (show 0 < fractionSize by decide)
  have field_lt := Nat.mod_lt (bits / fractionSize) (show 0 < 2048 by decide)
  unfold ofBits at h
  generalize bits % fractionSize = fraction at *
  generalize bits / fractionSize % 2048 = field at *
  by_cases top : field = 2047
  · by_cases empty : fraction = 0 <;> simp [top, empty] at h
  · by_cases bottom : field = 0
    · simp only [bottom, Nat.reduceEqDiff, ↓reduceIte, Binary64.finite.injEq] at h
      exact .inl ⟨h.2.1 ▸ fraction_lt, h.2.2.symm⟩
    · simp only [top, bottom, ↓reduceIte, Binary64.finite.injEq] at h
      exact .inr ⟨field, fraction, by omega, by omega, fraction_lt, h.2.1.symm, h.2.2.symm⟩

theorem significand_lt {bits : Nat} {negative : Bool} {significand : Nat} {exponent : Int}
    (h : ofBits bits = .finite negative significand exponent) : significand < significandBound := by
  simp only [significandBound]
  rcases ofBits_eq_finite h with ⟨lt, _⟩ | ⟨_, _, _, _, lt, rfl, _⟩ <;>
    simp only [fractionSize] at lt ⊢ <;> omega

theorem exponent_bounds {bits : Nat} {negative : Bool} {significand : Nat} {exponent : Int}
    (h : ofBits bits = .finite negative significand exponent) :
    minExponent ≤ exponent ∧ exponent ≤ maxExponent := by
  simp only [minExponent, maxExponent]
  rcases ofBits_eq_finite h with ⟨_, rfl⟩ | ⟨field, _, _, _, _, _, rfl⟩ <;>
    simp only [minExponent] <;> omega

end Binary64

end SmallLisp
