import SmallLisp.Binary64.Basic

/-!
# Rounding a fraction to the nearest float

A quotient of two natural numbers is rounded once, to the nearest float, a tie to the one whose
last bit is zero. Main statement: the rounded quotient of two numbers is within half a unit of the
exact one (`roundQuotient_near`).
-/

namespace SmallLisp.Binary64

/-- The integer nearest to a quotient, a tie going to the even neighbour. -/
def roundQuotient (num den : Nat) : Nat :=
  let below := num / den
  let rest := num % den
  if 2 * rest < den || (2 * rest == den && below % 2 == 0) then below else below + 1

theorem roundQuotient_near (num : Nat) {den : Nat} (h : 0 < den) :
    2 * (roundQuotient num den * den) ≤ 2 * num + den ∧
      2 * num ≤ 2 * (roundQuotient num den * den) + den := by
  have split : den * (num / den) + num % den = num := Nat.div_add_mod num den
  have rest_lt : num % den < den := Nat.mod_lt _ h
  simp only [roundQuotient]
  generalize num / den = below at *
  generalize num % den = rest at *
  have succ_mul : (below + 1) * den = den * below + den := by
    rw [Nat.add_mul, Nat.mul_comm, Nat.one_mul]
  have mul_comm : below * den = den * below := Nat.mul_comm ..
  generalize den * below = product at *
  split
  · rename_i hc
    simp only [Bool.or_eq_true, decide_eq_true_eq, Bool.and_eq_true, beq_iff_eq] at hc
    omega
  · rename_i hc
    simp only [Bool.or_eq_true, decide_eq_true_eq, Bool.and_eq_true, beq_iff_eq, not_or] at hc
    omega

/-- The fraction counted in units of `2 ^ exponent`. -/
def inUnits (num den : Nat) (exponent : Int) : Nat × Nat :=
  (num * Nat.pow 2 (-exponent).toNat, den * Nat.pow 2 exponent.toNat)

/-- The exponent of the last place of the float nearest to a fraction. -/
def unitExponent (num den : Nat) : Int :=
  let guess : Int := (num.log2 : Int) - den.log2 - fractionBits
  let scaled := inUnits num den guess
  max minExponent (if fractionSize * scaled.2 ≤ scaled.1 then guess else guess - 1)

/-- The word of the nearest float, counted on past infinity for a fraction that is too large. -/
def nearestBits (num den : Nat) : Nat :=
  if num = 0 then 0
  else
    let exponent := unitExponent num den
    let scaled := inUnits num den exponent
    (exponent - minExponent).toNat * fractionSize + roundQuotient scaled.1 scaled.2

/-- The float with the given sign and the word of its magnitude. -/
def withSign (negative : Bool) (bits : Nat) : Float :=
  Float.ofBits (UInt64.ofNat (bits + if negative then signBit else 0))

/-- The float nearest to a fraction, infinity if the fraction is too large. -/
def nearest (negative : Bool) (num den : Nat) : Float :=
  withSign negative (min (nearestBits num den) infinityBits)

/-- The float nearest to a fraction, if a finite one is. -/
def nearest? (negative : Bool) (num den : Nat) : Option Float :=
  let bits := nearestBits num den
  if bits < infinityBits then some (withSign negative bits) else none

/-- The float nearest to an integer, if a finite one is. -/
def ofInt? (n : Int) : Option Float := nearest? (decide (n < 0)) n.natAbs 1

end SmallLisp.Binary64
