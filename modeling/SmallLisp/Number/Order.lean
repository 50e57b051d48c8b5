import SmallLisp.Number.Basic

/-!
# Order of numbers

Numbers compare by their exact values, also an integer with a float, which is never rounded for
the comparison. What is not a number compares with nothing. Main statement: integers compare as
integers (`compare?_int`).
-/

namespace SmallLisp.Number

/-- Compares an integer with `significand * 2 ^ exponent`, taken with its sign. -/
def compareScaled (n : Int) (negative : Bool) (significand : Nat) (exponent : Int) : Ordering :=
  let magnitude : Int := (significand * Nat.pow 2 exponent.toNat : Nat)
  compare (n * (Nat.pow 2 (-exponent).toNat : Nat)) (if negative then -magnitude else magnitude)

/-- Compares an integer with a float. -/
def compareIntFloat? (n : Int) (x : Float) : Option Ordering :=
  match Binary64.ofFloat x with
  | .nan => none
  | .infinite negative => some (if negative then .gt else .lt)
  | .finite negative significand exponent => some (compareScaled n negative significand exponent)

/-- Compares two floats. -/
def compareFloats? (x y : Float) : Option Ordering :=
  if x < y then some .lt
  else if x == y then some .eq
  else if y < x then some .gt
  else none

/-- The order of two numbers, none if one of them is not a number. -/
def compare? : Number → Number → Option Ordering
  | int a, int b => some (compare a b)
  | int a, float y => compareIntFloat? a y
  | float x, int b => (compareIntFloat? b x).map Ordering.swap
  | float x, float y => compareFloats? x y

/-- The numbers have the same value. -/
def same (a b : Number) : Bool := compare? a b == some .eq

def less (a b : Number) : Bool := compare? a b == some .lt

def lessEq (a b : Number) : Bool := (compare? a b).any Ordering.isLE

def greater (a b : Number) : Bool := compare? a b == some .gt

def greaterEq (a b : Number) : Bool := (compare? a b).any Ordering.isGE

theorem compare?_int (a b : Int) : compare? (int a) (int b) = some (compare a b) := rfl

theorem same_int (a b : Int) : same (int a) (int b) = decide (a = b) := by
  by_cases h : a = b <;> simp [same, compare?_int, h]

theorem less_int (a b : Int) : less (int a) (int b) = decide (a < b) := by
  rw [Bool.eq_iff_iff]
  simp [less, compare?_int, Int.compare_eq_lt]

end SmallLisp.Number
