import SmallLisp.Number.Basic

/-!
# Arithmetic

Sums, differences and products of integers are exact. As soon as one operand is a float, the other
becomes one too. A quotient of integers is an integer when there is no remainder, and otherwise
the float nearest to the exact quotient. Main statements: when integers divide to an integer
(`div_int_of_dvd`), and that the remainder lies between zero and the divisor (`mod_int`).
-/

namespace SmallLisp.Number

/-- Applies the integer operation to integers and the float operation as soon as one operand is a
float. -/
def combine (onInts : Int → Int → Int) (onFloats : Float → Float → Float) :
    Number → Number → Except Error Number
  | int a, int b => .ok (int (onInts a b))
  | a, b => do
    let x ← a.toFloat
    let y ← b.toFloat
    return float (onFloats x y)

def add : Number → Number → Except Error Number := combine (· + ·) (· + ·)

def sub : Number → Number → Except Error Number := combine (· - ·) (· - ·)

def mul : Number → Number → Except Error Number := combine (· * ·) (· * ·)

def neg : Number → Number
  | int n => int (-n)
  | float x => float (-x)

/-- The float nearest to the quotient of two integers, the divisor not zero. -/
def divInts (a b : Int) : Except Error Number :=
  match Binary64.nearest? (decide (a < 0) != decide (b < 0)) a.natAbs b.natAbs with
  | some x => .ok (float x)
  | none => .error .quotientTooLarge

/-- The quotient of two numbers. -/
def div : Number → Number → Except Error Number
  | int a, int b =>
    if b = 0 then .error .divisionByZero
    else if b ∣ a then .ok (int (a / b))
    else divInts a b
  | a, b => do
    let x ← a.toFloat
    let y ← b.toFloat
    if y == 0 then throw .divisionByZero
    return float (x / y)

/-- The remainder of two finite floats, with the sign of the dividend. -/
def finiteRemainder (a b : Nat × Int) : Nat × Int :=
  let exponent := min a.2 b.2
  ((a.1 * Nat.pow 2 (a.2 - exponent).toNat) % (b.1 * Nat.pow 2 (b.2 - exponent).toNat), exponent)

/-- The float `significand * 2 ^ exponent` with a sign. -/
def scaled (negative : Bool) (m : Nat × Int) : Float :=
  Binary64.nearest negative (m.1 * Nat.pow 2 m.2.toNat) (Nat.pow 2 (-m.2).toNat)

/-- Moves a remainder with the sign of the dividend to the side of the divisor, which is not zero. A
zero takes the divisor's sign. -/
def remainderTowards (divisorNegative : Bool) (y r : Float) : Float :=
  if r == 0 then Binary64.withSign divisorNegative 0
  else if (r < 0) != divisorNegative then r + y
  else r

/-- The remainder of two floats, with the sign of the divisor, which is not zero. -/
def modFloats (x y : Float) : Float :=
  match Binary64.ofFloat x, Binary64.ofFloat y with
  | .finite sx mx ex, .finite sy my ey =>
    remainderTowards sy y (scaled sx (finiteRemainder (mx, ex) (my, ey)))
  | .finite .., .infinite sy => remainderTowards sy y x
  | _, _ => 0 / 0

/-- The number is zero. -/
def isZero : Number → Bool
  | int n => n == 0
  | float x => x == 0

/-- The remainder of two numbers, with the sign of the divisor. -/
def mod (a b : Number) : Except Error Number :=
  if b.isZero then .error .divisionByZero
  else match a, b with
    | int a, int b => .ok (int (a.fmod b))
    | a, b => do
      let x ← a.toFloat
      let y ← b.toFloat
      return float (modFloats x y)

theorem add_int (a b : Int) : add (int a) (int b) = .ok (int (a + b)) := rfl

theorem sub_int (a b : Int) : sub (int a) (int b) = .ok (int (a - b)) := rfl

theorem mul_int (a b : Int) : mul (int a) (int b) = .ok (int (a * b)) := rfl

theorem div_int_of_dvd {a b : Int} (hb : b ≠ 0) (h : b ∣ a) :
    div (int a) (int b) = .ok (int (a / b)) := by
  simp [div, hb, h]

/-- The remainder is the representative of the dividend between zero and the divisor. -/
theorem mod_int (a : Int) {b : Int} (hb : b ≠ 0) :
    ∃ r, mod (int a) (int b) = .ok (int r) ∧ b ∣ a - r ∧ (0 ≤ r ∧ r < b ∨ b < r ∧ r ≤ 0) := by
  refine ⟨a.fmod b, by simp [mod, isZero, hb], ⟨a.fdiv b, ?_⟩, ?_⟩
  · have := Int.fmod_add_mul_fdiv a b
    omega
  · rcases Int.lt_or_gt_of_ne hb with neg | pos
    · have negated := Int.neg_fmod_neg a b
      have nonneg : 0 ≤ (-a).fmod (-b) := Int.fmod_nonneg_of_pos (-a) (by omega)
      have lt : (-a).fmod (-b) < -b := Int.fmod_lt_of_pos (-a) (by omega)
      exact .inr (by omega)
    · exact .inl ⟨Int.fmod_nonneg_of_pos a pos, Int.fmod_lt_of_pos a pos⟩

end SmallLisp.Number
