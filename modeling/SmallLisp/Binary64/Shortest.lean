import SmallLisp.Binary64.Basic

/-!
# The fewest digits that read back

A positive float stands for an interval of numbers that round to it. Its shortest decimal is the
point of that interval on the coarsest grid `10 ^ step` that has one, the nearest to the float
where there are two, and the even one of two that are equally near. Main statement: what
`shortest` finds on a grid lies in the interval (`admits_of_nearestOnGrid?`).
-/

namespace SmallLisp

/-- The number `digits * 10 ^ exponent`. -/
structure Decimal where
  digits : Nat
  exponent : Int
  deriving DecidableEq, Repr

namespace Binary64

/-- The numbers that round to a float, counted in units of a quarter of its last place. -/
structure Interval where
  low : Nat
  middle : Nat
  high : Nat
  closed : Bool
  /-- The exponent of the unit. -/
  exponent : Int

/-- The interval of `significand * 2 ^ exponent`: half a place to either side, a quarter below a
power of two, with the ends if the significand is even. -/
def Interval.around (significand : Nat) (exponent : Int) : Interval where
  low := 4 * significand -
    if significand = fractionSize ∧ minExponent < exponent then 1 else 2
  middle := 4 * significand
  high := 4 * significand + 2
  closed := significand % 2 == 0
  exponent := exponent - 2

namespace Interval

/-- Makes a bound of the interval comparable with a multiple of `10 ^ step`. -/
def scaleBound (i : Interval) (step : Int) (bound : Nat) : Nat :=
  bound * Nat.pow 2 i.exponent.toNat * Nat.pow 10 (-step).toNat

/-- Makes `point * 10 ^ step` comparable with the bounds of the interval. -/
def scalePoint (i : Interval) (step : Int) (point : Nat) : Nat :=
  point * Nat.pow 2 (-i.exponent).toNat * Nat.pow 10 step.toNat

/-- The number `point * 10 ^ step` lies in the interval. -/
def admits (i : Interval) (step : Int) (point : Nat) : Bool :=
  let low := i.scaleBound step i.low
  let high := i.scaleBound step i.high
  let here := i.scalePoint step point
  if i.closed then low ≤ here && here ≤ high else low < here && here < high

/-- The point of a grid in the interval that is nearest to its middle. -/
def nearestOnGrid? (i : Interval) (step : Int) : Option Nat :=
  let middle := i.scaleBound step i.middle
  let unit := i.scalePoint step 1
  let below := middle / unit
  let rest := middle % unit
  match i.admits step below, i.admits step (below + 1) with
  | true, true =>
    if 2 * rest < unit || (2 * rest == unit && below % 2 == 0) then some below else some (below + 1)
  | true, false => some below
  | false, true => some (below + 1)
  | false, false => none

theorem admits_of_nearestOnGrid? {i : Interval} {step : Int} {point : Nat}
    (h : i.nearestOnGrid? step = some point) : i.admits step point = true := by
  simp only [nearestOnGrid?] at h
  split at h
  · split at h <;> cases h <;> assumption
  · cases h; assumption
  · cases h; assumption
  · cases h

/-- The first hit on the grids `10 ^ step`, `10 ^ (step - 1)`, and so on. -/
def search (i : Interval) : Nat → Int → Option Decimal
  | 0, _ => none
  | tries + 1, step =>
    match i.nearestOnGrid? step with
    | some point => some ⟨point, step⟩
    | none => search i tries (step - 1)

end Interval

/-- The decimal of `significand * 2 ^ exponent` itself. -/
def exactDecimal (significand : Nat) (exponent : Int) : Decimal :=
  ⟨significand * Nat.pow 2 exponent.toNat * Nat.pow 5 (-exponent).toNat, min exponent 0⟩

/-- A power of ten above the number, by at most a factor of a thousand: three hundredths of ten
binary places make one decimal place. -/
def coarsestStep (significand : Nat) (exponent : Int) : Int :=
  ((significand.log2 + 1 : Nat) + exponent) * 30103 / 100000 + 2

/-- The number of grids that are tried: seventeen digits suffice, and the first grids are too
coarse. -/
def gridCount : Nat := 22

/-- The decimal with the fewest digits that rounds to `significand * 2 ^ exponent`. -/
def shortest (significand : Nat) (exponent : Int) : Decimal :=
  ((Interval.around significand exponent).search gridCount
    (coarsestStep significand exponent)).getD (exactDecimal significand exponent)

end Binary64

end SmallLisp
