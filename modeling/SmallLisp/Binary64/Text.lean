import SmallLisp.Binary64.Nearest
import SmallLisp.Binary64.Shortest

/-!
# Floats and decimal text

A float is written with the fewest digits that read back, positionally for exponents of the
leading digit from -4 to 15 and with an exponent of at least two digits otherwise, and always so
that it shows that it is no integer. A decimal is read to the nearest float. The examples fix the
format.
-/

namespace SmallLisp.Binary64

/-- A natural number in decimal digits. -/
def decimalDigits (n : Nat) : List Char := Nat.toDigits 10 n

/-- At least two digits, for exponents. -/
def exponentDigits (n : Nat) : List Char :=
  if n < 10 then '0' :: decimalDigits n else decimalDigits n

/-- Writes digits with the point behind the first `point` of them, zeros filled in where there are
too few. -/
def positional (digits : List Char) (point : Int) : List Char :=
  if point ≤ 0 then '0' :: '.' :: (List.replicate (-point).toNat '0' ++ digits)
  else if digits.length ≤ point then
    digits ++ List.replicate (point.toNat - digits.length) '0' ++ ['.', '0']
  else digits.take point.toNat ++ '.' :: digits.drop point.toNat

/-- Writes digits with the point behind the first of them and a power of ten. -/
def scientific (digits : List Char) (exponent : Int) : List Char :=
  digits.take 1 ++ (if digits.length ≤ 1 then [] else '.' :: digits.drop 1) ++
    'e' :: (if exponent < 0 then '-' else '+') :: exponentDigits exponent.natAbs

/-- Leading digits at exponents in this range are written positionally. -/
def isPositional (exponent : Int) : Bool := -4 ≤ exponent && exponent < 16

/-- A positive decimal as text. -/
def layout (d : Decimal) : List Char :=
  let digits := decimalDigits d.digits
  let point := d.exponent + digits.length
  if isPositional (point - 1) then positional digits point else scientific digits (point - 1)

/-- The text of a float. -/
def text (x : Float) : String :=
  match ofFloat x with
  | .nan => "nan"
  | .infinite negative => if negative then "-inf" else "inf"
  | .finite negative significand exponent =>
    let magnitude :=
      if significand = 0 then ['0', '.', '0'] else layout (shortest significand exponent)
    String.ofList (if negative then '-' :: magnitude else magnitude)

/-- The number of digits of a natural number, none for zero. -/
def digitCount (n : Nat) : Nat := if n = 0 then 0 else (decimalDigits n).length

/-- The float nearest to `digits * 10 ^ exponent`. Numbers of 400 places before the point are too
large for any finite float, and numbers with 400 zeros behind it are nearest to zero, so that
powers of ten beyond need not be computed. -/
def ofDecimal (negative : Bool) (digits : Nat) (exponent : Int) : Float :=
  let places := exponent + digitCount digits
  if digits = 0 || places < -400 then withSign negative 0
  else if 400 < places then withSign negative infinityBits
  else nearest negative (digits * Nat.pow 10 exponent.toNat) (Nat.pow 10 (-exponent).toNat)

example : text 0.1 = "0.1" := by decide +kernel
example : text (0.1 + 0.2) = "0.30000000000000004" := by decide +kernel
example : text 1e15 = "1000000000000000.0" := by decide +kernel
example : text 1e16 = "1e+16" := by decide +kernel
example : text 1.5e-7 = "1.5e-07" := by decide +kernel
example : text 0.0001 = "0.0001" := by decide +kernel
example : text 5e-324 = "5e-324" := by decide +kernel
example : text 2.98023223876953125e-8 = "2.9802322387695312e-08" := by decide +kernel
example : text (-0.0) = "-0.0" := by decide +kernel
example : ofDecimal false 1 400 = ofDecimal false 2 9999 := by decide +kernel

end SmallLisp.Binary64
