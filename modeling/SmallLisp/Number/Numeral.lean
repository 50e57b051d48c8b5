import SmallLisp.Number.Basic
import SmallLisp.Text.DecimalDigit

/-!
# Numerals

The texts that denote numbers. An integer is an optional sign and digits. A float is an optional
sign, digits with a point before, among or behind them, and an optional exponent; without a point
it needs the exponent. Digits of every script count. Main statement: a text without a digit is no
numeral (`ofChars?_eq_none_of_no_digit`).
-/

namespace SmallLisp

/-- A numeral taken apart. -/
inductive Numeral where
  | int (negative : Bool) (digits : List Nat)
  | float (negative : Bool) (whole fraction : List Nat) (exponent : Int)
  deriving DecidableEq, Repr

namespace Numeral

open Text

/-- Splits off a sign. -/
def splitSign : List Char → Bool × List Char
  | '+' :: rest => (false, rest)
  | '-' :: rest => (true, rest)
  | rest => (false, rest)

/-- The values of the digits that a text starts with. -/
def leadingDigits (s : List Char) : List Nat := (s.takeWhile isDecimalDigit).map digitValue

/-- What follows the digits that a text starts with. -/
def afterDigits (s : List Char) : List Char := s.dropWhile isDecimalDigit

/-- An integer with its sign apart. -/
def signed (negative : Bool) (magnitude : Nat) : Int :=
  if negative then -magnitude else magnitude

/-- The digits of an exponent, at least one and nothing else. -/
def exponentValue? (s : List Char) : Option Nat :=
  if s.isEmpty || !s.all isDecimalDigit then none else some (decimalValue (s.map digitValue))

/-- The exponent that a numeral ends with, zero if nothing is left to read. -/
def exponent? : List Char → Option Int
  | [] => some 0
  | mark :: rest =>
    if mark = 'e' || mark = 'E' then
      let (negative, digits) := splitSign rest
      (exponentValue? digits).map (signed negative ·)
    else none

/-- Takes a numeral without its sign apart. -/
def unsigned? (negative : Bool) (s : List Char) : Option Numeral :=
  let whole := leadingDigits s
  match afterDigits s with
  | [] => if whole.isEmpty then none else some (int negative whole)
  | '.' :: rest =>
    let fraction := leadingDigits rest
    if whole.isEmpty && fraction.isEmpty then none
    else (exponent? (afterDigits rest)).map (float negative whole fraction)
  | rest => if whole.isEmpty then none else (exponent? rest).map (float negative whole [])

/-- Takes a numeral apart. -/
def ofChars? (s : List Char) : Option Numeral :=
  let (negative, rest) := splitSign s
  unsigned? negative rest

/-- The number that a numeral denotes. An integer with too many digits is refused. -/
def value : Numeral → Except Error Number
  | int negative digits =>
    if Error.digitLimit < digits.length then .error (.tooLongToRead digits.length)
    else .ok (.int (signed negative (decimalValue digits)))
  | float negative whole fraction exponent =>
    .ok (.float (Binary64.ofDecimal negative (decimalValue (whole ++ fraction))
      (exponent - fraction.length)))

theorem leadingDigits_eq_nil {s : List Char} (h : ∀ c ∈ s, isDecimalDigit c = false) :
    leadingDigits s = [] := by
  cases s with
  | nil => rfl
  | cons c rest => simp [leadingDigits, h c (by simp)]

theorem afterDigits_eq_self {s : List Char} (h : ∀ c ∈ s, isDecimalDigit c = false) :
    afterDigits s = s := by
  cases s with
  | nil => rfl
  | cons c rest => simp [afterDigits, h c (by simp)]

theorem mem_of_mem_splitSign {s : List Char} {c : Char} (h : c ∈ (splitSign s).2) : c ∈ s := by
  unfold splitSign at h
  split at h <;> simp_all

/-- A text without a digit is no numeral. -/
theorem ofChars?_eq_none_of_no_digit {s : List Char} (h : ∀ c ∈ s, isDecimalDigit c = false) :
    ofChars? s = none := by
  have rest : ∀ c ∈ (splitSign s).2, isDecimalDigit c = false :=
    fun c hc => h c (mem_of_mem_splitSign hc)
  unfold ofChars? unsigned?
  simp only [leadingDigits_eq_nil rest, afterDigits_eq_self rest]
  generalize (splitSign s).2 = body at rest
  split
  · rfl
  · rename_i tail
    have empty : leadingDigits tail = [] :=
      leadingDigits_eq_nil fun c hc => rest c (List.mem_cons_of_mem _ hc)
    simp [empty]
  · rfl

end Numeral

end SmallLisp
