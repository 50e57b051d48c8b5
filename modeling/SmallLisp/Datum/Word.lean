import SmallLisp.Datum.Basic
import SmallLisp.Number.Numeral

/-!
# Bare words

A word without parentheses and quotes is the empty list, a boolean, a number or else a symbol.
Main statement: a word without a digit that is none of the three constants is a symbol
(`ofWord_of_no_digit`).
-/

namespace SmallLisp.Datum

/-- The datum that a word denotes. Only an integer with too many digits denotes none. -/
def ofWord (word : String) : Except Error Datum :=
  if word = "nil" then .ok nil
  else if word = "#t" then .ok (atom (.bool true))
  else if word = "#f" then .ok (atom (.bool false))
  else match Numeral.ofChars? word.toList with
    | some numeral => numeral.value.map fun n => atom (.number n)
    | none => .ok (symbol ⟨word⟩)

/-- A word without a digit that is no constant is a symbol. -/
theorem ofWord_of_no_digit {word : String} (constants : word ≠ "nil" ∧ word ≠ "#t" ∧ word ≠ "#f")
    (h : ∀ c ∈ word.toList, Text.isDecimalDigit c = false) :
    ofWord word = .ok (symbol ⟨word⟩) := by
  simp [ofWord, constants, Numeral.ofChars?_eq_none_of_no_digit h]

end SmallLisp.Datum
