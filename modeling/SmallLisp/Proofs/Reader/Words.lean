import SmallLisp.Proofs.Number.Spelling
import SmallLisp.Proofs.Reader.Phrase

/-!
# The classes of words

A word that is none of the constants is an integer, a float or a symbol by the grammar of numerals
alone, and is refused only for the length of an integer. Main statement: which of them it is and
what it stands for (`words_classified`).
-/

namespace SmallLisp.Datum

open Numeral (Spelling)

theorem ofWord_eq_number_iff {word : String} {n : Number} :
    ofWord word = .ok (atom (.number n)) ↔
      ∃ numeral, Numeral.ofChars? word.toList = some numeral ∧ numeral.value = .ok n := by
  constructor
  · intro h
    rcases ofWord_cases h with same | ⟨b, same⟩ | ⟨numeral, n', taken, given, same⟩ | ⟨same, -, -⟩
    all_goals cases same
    exact ⟨numeral, taken, given⟩
  · rintro ⟨numeral, taken, given⟩
    rw [ofWord_of_numeral taken, given]
    rfl

theorem ofWord_eq_error_iff {word : String} {e : Error} : ofWord word = .error e ↔
    ∃ numeral, Numeral.ofChars? word.toList = some numeral ∧ numeral.value = .error e := by
  constructor
  · intro h
    cases taken : Numeral.ofChars? word.toList with
    | none =>
      rw [ofWord, taken] at h
      split_ifs at h
    | some numeral =>
      rw [ofWord_of_numeral taken] at h
      cases value : numeral.value with
      | ok n =>
        rw [value] at h
        cases h
      | error e' =>
        rw [value] at h
        cases h
        exact ⟨numeral, rfl, value⟩
  · rintro ⟨numeral, taken, fails⟩
    rw [ofWord_of_numeral taken, fails]
    rfl

theorem ofWord_eq_symbol_iff {word : String}
    (constants : word ≠ "nil" ∧ word ≠ "#t" ∧ word ≠ "#f") :
    ofWord word = .ok (symbol ⟨word⟩) ↔ Numeral.ofChars? word.toList = none := by
  constructor
  · intro h
    rcases ofWord_cases h with same | ⟨b, same⟩ | ⟨numeral, n, -, -, same⟩ | ⟨-, -, unspelled⟩
    · cases same
    · cases same
    · cases same
    · exact unspelled
  · intro unspelled
    simp [ofWord, constants, unspelled]

/-- Zeros before a row of digits make no difference. -/
theorem ofDigits_reverse_zeros (zeros : Nat) (digits : List Nat) :
    Nat.ofDigits 10 (List.replicate zeros 0 ++ digits).reverse =
      Nat.ofDigits 10 digits.reverse := by
  simp

/-- Words are classified by one grammar of numbers, with digits of any script. A word that is none
of the three constants is an integer if and only if it is an optional sign and digits, at most 4300
of them, and then the one that its digits denote behind its sign. Leading zeros, a plus sign and the
script of the digits make no difference. With more digits it is refused as a text that cannot be
converted. It is a float if and only if it is no integer numeral and is spelled as a float, and then
that of the decimal that is spelled. In every other case, and in no other, it is the symbol of its
name. -/
theorem words_classified {word : String}
    (constants : word ≠ "nil" ∧ word ≠ "#t" ∧ word ≠ "#f") :
    (∀ n, ofWord word = .ok (atom (.number (.int n))) ↔ ∃ negative digits,
      Spelling word.toList (.int negative digits) ∧ digits.length ≤ 4300 ∧
        n = Numeral.signed negative (Nat.ofDigits 10 digits.reverse)) ∧
    (∀ negative digits zeros other, Spelling word.toList (.int negative digits) →
      Spelling other.toList (.int negative (List.replicate zeros 0 ++ digits)) →
      zeros + digits.length ≤ 4300 → ofWord other = ofWord word) ∧
    (∀ e, ofWord word = .error e ↔ ∃ negative digits,
      Spelling word.toList (.int negative digits) ∧ 4300 < digits.length ∧
        e = .tooLongToRead digits.length) ∧
    (∀ e, ofWord word = .error e → e.kind = .invalidValue) ∧
    (∀ x, ofWord word = .ok (atom (.number (.float x))) ↔
      (∀ negative digits, ¬ Spelling word.toList (.int negative digits)) ∧
      ∃ negative whole fraction exponent,
        Spelling word.toList (.float negative whole fraction exponent) ∧
        x = Binary64.ofDecimal negative (Nat.ofDigits 10 (whole ++ fraction).reverse)
          (exponent - fraction.length)) ∧
    (ofWord word = .ok (symbol ⟨word⟩) ↔ ∀ numeral, ¬ Spelling word.toList numeral) := by
  have refused (e : Error) : ofWord word = .error e ↔ ∃ negative digits,
      Spelling word.toList (.int negative digits) ∧ 4300 < digits.length ∧
        e = .tooLongToRead digits.length := by
    rw [ofWord_eq_error_iff]
    constructor
    · rintro ⟨numeral, taken, fails⟩
      obtain ⟨negative, digits, rfl, long, rfl⟩ := Numeral.value_eq_error_iff.1 fails
      exact ⟨negative, digits, Numeral.ofChars?_eq_int_iff.1 taken, long, rfl⟩
    · rintro ⟨negative, digits, spelled, long, rfl⟩
      exact ⟨_, Numeral.ofChars?_of_int spelled,
        Numeral.value_eq_error_iff.2 ⟨negative, digits, rfl, long, rfl⟩⟩
  refine ⟨fun n => ?_, ?_, refused, fun e fails => ?_, fun x => ?_, ?_⟩
  · rw [ofWord_eq_number_iff]
    constructor
    · rintro ⟨numeral, taken, given⟩
      obtain ⟨negative, digits, rfl, short, rfl⟩ := Numeral.value_eq_int_iff.1 given
      exact ⟨negative, digits, Numeral.ofChars?_eq_int_iff.1 taken, short, rfl⟩
    · rintro ⟨negative, digits, spelled, short, rfl⟩
      exact ⟨_, Numeral.ofChars?_of_int spelled,
        Numeral.value_eq_int_iff.2 ⟨negative, digits, rfl, short, rfl⟩⟩
  · intro negative digits zeros other spelled spelledLong fits
    have short : digits.length ≤ Error.digitLimit := Nat.le_trans (Nat.le_add_left ..) fits
    have long : (List.replicate zeros 0 ++ digits).length ≤ Error.digitLimit := by
      rwa [List.length_append, List.length_replicate]
    have first := Numeral.value_eq_int_iff.2 ⟨negative, digits, rfl, short, rfl⟩
    have second := Numeral.value_eq_int_iff.2 ⟨negative, _, rfl, long, rfl⟩
    rw [ofDigits_reverse_zeros] at second
    rw [ofWord_of_numeral (Numeral.ofChars?_of_int spelled), first,
      ofWord_of_numeral (Numeral.ofChars?_of_int spelledLong), second]
  · obtain ⟨negative, digits, -, -, rfl⟩ := (refused e).1 fails
    rfl
  · rw [ofWord_eq_number_iff]
    constructor
    · rintro ⟨numeral, taken, given⟩
      obtain ⟨negative, whole, fraction, exponent, rfl, value⟩ :=
        Numeral.value_eq_float_iff.1 given
      obtain ⟨spelled, noInt⟩ := Numeral.ofChars?_eq_float_iff.1 taken
      exact ⟨noInt, negative, whole, fraction, exponent, spelled, value⟩
    · rintro ⟨noInt, negative, whole, fraction, exponent, spelled, value⟩
      exact ⟨_, Numeral.ofChars?_eq_float_iff.2 ⟨spelled, noInt⟩,
        Numeral.value_eq_float_iff.2 ⟨negative, whole, fraction, exponent, rfl, value⟩⟩
  · rw [ofWord_eq_symbol_iff constants, Numeral.ofChars?_eq_none_iff]

/-- The word `42` is an integer, and with a plus sign, a zero and digits of another script it is the
same integer. A sign behind the mark of an exponent does not make a numeral without digits. -/
theorem words_classified_scripts :
    ("42" ≠ "nil" ∧ "42" ≠ "#t" ∧ "42" ≠ "#f") ∧
      ofWord "42" = .ok (atom (.number (.int 42))) ∧ ofWord "+٠٤2" = ofWord "42" ∧
      ofWord "1e+" = .ok (symbol ⟨"1e+"⟩) := by
  have constants : "42" ≠ "nil" ∧ "42" ≠ "#t" ∧ "42" ≠ "#f" := by decide
  have plain : Spelling "42".toList (.int false [4, 2]) :=
    Numeral.ofChars?_eq_int_iff.1 (by decide)
  have foreign : Spelling "+٠٤2".toList (.int false (List.replicate 1 0 ++ [4, 2])) :=
    Numeral.ofChars?_eq_int_iff.1 (by decide)
  obtain ⟨int, zeros, -⟩ := words_classified constants
  obtain ⟨-, -, -, -, -, symbol⟩ := @words_classified "1e+" (by decide)
  exact ⟨constants, (int 42).2 ⟨false, [4, 2], plain, by decide, by decide⟩,
    zeros false [4, 2] 1 "+٠٤2" plain foreign (by decide),
    symbol.2 (Numeral.ofChars?_eq_none_iff.1 (by decide))⟩

end SmallLisp.Datum
