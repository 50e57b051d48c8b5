import SmallLisp.Proofs.Number.FloatInterval
import SmallLisp.Proofs.Number.Spelling

/-!
# The text of floats

A finite float is written as a numeral with a point or an exponent whose value is the shortest
decimal of the float. Main statements: what is laid out for a decimal denotes that decimal
(`denotes_layout`), and a finite float reads back (`ofWord_text`).
-/

namespace SmallLisp

open Text

namespace Numeral

/-- The characters are a float numeral without a sign, and its value is the number. -/
structure Denotes (s : List Char) (q : ℚ) : Prop where
  first : ∀ c ∈ s.head?, c.isDigit = true
  chars : ∀ c ∈ s, c.isDigit = true ∨ c ∈ ['.', 'e', '+', '-']
  numeral : ∀ negative, ∃ whole fraction exponent,
    unsigned? negative s = some (float negative whole fraction exponent) ∧
      (Decimal.mk (decimalValue (whole ++ fraction)) (exponent - fraction.length)).value = q

variable {whole fraction tail : List Char} {exponent : Int}

theorem head?_append_isDigit (nonempty : whole ≠ []) (digits : ∀ c ∈ whole, c.isDigit = true)
    (rest : List Char) : ∀ c ∈ (whole ++ rest).head?, c.isDigit = true := by
  cases whole with
  | nil => exact absurd rfl nonempty
  | cons c whole =>
    rintro _ ⟨⟩
    exact digits c (by simp)

/-- Digits with a point among them and what an exponent may follow. -/
theorem denotes_point (nonempty : whole ≠ []) (wholeDigits : ∀ c ∈ whole, c.isDigit = true)
    (fractionDigits : ∀ c ∈ fraction, c.isDigit = true)
    (stops : ∀ c ∈ tail.head?, isDecimalDigit c = false)
    (tailChars : ∀ c ∈ tail, c.isDigit = true ∨ c ∈ ['.', 'e', '+', '-'])
    (given : exponent? tail = some exponent) :
    Denotes (whole ++ '.' :: (fraction ++ tail))
      (decimalValue ((whole ++ fraction).map digitValue) * 10 ^ (exponent - fraction.length)) where
  first := head?_append_isDigit nonempty wholeDigits _
  chars c member := by
    simp only [List.mem_append, List.mem_cons] at member
    rcases member with digit | rfl | digit | member
    · exact .inl (wholeDigits c digit)
    · exact .inr (by decide)
    · exact .inl (fractionDigits c digit)
    · exact tailChars c member
  numeral negative := by
    refine ⟨whole.map digitValue, fraction.map digitValue, exponent, ?_, ?_⟩
    · rw [unsigned?_of_point (areDigits_of_isDigit wholeDigits)
        (areDigits_of_isDigit fractionDigits) (.inl nonempty) stops, given]
      rfl
    · rw [Decimal.value, List.map_append, List.length_map]

/-- Digits with a point among them and nothing behind them. -/
theorem denotes_fraction (nonempty : whole ≠ []) (wholeDigits : ∀ c ∈ whole, c.isDigit = true)
    (fractionDigits : ∀ c ∈ fraction, c.isDigit = true) :
    Denotes (whole ++ '.' :: fraction)
      (decimalValue ((whole ++ fraction).map digitValue) * 10 ^ (-fraction.length : Int)) := by
  have nothing : exponent? [] = some 0 := rfl
  have given := denotes_point nonempty wholeDigits fractionDigits (by simp) (by simp) nothing
  rwa [List.append_nil, Int.zero_sub] at given

/-- Digits without a point and an exponent. -/
theorem denotes_mark (nonempty : whole ≠ []) (wholeDigits : ∀ c ∈ whole, c.isDigit = true)
    (tailChars : ∀ c ∈ tail, c.isDigit = true ∨ c ∈ ['.', 'e', '+', '-'])
    (given : exponent? ('e' :: tail) = some exponent) :
    Denotes (whole ++ 'e' :: tail) (decimalValue (whole.map digitValue) * 10 ^ exponent) where
  first := head?_append_isDigit nonempty wholeDigits _
  chars c member := by
    simp only [List.mem_append, List.mem_cons] at member
    rcases member with digit | rfl | member
    · exact .inl (wholeDigits c digit)
    · exact .inr (by decide)
    · exact tailChars c member
  numeral negative := by
    refine ⟨whole.map digitValue, [], exponent, ?_, ?_⟩
    · rw [unsigned?_of_mark (areDigits_of_isDigit wholeDigits) nonempty (by decide), given]
      rfl
    · simp [Decimal.value]

/-- A numeral is read behind its sign. -/
theorem Denotes.ofChars? {s : List Char} {q : ℚ} (h : Denotes s q) (negative : Bool) :
    ∃ whole fraction exponent,
      ofChars? (if negative then '-' :: s else s) = some (float negative whole fraction exponent) ∧
      (Decimal.mk (decimalValue (whole ++ fraction)) (exponent - fraction.length)).value = q := by
  obtain ⟨whole, fraction, exponent, taken, value⟩ := h.numeral negative
  refine ⟨whole, fraction, exponent, ?_, value⟩
  cases negative with
  | false =>
    have first := fun c member => not_sign_of_digit (isDecimalDigit_of_isDigit (h.first c member))
    rw [Numeral.ofChars?, if_neg Bool.false_ne_true, splitSign_of_unsigned first]
    exact taken
  | true => exact taken

end Numeral

namespace Binary64

open Numeral

theorem isDigit_decimalDigits {n : Nat} : ∀ c ∈ decimalDigits n, c.isDigit = true := fun _ =>
  Number.isDigit_of_mem_toDigits

theorem decimalValue_decimalDigits (n : Nat) :
    decimalValue ((decimalDigits n).map digitValue) = n := by
  rw [decimalValue_map_digitValue isDigit_decimalDigits, decimalDigits,
    Nat.ofDigitChars_ten_toDigits]

theorem isDigit_exponentDigits {n : Nat} : ∀ c ∈ exponentDigits n, c.isDigit = true := by
  rw [exponentDigits]
  split
  · intro c member
    rcases List.mem_cons.1 member with rfl | member
    · decide
    · exact isDigit_decimalDigits c member
  · exact isDigit_decimalDigits

theorem exponentValue?_exponentDigits (n : Nat) : exponentValue? (exponentDigits n) = some n := by
  have all : (exponentDigits n).all isDecimalDigit = true := List.all_eq_true.2 fun c member =>
    isDecimalDigit_of_isDigit (isDigit_exponentDigits c member)
  have nonempty : (exponentDigits n).isEmpty = false := by
    rw [exponentDigits]
    split <;> simp [decimalDigits]
  have value : decimalValue ((exponentDigits n).map digitValue) = n := by
    rw [exponentDigits]
    split
    · have zero : decimalValue [digitValue '0'] = 0 := by decide
      rw [← List.singleton_append, List.map_append, decimalValue_append, List.map_singleton, zero,
        decimalValue_decimalDigits, Nat.zero_mul, Nat.zero_add]
    · exact decimalValue_decimalDigits n
  simp [exponentValue?, all, nonempty, value]

/-- The exponent that is written is read. -/
theorem exponent?_written (exponent : Int) :
    exponent? ('e' :: (if exponent < 0 then '-' else '+') :: exponentDigits exponent.natAbs) =
      some exponent := by
  have back := Number.signed_natAbs exponent
  by_cases negative : exponent < 0 <;>
    simp only [negative, decide_true, decide_false] at back <;>
    simp [exponent?, negative, splitSign, exponentValue?_exponentDigits, back]

variable {digits : List Char}

/-- Zeros denote nothing. -/
theorem decimalValue_zeros (count : Nat) :
    decimalValue ((List.replicate count '0').map digitValue) = 0 := by
  have zero : digitValue '0' = 0 := by decide
  rw [List.map_replicate, zero]
  induction count with
  | zero => rfl
  | succ count ih => rwa [List.replicate_succ]

theorem isDigit_zeros (count : Nat) : ∀ c ∈ List.replicate count '0', c.isDigit = true := by
  intro c member
  rw [List.eq_of_mem_replicate member]
  rfl

/-- Digits with the point behind so many of them denote what they count in units of their last
place. -/
theorem denotes_positional (nonempty : digits ≠ []) (h : ∀ c ∈ digits, c.isDigit = true)
    (point : Int) : Denotes (positional digits point)
      (decimalValue (digits.map digitValue) * 10 ^ (point - digits.length)) := by
  have append (s t : List Char) (hs : ∀ c ∈ s, c.isDigit = true) (ht : ∀ c ∈ t, c.isDigit = true) :
      ∀ c ∈ s ++ t, c.isDigit = true := fun c member =>
    (List.mem_append.1 member).elim (hs c) (ht c)
  rw [positional]
  split
  · -- zeros before and behind the point
    rename_i small
    have given := denotes_fraction (List.cons_ne_nil '0' []) (isDigit_zeros 1)
      (append _ _ (isDigit_zeros (-point).toNat) h)
    have value : decimalValue ((['0'] ++ (List.replicate (-point).toNat '0' ++ digits)).map
        digitValue) = decimalValue (digits.map digitValue) := by
      rw [← List.append_assoc, List.map_append, decimalValue_append]
      have zeros := decimalValue_zeros ((-point).toNat + 1)
      rw [List.replicate_succ] at zeros
      rw [List.singleton_append, zeros, Nat.zero_mul, Nat.zero_add]
    have place : -((List.replicate (-point).toNat '0' ++ digits).length : Int) =
        point - digits.length := by
      rw [List.length_append, List.length_replicate]
      omega
    rwa [value, place] at given
  · split
    · -- zeros between the digits and the point
      rename_i large
      have given := denotes_fraction (List.append_ne_nil_of_left_ne_nil nonempty _)
        (append _ _ h (isDigit_zeros (point.toNat - digits.length))) (isDigit_zeros 1)
      have value : decimalValue ((digits ++ List.replicate (point.toNat - digits.length) '0' ++
          List.replicate 1 '0').map digitValue) =
          decimalValue (digits.map digitValue) * 10 ^ (point.toNat - digits.length + 1) := by
        rw [List.append_assoc, List.replicate_append_replicate, List.map_append,
          decimalValue_append, decimalValue_zeros, List.length_map, List.length_replicate]
        rfl
      have place : (10 : ℚ) ^ (point - digits.length) =
          10 ^ (point.toNat - digits.length + 1) * 10 ^ (-1 : Int) := by
        rw [← zpow_natCast, ← zpow_add₀ (by norm_num)]
        congr 1
        omega
      rw [value] at given
      push_cast at given
      rw [place, ← mul_assoc]
      exact given
    · have before : ∀ c ∈ digits.take point.toNat, c.isDigit = true := fun c member =>
        h c (List.mem_of_mem_take member)
      have behind : ∀ c ∈ digits.drop point.toNat, c.isDigit = true := fun c member =>
        h c (List.mem_of_mem_drop member)
      have whole : digits.take point.toNat ≠ [] := fun empty =>
        (List.take_eq_nil_iff.1 empty).elim (by omega) nonempty
      have given := denotes_fraction whole before behind
      rw [List.take_append_drop, List.length_drop] at given
      convert given using 3
      omega

theorem denotes_scientific (nonempty : digits ≠ []) (h : ∀ c ∈ digits, c.isDigit = true)
    (exponent : Int) : Denotes (scientific digits exponent)
      (decimalValue (digits.map digitValue) * 10 ^ (exponent + 1 - digits.length)) := by
  have before : ∀ c ∈ digits.take 1, c.isDigit = true := fun c member =>
    h c (List.mem_of_mem_take member)
  have behind : ∀ c ∈ digits.drop 1, c.isDigit = true := fun c member =>
    h c (List.mem_of_mem_drop member)
  have whole : digits.take 1 ≠ [] := by simpa using nonempty
  have tail : ∀ c ∈ (if exponent < 0 then '-' else '+') :: exponentDigits exponent.natAbs,
      c.isDigit = true ∨ c ∈ ['.', 'e', '+', '-'] := by
    intro c member
    rcases List.mem_cons.1 member with rfl | member
    · split <;> exact .inr (by decide)
    · exact .inl (isDigit_exponentDigits c member)
  have given := exponent?_written exponent
  rw [scientific]
  split
  · rename_i single
    have one : digits.length = 1 := Nat.le_antisymm single (List.length_pos_iff.2 nonempty)
    have written := denotes_mark whole before tail given
    rw [List.take_of_length_le single] at written ⊢
    rwa [one, Nat.cast_one, Int.add_sub_cancel, List.append_nil]
  · have stops : ∀ c ∈ ('e' :: (if exponent < 0 then '-' else '+') ::
        exponentDigits exponent.natAbs).head?, isDecimalDigit c = false := by
      rintro _ ⟨⟩
      decide
    have written := denotes_point whole before behind stops
      (List.forall_mem_cons.2 ⟨.inr (by decide), tail⟩) given
    have place : exponent - (digits.length - 1 : Nat) = exponent + 1 - digits.length := by omega
    rw [List.take_append_drop, List.length_drop, place] at written
    rwa [List.append_assoc]

/-- What is laid out for a decimal denotes this decimal. -/
theorem denotes_layout (d : Decimal) : Denotes (layout d) d.value := by
  have nonempty : decimalDigits d.digits ≠ [] := Nat.toDigits_ne_nil
  have value := decimalValue_decimalDigits d.digits
  rw [layout]
  split
  · have given := denotes_positional nonempty isDigit_decimalDigits
      (d.exponent + (decimalDigits d.digits).length)
    rwa [value, Int.add_sub_cancel] at given
  · have given := denotes_scientific nonempty isDigit_decimalDigits
      (d.exponent + (decimalDigits d.digits).length - 1)
    rwa [value, Int.sub_add_cancel, Int.add_sub_cancel] at given

/-- The text of a finite float is a numeral behind its sign, of which the value is read as the
float. -/
theorem exists_denotes {x : Float} {negative : Bool} {significand : Nat} {exponent : Int}
    (h : ofFloat x = .finite negative significand exponent) :
    ∃ s q, (text x).toList = (if negative then '-' :: s else s) ∧ Denotes s q ∧
      ∀ d : Decimal, d.value = q → ofDecimal negative d.digits d.exponent = x := by
  by_cases zero : significand = 0
  · subst zero
    refine ⟨['0', '.', '0'], 0, by simp [text, h], ?_, fun d value => ofDecimal_zero h value⟩
    have value : decimalValue ((['0'] ++ List.replicate 1 '0').map digitValue) = 0 := by decide
    have written := denotes_fraction (List.cons_ne_nil '0' []) (isDigit_zeros 1) (isDigit_zeros 1)
    rwa [value, Nat.cast_zero, zero_mul] at written
  · have pos : 0 < significand := Nat.pos_of_ne_zero zero
    refine ⟨layout (shortest significand exponent), (shortest significand exponent).value,
      by simp [text, h, zero], denotes_layout _, fun d value => ?_⟩
    exact ofDecimal_of_contains pos h (value ▸ contains_shortest pos exponent)

/-- A finite float reads back. -/
theorem ofWord_text {x : Float} {negative : Bool} {significand : Nat} {exponent : Int}
    (h : ofFloat x = .finite negative significand exponent) :
    Datum.ofWord (text x) = .ok (.atom (.number (.float x))) := by
  obtain ⟨s, q, written, denotes, reads⟩ := exists_denotes h
  obtain ⟨whole, fraction, exponent, taken, value⟩ := denotes.ofChars? negative
  rw [Datum.ofWord_of_numeral (written ▸ taken), Numeral.value, reads _ value]
  rfl

/-- The characters of the text of a finite float are digits, signs, the point and the mark of an
exponent. -/
theorem mem_text {x : Float} {negative : Bool} {significand : Nat} {exponent : Int}
    (h : ofFloat x = .finite negative significand exponent) {c : Char}
    (member : c ∈ (text x).toList) : c.isDigit = true ∨ c ∈ ['.', 'e', '+', '-'] := by
  obtain ⟨s, q, written, denotes, -⟩ := exists_denotes h
  rw [written] at member
  split at member
  · rcases List.mem_cons.1 member with rfl | member
    · exact .inr (by decide)
    · exact denotes.chars c member
  · exact denotes.chars c member

end Binary64

end SmallLisp
