import Mathlib.Data.List.TakeWhile
import Mathlib.Tactic.Ring
import SmallLisp.Datum.Word

/-!
# The text of integers

An integer is written as its decimal digits behind a minus sign if it is negative. Main statements:
an integer that is short enough to be written reads back (`ofWord_toString`), and an integer that
has been read is short enough to be written (`isWritable_of_value`).
-/

namespace SmallLisp

namespace Text

theorem bounds_of_isDigit {c : Char} (h : c.isDigit = true) : 48 ≤ c.toNat ∧ c.toNat < 58 := by
  simp only [Char.isDigit, Bool.and_eq_true, decide_eq_true_eq] at h
  have low : 48 ≤ c.val.toNat := h.1
  have high : c.val.toNat ≤ 57 := h.2
  exact ⟨low, Nat.lt_succ_of_le high⟩

theorem digitValue?_of_isDigit {c : Char} (h : c.isDigit = true) :
    digitValue? c = some (c.toNat - 48) := by
  rw [digitValue?, digitZeros, List.find?_cons_of_pos (by simpa using bounds_of_isDigit h)]
  rfl

theorem isDecimalDigit_of_isDigit {c : Char} (h : c.isDigit = true) : isDecimalDigit c = true := by
  rw [isDecimalDigit, digitValue?_of_isDigit h]
  rfl

theorem digitValue_of_isDigit {c : Char} (h : c.isDigit = true) :
    digitValue c = c.toNat - 48 := by
  rw [digitValue, digitValue?_of_isDigit h]
  rfl

/-- ASCII digits denote the number that the standard library reads from them. -/
theorem decimalValue_map_digitValue {s : List Char} (h : ∀ c ∈ s, c.isDigit = true) :
    decimalValue (s.map digitValue) = Nat.ofDigitChars 10 s 0 := by
  rw [decimalValue, Nat.ofDigitChars_eq_foldl]
  generalize 0 = start
  induction s generalizing start with
  | nil => rfl
  | cons c s ih =>
    rw [List.map_cons, List.foldl_cons, List.foldl_cons, digitValue_of_isDigit (h c (by simp))]
    exact ih (fun d member => h d (List.mem_cons_of_mem c member)) _

/-- Further digits move those before them up. -/
theorem decimalValue_append (digits others : List Nat) : decimalValue (digits ++ others) =
    decimalValue digits * Nat.pow 10 others.length + decimalValue others := by
  have step (others : List Nat) : ∀ start, others.foldl (fun n d => 10 * n + d) start =
      start * Nat.pow 10 others.length + decimalValue others := by
    induction others with
    | nil => simp [decimalValue]
    | cons d others ih =>
      intro start
      rw [decimalValue, List.foldl_cons, List.foldl_cons, ih, ih (10 * 0 + d), List.length_cons,
        Nat.pow_eq, Nat.pow_eq, pow_succ]
      ring
  rw [decimalValue, List.foldl_append, step]
  rfl

/-- A row of digits denotes a number with at most as many digits. -/
theorem decimalValue_lt {digits : List Nat} (h : ∀ d ∈ digits, d < 10) :
    decimalValue digits < Nat.pow 10 digits.length := by
  induction digits with
  | nil => decide
  | cons d digits ih =>
    have first := h d (by simp)
    have rest := ih fun e member => h e (List.mem_cons_of_mem d member)
    have single : decimalValue [d] = d := by simp [decimalValue]
    rw [← List.singleton_append, decimalValue_append, single]
    calc d * Nat.pow 10 digits.length + decimalValue digits
        < (d + 1) * Nat.pow 10 digits.length := by rw [Nat.succ_mul]; omega
      _ ≤ 10 * Nat.pow 10 digits.length := Nat.mul_le_mul_right _ first
      _ = Nat.pow 10 (d :: digits).length := (Nat.mul_comm ..)

end Text

open Text

namespace Numeral

/-- Every character is a digit of some script. -/
def AreDigits (s : List Char) : Prop := ∀ c ∈ s, isDecimalDigit c = true

theorem areDigits_of_isDigit {s : List Char} (h : ∀ c ∈ s, c.isDigit = true) : AreDigits s :=
  fun c member => isDecimalDigit_of_isDigit (h c member)

/-- The digits that a text starts with end at the first other character. -/
theorem digits_append {s : List Char} (h : AreDigits s) (rest : List Char)
    (stops : ∀ c ∈ rest.head?, isDecimalDigit c = false) :
    leadingDigits (s ++ rest) = s.map digitValue ∧ afterDigits (s ++ rest) = rest := by
  rw [leadingDigits, afterDigits, List.takeWhile_append_of_pos h, List.dropWhile_append_of_pos h]
  cases rest with
  | nil => simp
  | cons c rest => simp [stops c rfl]

/-- An unsigned row of digits is an integer numeral. -/
theorem unsigned?_of_digits {s : List Char} (nonempty : s ≠ []) (h : AreDigits s)
    (negative : Bool) : unsigned? negative s = some (int negative (s.map digitValue)) := by
  obtain ⟨whole, nothing⟩ := digits_append h [] nofun
  rw [List.append_nil] at whole nothing
  simp [unsigned?, whole, nothing, nonempty]

theorem not_sign_of_digit {c : Char} (h : isDecimalDigit c = true) : c ≠ '+' ∧ c ≠ '-' := by
  constructor <;> rintro rfl <;> revert h <;> decide

theorem AreDigits.unsigned {s : List Char} (h : AreDigits s) :
    ∀ c ∈ s.head?, c ≠ '+' ∧ c ≠ '-' := fun c member =>
  not_sign_of_digit (h c (List.mem_of_mem_head? member))

/-- A text that does not start with a sign is left whole. -/
theorem splitSign_of_unsigned {s : List Char} (first : ∀ c ∈ s.head?, c ≠ '+' ∧ c ≠ '-') :
    splitSign s = (false, s) := by
  unfold splitSign
  split
  · exact absurd rfl (first '+' rfl).1
  · exact absurd rfl (first '-' rfl).2
  · rfl

theorem digits_lt_of_ofChars? {s : List Char} {negative : Bool} {digits : List Nat}
    (h : ofChars? s = some (int negative digits)) : ∀ d ∈ digits, d < 10 := by
  have leading : ∀ r : List Char, ∀ d ∈ leadingDigits r, d < 10 := by
    intro r d member
    obtain ⟨c, -, rfl⟩ := List.mem_map.1 member
    exact digitValue_lt c
  unfold ofChars? unsigned? at h
  generalize splitSign s = signed at h
  obtain ⟨sign, rest⟩ := signed
  simp only at h
  split at h
  · split at h <;> cases h
    exact leading rest
  · split at h
    · cases h
    · obtain ⟨_, -, eq⟩ := Option.map_eq_some_iff.1 h
      cases eq
  · split at h
    · cases h
    · obtain ⟨_, -, eq⟩ := Option.map_eq_some_iff.1 h
      cases eq

/-- An integer that has been read is short enough to be written. -/
theorem isWritable_of_value {s : List Char} {numeral : Numeral} {n : Int}
    (h : ofChars? s = some numeral) (value : numeral.value = .ok (.int n)) :
    Number.isWritable n = true := by
  cases numeral with
  | float => cases value
  | int negative digits =>
    rw [Numeral.value] at value
    split at value
    · cases value
    · rename_i short
      cases value
      have magnitude : (signed negative (decimalValue digits)).natAbs = decimalValue digits := by
        cases negative <;> simp [signed]
      rw [Number.isWritable, decide_eq_true_eq, magnitude]
      have within := decimalValue_lt (digits_lt_of_ofChars? h)
      generalize Error.digitLimit = limit at short ⊢
      exact Nat.lt_of_lt_of_le within (Nat.pow_le_pow_right (by decide) (Nat.le_of_not_lt short))

end Numeral

namespace Number

/-- The digits of an integer, behind its sign. -/
theorem toList_toString (n : Int) :
    (toString n).toList = (if n < 0 then ['-'] else []) ++ Nat.toDigits 10 n.natAbs := by
  cases n with
  | ofNat n => simp [toString, Int.repr]
  | negSucc n =>
    simp [toString, Int.repr]

theorem isDigit_of_mem_toDigits {n : Nat} {c : Char} (h : c ∈ Nat.toDigits 10 n) :
    c.isDigit = true :=
  Nat.isDigit_of_mem_toDigits (by decide) (by decide) h

/-- The text of an integer taken apart gives its sign and the digits of its magnitude. -/
theorem ofChars?_toString (n : Int) :
    Numeral.ofChars? (toString n).toList =
      some (.int (decide (n < 0)) ((Nat.toDigits 10 n.natAbs).map digitValue)) := by
  have digits : Numeral.AreDigits (Nat.toDigits 10 n.natAbs) :=
    Numeral.areDigits_of_isDigit fun c => isDigit_of_mem_toDigits
  rw [toList_toString, Numeral.ofChars?]
  by_cases negative : n < 0
  · simp only [if_pos negative, List.singleton_append, Numeral.splitSign, decide_eq_true negative]
    exact Numeral.unsigned?_of_digits Nat.toDigits_ne_nil digits true
  · simp only [if_neg negative, List.nil_append, decide_eq_false negative,
      Numeral.splitSign_of_unsigned digits.unsigned]
    exact Numeral.unsigned?_of_digits Nat.toDigits_ne_nil digits false

theorem signed_natAbs (n : Int) : Numeral.signed (decide (n < 0)) n.natAbs = n := by
  by_cases negative : n < 0
  · rw [decide_eq_true negative]
    show -(n.natAbs : Int) = n
    rw [Int.ofNat_natAbs_of_nonpos (Int.le_of_lt negative), Int.neg_neg]
  · rw [decide_eq_false negative]
    exact Int.natAbs_of_nonneg (Int.not_lt.1 negative)

theorem isWritable_of_lt_ten {n : Int} (h : n.natAbs < 10) : isWritable n = true := by
  have within (limit : Nat) (pos : 0 < limit) : n.natAbs < Nat.pow 10 limit := by
    have first : 10 ^ 1 ≤ 10 ^ limit := Nat.pow_le_pow_right (by decide) pos
    exact Nat.lt_of_lt_of_le h first
  exact decide_eq_true (within Error.digitLimit (by decide))

theorem length_toDigits_le {n limit : Nat} (h : n < Nat.pow 10 limit) (pos : 0 < limit) :
    (Nat.toDigits 10 n).length ≤ limit :=
  (Nat.length_toDigits_le_iff (by decide) pos).2 h

/-- The text of an integer that is short enough to be written denotes that integer. -/
theorem value_toString {n : Int} (h : isWritable n = true) :
    (Numeral.int (decide (n < 0)) ((Nat.toDigits 10 n.natAbs).map digitValue)).value =
      .ok (.int n) := by
  have short : (Nat.toDigits 10 n.natAbs).length ≤ Error.digitLimit :=
    length_toDigits_le (of_decide_eq_true h) (by decide)
  have magnitude : decimalValue ((Nat.toDigits 10 n.natAbs).map digitValue) = n.natAbs := by
    rw [decimalValue_map_digitValue fun c => isDigit_of_mem_toDigits, Nat.ofDigitChars_ten_toDigits]
  rw [Numeral.value, List.length_map, if_neg (Nat.not_lt.2 short), magnitude, signed_natAbs]

/-- The characters of the text of an integer are digits and the minus sign. -/
theorem mem_toString {n : Int} {c : Char} (h : c ∈ (toString n).toList) :
    c.isDigit = true ∨ c = '-' := by
  rw [toList_toString, List.mem_append] at h
  rcases h with sign | digit
  · split at sign
    · exact .inr (List.mem_singleton.1 sign)
    · cases sign
  · exact .inl (isDigit_of_mem_toDigits digit)

theorem toString_ne_empty (n : Int) : (toString n).toList ≠ [] := by
  rw [toList_toString]
  simp

end Number

namespace Datum

/-- A numeral is none of the constants, so it is read as a number. -/
theorem ofWord_of_numeral {word : String} {numeral : Numeral}
    (h : Numeral.ofChars? word.toList = some numeral) :
    ofWord word = numeral.value.map fun n => atom (.number n) := by
  have differs (constant : String) (none : Numeral.ofChars? constant.toList = none) :
      word ≠ constant := by
    rintro rfl
    rw [none] at h
    cases h
  simp [ofWord, differs "nil" (by decide), differs "#t" (by decide), differs "#f" (by decide), h]

/-- An integer that is short enough to be written reads back. -/
theorem ofWord_toString {n : Int} (h : Number.isWritable n = true) :
    ofWord (toString n) = .ok (atom (.number (.int n))) := by
  rw [ofWord_of_numeral (Number.ofChars?_toString n), Number.value_toString h]
  rfl

end Datum

end SmallLisp
