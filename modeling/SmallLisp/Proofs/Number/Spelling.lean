import Mathlib.Data.List.Basic
import Mathlib.Data.Nat.Digits.Defs
import SmallLisp.Proofs.Number.IntegerText

/-!
# The spelling of numerals

The grammar of the words that denote numbers, with digits of any script. An integer is an optional
sign and digits. A float is an optional sign, a mantissa and an optional exponent, where the
mantissa is digits, digits with a point and optional further digits, or a point with digits. A row
of digits fits both, and counts as an integer. Main statement: taking a word apart gives the parts
of its spelling (`ofChars?_eq_some_iff`).
-/

namespace SmallLisp

open Text

namespace Numeral

/-- An optional sign, and whether it is a minus. -/
inductive SignSpelling : List Char → Bool → Prop
  | absent : SignSpelling [] false
  | plus : SignSpelling ['+'] false
  | minus : SignSpelling ['-'] true

/-- A mantissa, with its digits before and behind the point. -/
inductive MantissaSpelling : List Char → List Char → List Char → Prop
  | digits {whole : List Char} : whole ≠ [] → AreDigits whole → MantissaSpelling whole whole []
  | point {whole fraction : List Char} : whole ≠ [] → AreDigits whole → AreDigits fraction →
    MantissaSpelling (whole ++ '.' :: fraction) whole fraction
  | leadingPoint {fraction : List Char} : fraction ≠ [] → AreDigits fraction →
    MantissaSpelling ('.' :: fraction) [] fraction

/-- An optional exponent, with its value. -/
inductive ExponentSpelling : List Char → Int → Prop
  | absent : ExponentSpelling [] 0
  | marked {mark : Char} {sign digits : List Char} {negative : Bool} : mark = 'e' ∨ mark = 'E' →
    SignSpelling sign negative → digits ≠ [] → AreDigits digits →
    ExponentSpelling (mark :: (sign ++ digits))
      (signed negative (Nat.ofDigits 10 (digits.map digitValue).reverse))

/-- A numeral behind its sign. -/
inductive UnsignedSpelling (negative : Bool) : List Char → Numeral → Prop
  | int {digits : List Char} : digits ≠ [] → AreDigits digits →
    UnsignedSpelling negative digits (int negative (digits.map digitValue))
  | float {mantissa whole fraction tail : List Char} {exponent : Int} :
    MantissaSpelling mantissa whole fraction → ExponentSpelling tail exponent →
    UnsignedSpelling negative (mantissa ++ tail)
      (float negative (whole.map digitValue) (fraction.map digitValue) exponent)

/-- The words that denote numbers, with the parts of the numeral. -/
inductive Spelling : List Char → Numeral → Prop
  | signed {sign body : List Char} {negative : Bool} {numeral : Numeral} :
    SignSpelling sign negative → UnsignedSpelling negative body numeral →
    Spelling (sign ++ body) numeral

/-! ### Signs and digits -/

theorem splitSign_append {sign s : List Char} {negative : Bool} (h : SignSpelling sign negative)
    (unsigned : ∀ c ∈ s.head?, c ≠ '+' ∧ c ≠ '-') : splitSign (sign ++ s) = (negative, s) := by
  cases h with
  | absent => exact splitSign_of_unsigned unsigned
  | plus | minus => rfl

theorem exists_sign (s : List Char) :
    ∃ sign, SignSpelling sign (splitSign s).1 ∧ s = sign ++ (splitSign s).2 := by
  unfold splitSign
  split
  · exact ⟨['+'], .plus, rfl⟩
  · exact ⟨['-'], .minus, rfl⟩
  · exact ⟨[], .absent, rfl⟩

/-- A text is the digits that it starts with and what follows them. -/
theorem exists_leading (s : List Char) : ∃ digits, AreDigits digits ∧
    s = digits ++ afterDigits s ∧ leadingDigits s = digits.map digitValue :=
  ⟨s.takeWhile isDecimalDigit, fun _ member => List.mem_takeWhile_imp member,
    List.takeWhile_append_dropWhile.symm, rfl⟩

/-- The value of a row of digits, the last of them the units. -/
theorem decimalValue_eq_ofDigits (digits : List Nat) :
    decimalValue digits = Nat.ofDigits 10 digits.reverse := by
  rw [decimalValue, Nat.ofDigits_eq_foldr, List.foldr_reverse]
  congr 1
  funext n d
  exact Nat.add_comm ..

/-! ### Exponents -/

theorem exponentValue?_eq_some_iff {s : List Char} {magnitude : Nat} :
    exponentValue? s = some magnitude ↔
      s ≠ [] ∧ AreDigits s ∧ magnitude = Nat.ofDigits 10 (s.map digitValue).reverse := by
  rw [← decimalValue_eq_ofDigits, exponentValue?, AreDigits, ← List.all_eq_true]
  cases s with
  | nil => simp
  | cons c s => cases (c :: s).all isDecimalDigit <;> simp [eq_comm]

theorem exponent?_of_mark {mark : Char} (h : mark = 'e' ∨ mark = 'E') (rest : List Char) :
    exponent? (mark :: rest) =
      (exponentValue? (splitSign rest).2).map (signed (splitSign rest).1 ·) := by
  rcases h with rfl | rfl <;> rfl

theorem exponent?_eq_some_iff {s : List Char} {exponent : Int} :
    exponent? s = some exponent ↔ ExponentSpelling s exponent := by
  constructor
  · intro h
    cases s with
    | nil =>
      cases h
      exact .absent
    | cons mark rest =>
      by_cases marked : mark = 'e' ∨ mark = 'E'
      · rw [exponent?_of_mark marked] at h
        obtain ⟨magnitude, value, rfl⟩ := Option.map_eq_some_iff.1 h
        obtain ⟨nonempty, digits, rfl⟩ := exponentValue?_eq_some_iff.1 value
        obtain ⟨sign, spelled, parts⟩ := exists_sign rest
        have whole := ExponentSpelling.marked marked spelled nonempty digits
        rwa [← parts] at whole
      · simp [exponent?, not_or.1 marked] at h
  · intro h
    cases h with
    | absent => rfl
    | marked mark sign nonempty digits =>
      rw [exponent?_of_mark mark, splitSign_append sign digits.unsigned,
        exponentValue?_eq_some_iff.2 ⟨nonempty, digits, rfl⟩]
      rfl

/-- An exponent starts with its mark, which is no digit and no point. -/
theorem ExponentSpelling.head {s : List Char} {exponent : Int} (h : ExponentSpelling s exponent) :
    ∀ c ∈ s.head?, isDecimalDigit c = false ∧ c ≠ '.' := by
  cases h with
  | absent => nofun
  | marked mark =>
    rintro _ ⟨⟩
    rcases mark with rfl | rfl <;> decide

/-! ### Mantissas -/

/-- A point with digits on one side of it. -/
theorem unsigned?_of_point {whole fraction tail : List Char} (wholeDigits : AreDigits whole)
    (fractionDigits : AreDigits fraction) (nonempty : whole ≠ [] ∨ fraction ≠ [])
    (stops : ∀ c ∈ tail.head?, isDecimalDigit c = false) (negative : Bool) :
    unsigned? negative (whole ++ '.' :: (fraction ++ tail)) = (exponent? tail).map
      (float negative (whole.map digitValue) (fraction.map digitValue)) := by
  have point : isDecimalDigit '.' = false := by decide
  obtain ⟨before, rest⟩ := digits_append wholeDigits ('.' :: (fraction ++ tail))
    (by rintro _ ⟨⟩; exact point)
  obtain ⟨behind, last⟩ := digits_append fractionDigits tail stops
  have given : ¬ (whole = [] ∧ fraction = []) := by tauto
  simp [unsigned?, before, rest, behind, last, given]

/-- Digits without a point before an exponent. -/
theorem unsigned?_of_mark {whole tail : List Char} {mark : Char} (wholeDigits : AreDigits whole)
    (nonempty : whole ≠ []) (stops : isDecimalDigit mark = false ∧ mark ≠ '.') (negative : Bool) :
    unsigned? negative (whole ++ mark :: tail) =
      (exponent? (mark :: tail)).map (float negative (whole.map digitValue) []) := by
  obtain ⟨before, rest⟩ := digits_append wholeDigits (mark :: tail)
    (by rintro _ ⟨⟩; exact stops.1)
  simp [unsigned?, before, rest, nonempty, stops.2]

/-! ### Numerals -/

/-- A numeral starts with a digit or a point. -/
theorem UnsignedSpelling.unsigned {s : List Char} {numeral : Numeral} {negative : Bool}
    (h : UnsignedSpelling negative s numeral) : ∀ c ∈ s.head?, c ≠ '+' ∧ c ≠ '-' := by
  cases h with
  | int nonempty digits => exact digits.unsigned
  | float mantissa exponent =>
    cases mantissa with
    | digits nonempty digits =>
      rw [List.head?_append_of_ne_nil _ nonempty]
      exact digits.unsigned
    | point nonempty digits _ =>
      rw [List.append_assoc, List.head?_append_of_ne_nil _ nonempty]
      exact digits.unsigned
    | leadingPoint =>
      rintro _ ⟨⟩
      decide

/-- What is taken apart has been spelled. -/
theorem unsignedSpelling_of_unsigned? {s : List Char} {numeral : Numeral} {negative : Bool}
    (h : unsigned? negative s = some numeral) : UnsignedSpelling negative s numeral := by
  obtain ⟨whole, wholeDigits, parts, leading⟩ := exists_leading s
  rw [unsigned?, leading] at h
  rw [parts]
  split at h
  · rename_i after
    simp only [List.isEmpty_iff, List.map_eq_nil_iff, Option.ite_none_left_eq_some,
      Option.some.injEq] at h
    obtain ⟨nonempty, rfl⟩ := h
    rw [after, List.append_nil]
    exact .int nonempty wholeDigits
  · rename_i rest after
    obtain ⟨fraction, fractionDigits, behind, trailing⟩ := exists_leading rest
    simp only [trailing, Bool.and_eq_true, List.isEmpty_iff, List.map_eq_nil_iff,
      Option.ite_none_left_eq_some, Option.map_eq_some_iff] at h
    obtain ⟨nonempty, exponent, given, rfl⟩ := h
    have mantissa : MantissaSpelling (whole ++ '.' :: fraction) whole fraction := by
      by_cases before : whole = []
      · subst before
        exact .leadingPoint (by simpa using nonempty) fractionDigits
      · exact .point before wholeDigits fractionDigits
    rw [after, behind, ← List.cons_append, ← List.append_assoc]
    exact .float mantissa (exponent?_eq_some_iff.1 given)
  · simp only [List.isEmpty_iff, List.map_eq_nil_iff, Option.ite_none_left_eq_some,
      Option.map_eq_some_iff] at h
    obtain ⟨nonempty, exponent, given, rfl⟩ := h
    exact .float (.digits nonempty wholeDigits) (exponent?_eq_some_iff.1 given)

theorem ofChars?_append {sign body : List Char} {negative : Bool}
    (h : SignSpelling sign negative) (unsigned : ∀ c ∈ body.head?, c ≠ '+' ∧ c ≠ '-') :
    ofChars? (sign ++ body) = unsigned? negative body := by
  rw [ofChars?, splitSign_append h unsigned]

theorem ofChars?_of_int {s : List Char} {negative : Bool} {digits : List Nat}
    (h : Spelling s (int negative digits)) : ofChars? s = some (int negative digits) := by
  cases h with
  | signed sign spelled =>
    rw [ofChars?_append sign spelled.unsigned]
    cases spelled with
    | int nonempty digits => exact unsigned?_of_digits nonempty digits _

/-- A numeral that is spelled is taken apart again, unless it is a mere row of digits, which is
taken as an integer. -/
theorem UnsignedSpelling.taken {s : List Char} {numeral : Numeral} {negative : Bool}
    (h : UnsignedSpelling negative s numeral) : unsigned? negative s = some numeral ∨
      ∃ digits, UnsignedSpelling negative s (.int negative digits) := by
  cases h with
  | int nonempty digits => exact .inl (unsigned?_of_digits nonempty digits negative)
  | float mantissa exponent =>
    have given := exponent?_eq_some_iff.2 exponent
    have stops := exponent.head
    cases mantissa with
    | digits nonempty digits =>
      rename_i tail _
      cases tail with
      | nil =>
        rw [List.append_nil]
        exact .inr ⟨_, .int nonempty digits⟩
      | cons mark tail =>
        left
        rw [unsigned?_of_mark digits nonempty (stops mark rfl), given]
        rfl
    | point nonempty wholeDigits fractionDigits =>
      left
      rw [List.append_assoc, List.cons_append, unsigned?_of_point wholeDigits fractionDigits
        (.inl nonempty) fun c member => (stops c member).1, given]
      rfl
    | leadingPoint nonempty digits =>
      left
      have none : AreDigits [] := nofun
      have taken := unsigned?_of_point none digits (.inr nonempty)
        (fun c member => (stops c member).1) negative
      rw [given] at taken
      exact taken

/-- Taking a text apart gives the parts of its spelling, those of an integer if there are two. -/
theorem ofChars?_eq_some_iff {s : List Char} {numeral : Numeral} :
    ofChars? s = some numeral ↔ Spelling s numeral ∧
      ∀ negative digits, Spelling s (int negative digits) → numeral = int negative digits := by
  constructor
  · intro h
    refine ⟨?_, fun negative digits spelled => ?_⟩
    · obtain ⟨sign, spelled, parts⟩ := exists_sign s
      rw [parts]
      exact .signed spelled (unsignedSpelling_of_unsigned? h)
    · rw [ofChars?_of_int spelled] at h
      cases h
      rfl
  · rintro ⟨spelled, precedence⟩
    cases spelled with
    | signed sign spelled =>
      rcases spelled.taken with taken | ⟨digits, digitsOnly⟩
      · rwa [ofChars?_append sign spelled.unsigned]
      · have int := Spelling.signed sign digitsOnly
        rw [precedence _ _ int, ofChars?_of_int int]

theorem ofChars?_eq_int_iff {s : List Char} {negative : Bool} {digits : List Nat} :
    ofChars? s = some (int negative digits) ↔ Spelling s (int negative digits) :=
  ⟨fun h => (ofChars?_eq_some_iff.1 h).1, ofChars?_of_int⟩

theorem ofChars?_eq_float_iff {s : List Char} {negative : Bool} {whole fraction : List Nat}
    {exponent : Int} : ofChars? s = some (float negative whole fraction exponent) ↔
      Spelling s (float negative whole fraction exponent) ∧
        ∀ negative digits, ¬ Spelling s (int negative digits) := by
  rw [ofChars?_eq_some_iff]
  refine and_congr_right fun _ => ⟨fun h negative digits int => ?_, fun h _ _ int => ?_⟩
  · cases h negative digits int
  · exact absurd int (h _ _)

theorem ofChars?_eq_none_iff {s : List Char} :
    ofChars? s = none ↔ ∀ numeral, ¬ Spelling s numeral := by
  constructor
  · intro h numeral spelled
    have noInt negative digits : ¬ Spelling s (int negative digits) := by
      rw [← ofChars?_eq_int_iff, h]
      nofun
    rw [ofChars?_eq_some_iff.2 ⟨spelled, fun _ _ int => absurd int (noInt _ _)⟩] at h
    cases h
  · intro h
    cases taken : ofChars? s with
    | none => rfl
    | some numeral => exact absurd (ofChars?_eq_some_iff.1 taken).1 (h numeral)

/-! ### Values -/

theorem value_eq_int_iff {numeral : Numeral} {n : Int} : numeral.value = .ok (.int n) ↔
    ∃ negative digits, numeral = int negative digits ∧ digits.length ≤ Error.digitLimit ∧
      n = signed negative (Nat.ofDigits 10 digits.reverse) := by
  cases numeral with
  | float => simp [value]
  | int negative digits =>
    rw [value, decimalValue_eq_ofDigits]
    by_cases short : digits.length ≤ Error.digitLimit
    · simp [short, Nat.not_lt.2 short, eq_comm]
    · simp [short, Nat.not_le.1 short]

theorem value_eq_error_iff {numeral : Numeral} {e : Error} : numeral.value = .error e ↔
    ∃ negative digits, numeral = int negative digits ∧ Error.digitLimit < digits.length ∧
      e = .tooLongToRead digits.length := by
  cases numeral with
  | float => simp [value]
  | int negative digits =>
    simp only [value]
    split <;> simp [*, eq_comm]

theorem value_eq_float_iff {numeral : Numeral} {x : Float} : numeral.value = .ok (.float x) ↔
    ∃ negative whole fraction exponent, numeral = float negative whole fraction exponent ∧
      x = Binary64.ofDecimal negative (Nat.ofDigits 10 (whole ++ fraction).reverse)
        (exponent - fraction.length) := by
  cases numeral with
  | float => simp [value, decimalValue_eq_ofDigits, eq_comm]
  | int negative digits =>
    simp only [value]
    split <;> simp

end Numeral

end SmallLisp
