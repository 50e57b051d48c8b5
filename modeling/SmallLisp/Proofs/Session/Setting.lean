import SmallLisp.Proofs.Number.Spelling
import SmallLisp.Proofs.Reader.Words
import SmallLisp.Settings

/-!
# Integers in settings

A setting may group the digits of an integer by underscores, one between any two groups, and may
have white space around it. Otherwise integers are written as the reader takes them. Main
statements: reading the text of a setting gives the integer that it spells (`integer?_eq_some_iff`),
the three ways that a setting for a positive integer can go (`positive_cases`), and that settings
and the reader agree on the words that both take for integers (`integer?_eq_some_iff_ofWord`).
-/

namespace SmallLisp

open Text

/-! ### Digits and other characters -/

namespace Text

theorem digitValue?_of_isDecimalDigit {c : Char} (h : isDecimalDigit c = true) :
    digitValue? c = some (digitValue c) := by
  obtain ⟨d, value⟩ := Option.isSome_iff_exists.1 h
  rw [digitValue, value]
  rfl

theorem ne_underscore_of_isDecimalDigit {c : Char} (h : isDecimalDigit c = true) : c ≠ '_' := by
  rintro rfl
  revert h
  decide

theorem isBlank_of_isDecimalDigit {c : Char} (h : isDecimalDigit c = true) : isBlank c = false := by
  have apart : ∀ start ∈ digitZeros, ∀ range ∈ blankRanges,
      start + 10 ≤ range.1 ∨ range.2 < start := by decide
  obtain ⟨d, value⟩ := Option.isSome_iff_exists.1 h
  obtain ⟨start, found, -⟩ := Option.map_eq_some_iff.1 value
  have within := List.find?_some found
  rw [Bool.and_eq_true, decide_eq_true_eq, decide_eq_true_eq] at within
  rw [isBlank, Bool.eq_false_iff]
  intro blank
  obtain ⟨range, member, bounds⟩ := CodeRanges.contains_iff.1 blank
  have := apart start (List.mem_of_find?_eq_some found) range member
  omega

end Text

namespace Settings

open Numeral (SignSpelling AreDigits Spelling)

/-! ### Groups of digits -/

/-- Digits in groups, with single underscores between them, and the digits alone. -/
inductive Grouped : List Char → List Char → Prop
  | group {digits : List Char} : digits ≠ [] → AreDigits digits → Grouped digits digits
  | underscore {group s digits : List Char} : group ≠ [] → AreDigits group → Grouped s digits →
    Grouped (group ++ '_' :: s) (group ++ digits)

theorem Grouped.cons {s digits : List Char} (h : Grouped s digits) {c : Char}
    (digit : isDecimalDigit c = true) : Grouped (c :: s) (c :: digits) := by
  cases h with
  | group _ others => exact .group (List.cons_ne_nil _ _) (List.forall_mem_cons.2 ⟨digit, others⟩)
  | underscore _ others rest =>
    exact .underscore (List.cons_ne_nil _ _) (List.forall_mem_cons.2 ⟨digit, others⟩) rest

/-- Groups of digits start with a digit, and not with a sign. -/
theorem Grouped.unsigned {s digits : List Char} (h : Grouped s digits) :
    ∀ c ∈ s.head?, c ≠ '+' ∧ c ≠ '-' := by
  cases h with
  | group _ others => exact others.unsigned
  | underscore nonempty others =>
    rw [List.head?_append_of_ne_nil _ nonempty]
    exact others.unsigned

theorem groupedDigits?_singleton {c : Char} (h : isDecimalDigit c = true) :
    groupedDigits? [c] = some [digitValue c] := by
  rw [groupedDigits?, digitValue?_of_isDecimalDigit h]
  rfl

theorem groupedDigits?_underscore {c : Char} (h : isDecimalDigit c = true) (s : List Char) :
    groupedDigits? (c :: '_' :: s) = (groupedDigits? s).map (digitValue c :: ·) := by
  rw [groupedDigits?, digitValue?_of_isDecimalDigit h]
  cases groupedDigits? s <;> rfl

theorem groupedDigits?_cons {c d : Char} (h : isDecimalDigit c = true) (other : d ≠ '_')
    (s : List Char) :
    groupedDigits? (c :: d :: s) = (groupedDigits? (d :: s)).map (digitValue c :: ·) := by
  rw [groupedDigits?, digitValue?_of_isDecimalDigit h]
  · cases groupedDigits? (d :: s) <;> rfl
  · simp
  · rintro _ ⟨⟩
    exact other rfl

theorem groupedDigits?_of_digits {digits : List Char} (nonempty : digits ≠ [])
    (h : AreDigits digits) : groupedDigits? digits = some (digits.map digitValue) := by
  induction digits with
  | nil => exact absurd rfl nonempty
  | cons c digits ih =>
    obtain ⟨digit, others⟩ := List.forall_mem_cons.1 h
    cases digits with
    | nil => exact groupedDigits?_singleton digit
    | cons d digits =>
      have next := ne_underscore_of_isDecimalDigit (others d (by simp))
      rw [groupedDigits?_cons digit next, ih (List.cons_ne_nil d digits) others]
      rfl

theorem groupedDigits?_append {group : List Char} (nonempty : group ≠ []) (h : AreDigits group)
    (s : List Char) : groupedDigits? (group ++ '_' :: s) =
      (groupedDigits? s).map (group.map digitValue ++ ·) := by
  induction group with
  | nil => exact absurd rfl nonempty
  | cons c group ih =>
    obtain ⟨digit, others⟩ := List.forall_mem_cons.1 h
    cases group with
    | nil => exact groupedDigits?_underscore digit s
    | cons d group =>
      have next := ne_underscore_of_isDecimalDigit (others d (by simp))
      rw [List.cons_append, List.cons_append, groupedDigits?_cons digit next, ← List.cons_append,
        ih (List.cons_ne_nil d group) others, Option.map_map]
      rfl

theorem Grouped.values {s digits : List Char} (h : Grouped s digits) :
    groupedDigits? s = some (digits.map digitValue) := by
  induction h with
  | group nonempty digits => exact groupedDigits?_of_digits nonempty digits
  | underscore nonempty digits _ ih =>
    rw [groupedDigits?_append nonempty digits, ih, Option.map_some, List.map_append]

theorem isDecimalDigit_of_groupedDigits? {c : Char} {s : List Char} {values : List Nat}
    (h : groupedDigits? (c :: s) = some values) : isDecimalDigit c = true := by
  rw [isDecimalDigit, Option.isSome_iff_ne_none]
  intro none
  unfold groupedDigits? at h
  split at h <;> simp_all

theorem exists_grouped {s : List Char} {values : List Nat} (h : groupedDigits? s = some values) :
    ∃ digits, Grouped s digits ∧ values = digits.map digitValue := by
  induction s using groupedDigits?.induct generalizing values with
  | case1 => cases h
  | case2 c =>
    have digit := isDecimalDigit_of_groupedDigits? h
    rw [groupedDigits?_singleton digit] at h
    cases h
    exact ⟨[c], .group (List.cons_ne_nil c []) (by simpa [AreDigits] using digit), rfl⟩
  | case3 c rest ih =>
    have digit := isDecimalDigit_of_groupedDigits? h
    rw [groupedDigits?_underscore digit] at h
    obtain ⟨values, given, rfl⟩ := Option.map_eq_some_iff.1 h
    obtain ⟨digits, grouped, rfl⟩ := ih given
    exact ⟨c :: digits, .underscore (List.cons_ne_nil c []) (by simpa [AreDigits] using digit)
      grouped, rfl⟩
  | case4 c rest nonempty ungrouped ih =>
    have digit := isDecimalDigit_of_groupedDigits? h
    cases rest with
    | nil => exact absurd rfl nonempty
    | cons d rest =>
      have next : d ≠ '_' := fun same => ungrouped rest (by rw [same])
      rw [groupedDigits?_cons digit next] at h
      obtain ⟨values, given, rfl⟩ := Option.map_eq_some_iff.1 h
      obtain ⟨digits, grouped, rfl⟩ := ih given
      exact ⟨c :: digits, grouped.cons digit, rfl⟩

/-! ### Integers -/

/-- The texts of integers in settings: an optional sign and at most 4300 digits in groups. -/
inductive IntegerSpelling : List Char → Int → Prop
  | signed {sign body digits : List Char} {negative : Bool} : SignSpelling sign negative →
    Grouped body digits → digits.length ≤ 4300 → IntegerSpelling (sign ++ body)
      (Numeral.signed negative (Nat.ofDigits 10 (digits.map digitValue).reverse))

theorem integer?_eq (s : List Char) : integer? s =
    (groupedDigits? (Numeral.splitSign s).2).bind fun digits =>
      if 4300 < digits.length then none
      else some (Numeral.signed (Numeral.splitSign s).1 (decimalValue digits)) := rfl

/-- Reading the text of a setting gives the integer that it spells. -/
theorem integer?_eq_some_iff {s : List Char} {n : Int} :
    integer? s = some n ↔ IntegerSpelling s n := by
  constructor
  · intro h
    rw [integer?_eq] at h
    obtain ⟨values, given, h⟩ := Option.bind_eq_some_iff.1 h
    obtain ⟨digits, grouped, rfl⟩ := exists_grouped given
    rw [Option.ite_none_left_eq_some, List.length_map, Numeral.decimalValue_eq_ofDigits] at h
    obtain ⟨short, same⟩ := h
    cases same
    obtain ⟨sign, spelled, parts⟩ := Numeral.exists_sign s
    have whole := IntegerSpelling.signed spelled grouped (Nat.not_lt.1 short)
    rwa [← parts] at whole
  · rintro ⟨sign, grouped, short⟩
    rw [integer?_eq, Numeral.splitSign_append sign grouped.unsigned, grouped.values,
      Option.bind_some, List.length_map, if_neg (Nat.not_lt.2 short),
      Numeral.decimalValue_eq_ofDigits]

theorem not_integerSpelling_nil (n : Int) : ¬ IntegerSpelling [] n := by
  rw [← integer?_eq_some_iff]
  nofun

/-- The setting asks for a positive number. -/
def Asks (raw : Option String) (n : Nat) : Prop := 0 < n ∧ IntegerSpelling (content raw) n

theorem Asks.unique {raw : Option String} {n n' : Nat} (h : Asks raw n) (h' : Asks raw n') :
    n = n' := by
  have first := integer?_eq_some_iff.2 h.2
  rw [integer?_eq_some_iff.2 h'.2] at first
  simpa using first.symm

theorem Asks.content_ne_nil {raw : Option String} {n : Nat} (h : Asks raw n) :
    content raw ≠ [] := by
  intro empty
  exact not_integerSpelling_nil n (empty ▸ h.2)

/-- The setting has a text, and this does not ask for a positive number. -/
def Invalid (raw : Option String) : Prop := content raw ≠ [] ∧ ∀ n, ¬ Asks raw n

theorem Asks.not_invalid {raw : Option String} {n : Nat} (h : Asks raw n) : ¬ Invalid raw :=
  fun invalid => invalid.2 n h

/-- A setting for a positive integer is not there, or asks for one, or is refused. -/
theorem positive_cases (setting : String) (raw : Option String) :
    content raw = [] ∧ positive setting raw = .ok none ∨
      (∃ n, Asks raw n ∧ positive setting raw = .ok (some n)) ∨
      Invalid raw ∧ ∃ e, positive setting raw = .error e ∧ e.kind = .invalidValue := by
  by_cases empty : content raw = []
  · exact .inl ⟨empty, by rw [positive, empty]; rfl⟩
  have filled : (content raw).isEmpty = false := by simpa using empty
  right
  cases read : integer? (content raw) with
  | none =>
    refine .inr ⟨⟨empty, fun n asks => ?_⟩,
      .settingNotInteger setting (String.ofList (content raw)), by simp [positive, filled, read], rfl⟩
    rw [integer?_eq_some_iff.2 asks.2] at read
    cases read
  | some n =>
    by_cases pos : 0 < n
    · obtain ⟨n, rfl⟩ := Int.eq_ofNat_of_zero_le (Int.le_of_lt pos)
      have asks : Asks raw n := ⟨by omega, integer?_eq_some_iff.1 read⟩
      exact .inl ⟨n, asks, by simp [positive, filled, read, asks.1]⟩
    · refine .inr ⟨⟨empty, fun n' asks => ?_⟩, .settingNotPositive setting (toString n),
        by simp [positive, filled, read, pos], rfl⟩
      rw [integer?_eq_some_iff.2 asks.2] at read
      have := asks.1
      simp only [Option.some.injEq] at read
      omega

/-! ### Settings and the reader -/

section Words

variable {s : List Char} {negative : Bool} {digits : List Nat}

/-- A sign and digits have no white space around them. -/
theorem trim_of_spelling (h : Spelling s (.int negative digits)) : trim s = s := by
  have visible : ∀ c ∈ s, isBlank c = false := by
    cases h with
    | signed sign spelled =>
      cases spelled with
      | int _ digits =>
        intro c member
        rcases List.mem_append.1 member with isSign | isDigit
        · cases sign with
          | absent => cases isSign
          | plus | minus =>
            rw [List.mem_singleton.1 isSign]
            decide
        · exact isBlank_of_isDecimalDigit (digits c isDigit)
  exact trim_eq_self (fun c first => visible c (List.mem_of_mem_head? first))
    fun c last => visible c (List.mem_of_mem_getLast? last)

theorem integer?_of_spelling (h : Spelling s (.int negative digits)) : integer? s =
    if 4300 < digits.length then none else some (Numeral.signed negative (decimalValue digits)) := by
  cases h with
  | signed sign spelled =>
    cases spelled with
    | int nonempty digits =>
      rw [integer?_eq, Numeral.splitSign_append sign digits.unsigned,
        groupedDigits?_of_digits nonempty digits, Option.bind_some]

/-- Where the reader takes a word for an integer numeral, a setting gives the integer that the
reader gives, if it gives one. -/
theorem integer?_eq_some_iff_ofWord {word : String}
    (h : Spelling word.toList (.int negative digits)) (n : Int) :
    integer? (content (some word)) = some n ↔
      Datum.ofWord word = .ok (.atom (.number (.int n))) := by
  rw [content, Option.getD_some, trim_of_spelling h, integer?_of_spelling h,
    Datum.ofWord_of_numeral (Numeral.ofChars?_of_int h), Numeral.value, Error.digitLimit]
  by_cases long : 4300 < digits.length
  · simp [long, Except.map]
  · simp [long, Except.map]

end Words

end Settings

end SmallLisp
