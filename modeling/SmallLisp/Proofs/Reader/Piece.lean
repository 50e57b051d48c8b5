import SmallLisp.Token.Lexeme

/-!
# What a piece of source text is

The pieces that a text may begin with are described one class at a time, with no regard to how they
are found. A comment runs up to the end of its line, a string up to the first double quote that is
not behind a backslash, a word as far as it goes. Main statements: the piece that is cut off a text
is the one that it begins with (`next?_eq_some_iff`), a text begins with none only if it is empty or
begins with a double quote that nothing closes (`next?_eq_none_iff`), and there is one division of a
text into pieces up to such a place (`scan_eq_iff`).
-/

namespace SmallLisp.Lexeme

open Text

/-! ## Strings -/

/-- What stands between the double quotes of a string: a backslash takes the character behind it
along, and no other double quote occurs. -/
inductive Inside : List Char → Prop
  | nil : Inside []
  | plain {c : Char} {s : List Char} (notQuote : c ≠ '"') (notBackslash : c ≠ '\\')
      (others : Inside s) : Inside (c :: s)
  | escaped (c : Char) {s : List Char} (others : Inside s) : Inside ('\\' :: c :: s)

/-- Nothing closes a string whose opening quote stands in front of this text. -/
def Unclosed (s : List Char) : Prop :=
  ∀ inside after, Inside inside → s ≠ inside ++ '"' :: after

theorem Inside.afterString? {s : List Char} (h : Inside s) (rest : List Char) :
    afterString? (s ++ '"' :: rest) = some rest := by
  induction h with
  | nil => rfl
  | plain notQuote notBackslash _ ih =>
    rw [List.cons_append, Lexeme.afterString?, if_neg notBackslash, ih]
    · exact notQuote
    · rintro _ _ rfl
      exact absurd rfl notBackslash
  | escaped c _ ih => exact ih

theorem afterString?_eq_some_iff {s rest : List Char} :
    afterString? s = some rest ↔ ∃ inside, Inside inside ∧ s = inside ++ '"' :: rest := by
  constructor
  · intro h
    fun_induction afterString? s with
    | case1 tail => cases h; exact ⟨[], .nil, rfl⟩
    | case2 c tail ih =>
      obtain ⟨inside, closed, rfl⟩ := ih h
      exact ⟨'\\' :: c :: inside, .escaped c closed, rfl⟩
    | case3 => cases h
    | case4 c tail notQuote _ notBackslash ih =>
      obtain ⟨inside, closed, rfl⟩ := ih h
      exact ⟨c :: inside, .plain notQuote notBackslash closed, rfl⟩
    | case5 => cases h
  · rintro ⟨inside, closed, rfl⟩
    exact closed.afterString? rest

theorem afterString?_eq_none_iff {s : List Char} : afterString? s = none ↔ Unclosed s := by
  rw [Option.eq_none_iff_forall_ne_some]
  constructor
  · intro never inside after closed whole
    exact never after (afterString?_eq_some_iff.2 ⟨inside, closed, whole⟩)
  · intro never after found
    obtain ⟨inside, closed, whole⟩ := afterString?_eq_some_iff.1 found
    exact never inside after closed whole

theorem next?_string {body rest : List Char} (closed : afterString? (body ++ rest) = some rest) :
    next? ('"' :: (body ++ rest)) = some (token ⟨.string, String.ofList ('"' :: body)⟩, rest) := by
  have blank : isBlank '"' = false := by decide
  have quote : '"' ≠ Token.quoteMark := by decide
  simp only [next?, blank, quote, closed, if_false, if_true, Bool.false_eq_true, Option.map_some,
    Char.reduceEq]
  rw [← List.cons_append, tokenBefore_append]

/-! ## Words and comments -/

/-- A word in front of this text ends there. -/
def EndsWord (rest : List Char) : Prop := ∀ c, rest.head? = some c → isWordChar c = false

theorem endsWord_nil : EndsWord [] := nofun

theorem endsWord_cons {c : Char} (h : isWordChar c = false) (rest : List Char) :
    EndsWord (c :: rest) := by
  rintro d ⟨⟩
  exact h

/-- A comment in front of this text ends there. -/
def EndsLine (rest : List Char) : Prop := ∀ c, rest.head? = some c → c = '\n'

/-- A row that the property holds of is taken whole from a list that goes on without it. -/
theorem takeWhile_exact {p : Char → Bool} {s rest : List Char} (holds : ∀ c ∈ s, p c = true)
    (stops : ∀ c, rest.head? = some c → p c = false) :
    (s ++ rest).takeWhile p = s ∧ (s ++ rest).dropWhile p = rest := by
  rw [List.takeWhile_append_of_pos holds, List.dropWhile_append_of_pos holds]
  cases rest with
  | nil => simp
  | cons c rest => simp [stops c rfl]

theorem stops_dropWhile (p : Char → Bool) (s : List Char) :
    ∀ c, (s.dropWhile p).head? = some c → p c = false := by
  intro c head
  have stops := List.head?_dropWhile_not p s
  rw [head] at stops
  exact stops

/-- A word character is none of those that start another piece. -/
theorem of_isWordChar {c : Char} (h : isWordChar c = true) :
    isBlank c = false ∧ c ≠ '(' ∧ c ≠ ')' ∧ c ≠ Token.quoteMark ∧ c ≠ '"' ∧ c ≠ ';' := by
  simpa [isWordChar, and_assoc] using h

theorem next?_word {s rest : List Char} (nonempty : s ≠ [])
    (word : ∀ c ∈ s, isWordChar c = true) (ends : EndsWord rest) :
    next? (s ++ rest) = some (token ⟨.word, String.ofList s⟩, rest) := by
  obtain ⟨whole, left⟩ := takeWhile_exact word ends
  cases s with
  | nil => exact absurd rfl nonempty
  | cons c s =>
    obtain ⟨blank, opening, closing, quote, string, comment⟩ := of_isWordChar (word c (by simp))
    rw [List.cons_append] at whole left ⊢
    simp only [next?, blank, comment, opening, closing, quote, string, whole, left, if_false,
      Bool.false_eq_true]

theorem next?_comment {body rest : List Char} (line : '\n' ∉ body) (ends : EndsLine rest) :
    next? (';' :: (body ++ rest)) = some (comment (String.ofList (';' :: body)), rest) := by
  have blank : isBlank ';' = false := by decide
  have inLine : ∀ c ∈ ';' :: body, (decide (c ≠ '\n')) = true := by
    rintro c member
    rw [decide_eq_true_eq]
    rintro rfl
    rcases List.mem_cons.1 member with equal | member
    · cases equal
    · exact line member
  have stops : ∀ c, rest.head? = some c → (decide (c ≠ '\n')) = false := fun c head => by
    simp [ends c head]
  obtain ⟨whole, left⟩ := takeWhile_exact inLine stops
  rw [List.cons_append] at whole left
  simp only [next?, blank, whole, left, if_false, if_true, Bool.false_eq_true]

/-! ## All pieces -/

/-- A text may begin with this piece if that is followed by `rest`. -/
inductive Piece : Lexeme → (rest : List Char) → Prop
  | blank {c : Char} (space : isBlank c = true) (rest : List Char) : Piece (blank c) rest
  | comment {body rest : List Char} (line : '\n' ∉ body) (ends : EndsLine rest) :
      Piece (comment (String.ofList (';' :: body))) rest
  | opening (rest : List Char) : Piece (token ⟨.openParen, "("⟩) rest
  | closing (rest : List Char) : Piece (token ⟨.closeParen, ")"⟩) rest
  | quote (rest : List Char) : Piece (token ⟨.quote, "'"⟩) rest
  | string {inside : List Char} (closed : Inside inside) (rest : List Char) :
      Piece (token ⟨.string, String.ofList ('"' :: (inside ++ ['"']))⟩) rest
  | word {word rest : List Char} (nonempty : word ≠ [])
      (chars : ∀ c ∈ word, isWordChar c = true) (ends : EndsWord rest) :
      Piece (token ⟨.word, String.ofList word⟩) rest

/-- The text begins with no piece: it is empty, or begins with a double quote without a partner. -/
def StartsNoPiece (s : List Char) : Prop := s = [] ∨ ∃ rest, s = '"' :: rest ∧ Unclosed rest

theorem piece_of_next? {s rest : List Char} {l : Lexeme} (h : next? s = some (l, rest)) :
    Piece l rest := by
  cases s with
  | nil => cases h
  | cons c tail =>
    simp only [next?] at h
    split at h
    · rename_i space
      cases h
      exact .blank space rest
    rename_i notBlank
    split at h
    · rename_i starts
      subst starts
      cases h
      rw [List.takeWhile_cons_of_pos (by decide)]
      refine .comment (fun member => ?_) fun c head => ?_
      · simpa using List.all_eq_true.1 List.all_takeWhile _ member
      · simpa using stops_dropWhile _ _ c head
    rename_i notComment
    split at h
    · cases h
      exact .opening rest
    rename_i notOpening
    split at h
    · cases h
      exact .closing rest
    rename_i notClosing
    split at h
    · cases h
      exact .quote rest
    rename_i notQuote
    split at h
    · rename_i isString
      subst isString
      obtain ⟨after, found, eq⟩ := Option.map_eq_some_iff.1 h
      obtain ⟨inside, closed, rfl⟩ := afterString?_eq_some_iff.1 found
      have whole : '"' :: (inside ++ '"' :: after) = '"' :: (inside ++ ['"']) ++ after := by simp
      rw [whole, tokenBefore_append] at eq
      cases eq
      exact .string closed rest
    · rename_i notString
      cases h
      have first : isWordChar c = true := by
        simp [isWordChar, notBlank, notComment, notOpening, notClosing, notQuote, notString]
      refine .word ?_ (fun d member => ?_) (stops_dropWhile _ _)
      · rw [List.takeWhile_cons_of_pos first]
        exact List.cons_ne_nil c _
      · exact List.all_eq_true.1 List.all_takeWhile d member

theorem Piece.next? {l : Lexeme} {rest : List Char} (h : Piece l rest) :
    next? (l.chars ++ rest) = some (l, rest) := by
  cases h with
  | blank space => simp [chars, Lexeme.next?, space]
  | comment line ends => simpa [chars] using next?_comment line ends
  | opening => rfl
  | closing => rfl
  | quote => rfl
  | string closed =>
    have found := closed.afterString? rest
    rw [← List.singleton_append, ← List.append_assoc] at found
    simpa [chars] using next?_string found
  | word nonempty word ends => simpa [chars] using next?_word nonempty word ends

/-- The piece that is cut off a text is the one that it begins with. -/
theorem next?_eq_some_iff {s rest : List Char} {l : Lexeme} :
    next? s = some (l, rest) ↔ Piece l rest ∧ s = l.chars ++ rest := by
  constructor
  · exact fun h => ⟨piece_of_next? h, (next?_append h).symm⟩
  · rintro ⟨piece, rfl⟩
    exact piece.next?

/-- A text that begins with no piece is empty or begins with a double quote without a partner. -/
theorem next?_eq_none_iff {s : List Char} : next? s = none ↔ StartsNoPiece s := by
  constructor
  · intro h
    cases s with
    | nil => exact .inl rfl
    | cons c tail =>
      by_cases isString : c = '"'
      · subst isString
        exact .inr ⟨tail, rfl, afterString?_eq_none_iff.1 (Option.map_eq_none_iff.1 h)⟩
      · simp only [next?, isString, if_false] at h
        grind
  · rintro (rfl | ⟨rest, rfl, unclosed⟩)
    · rfl
    · have blank : isBlank '"' = false := by decide
      have quote : '"' ≠ Token.quoteMark := by decide
      simp only [next?, blank, quote, afterString?_eq_none_iff.2 unclosed, if_false, if_true,
        Bool.false_eq_true, Option.map_none, Char.reduceEq]

theorem Piece.chars_ne_nil {l : Lexeme} {rest : List Char} (h : Piece l rest) : l.chars ≠ [] :=
  Lexeme.chars_ne_nil h.next?

/-! ## Division into pieces -/

/-- The text is these pieces in order and then what is left over. -/
inductive Divided : List Char → List Lexeme → (left : List Char) → Prop
  | stop (left : List Char) : Divided left [] left
  | piece {l : Lexeme} {rest left : List Char} {ls : List Lexeme} (first : Piece l rest)
      (others : Divided rest ls left) : Divided (l.chars ++ rest) (l :: ls) left

/-- Nothing is lost and nothing is added. -/
theorem Divided.whole {s left : List Char} {ls : List Lexeme} (h : Divided s ls left) :
    s = ls.flatMap chars ++ left := by
  induction h with
  | stop left => rfl
  | piece _ _ ih => rw [List.flatMap_cons, List.append_assoc, ← ih]

theorem divided_scan (s : List Char) : Divided s (scan s).1 (scan s).2 := by
  induction hn : s.length using Nat.strongRecOn generalizing s with
  | ind n ih =>
    subst hn
    cases h : next? s with
    | none =>
      rw [scan_of_next?_eq_none h]
      exact .stop s
    | some found =>
      obtain ⟨l, rest⟩ := found
      rw [scan_of_next?_eq_some h]
      obtain ⟨first, rfl⟩ := next?_eq_some_iff.1 h
      exact .piece first (ih _ (length_lt_of_next? h) rest rfl)

theorem Divided.scan_eq {s left : List Char} {ls : List Lexeme} (h : Divided s ls left) :
    scan s = (ls ++ (scan left).1, (scan left).2) := by
  induction h with
  | stop left => rfl
  | piece first _ ih =>
    rw [scan_of_next?_eq_some first.next?, ih]
    rfl

/-- There is one division up to a place where no piece begins. -/
theorem scan_eq_iff {s left : List Char} {ls : List Lexeme} :
    scan s = (ls, left) ↔ Divided s ls left ∧ StartsNoPiece left := by
  constructor
  · intro h
    have divided := divided_scan s
    have stuck := next?_scan s
    rw [h] at divided stuck
    exact ⟨divided, next?_eq_none_iff.1 stuck⟩
  · rintro ⟨divided, stuck⟩
    rw [divided.scan_eq, scan_of_next?_eq_none (next?_eq_none_iff.2 stuck), List.append_nil]

end SmallLisp.Lexeme
