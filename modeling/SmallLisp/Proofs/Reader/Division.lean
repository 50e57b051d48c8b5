import SmallLisp.Proofs.Reader.Lexing

/-!
# The division of a source

A source is divided into pieces from its beginning up to its end, or up to a double quote without a
partner. Main statements: the division cuts no word in two (`Divided.boundary`), and the tokens of a
source, its failure and what its tokens give when they are written again follow from it
(`source_divided`).
-/

namespace SmallLisp

namespace Lexeme

theorem Divided.uncons {s left : List Char} {l : Lexeme} {ls : List Lexeme}
    (h : Divided s (l :: ls) left) :
    Piece l (ls.flatMap chars ++ left) ∧ Divided (ls.flatMap chars ++ left) ls left := by
  cases h with
  | piece first others =>
    rw [← others.whole]
    exact ⟨first, others⟩

/-- What follows the beginning of a division is divided into the pieces that follow. -/
theorem Divided.behind {s left : List Char} {before after : List Lexeme}
    (h : Divided s (before ++ after) left) : Divided (after.flatMap chars ++ left) after left := by
  induction before generalizing s with
  | nil => rwa [List.nil_append, h.whole] at h
  | cons l before ih => exact ih h.uncons.2

/-- No piece ends between two characters of a word. -/
theorem Piece.boundary {l : Lexeme} {rest : List Char} (h : Piece l rest) {c d : Char}
    (last : l.chars.getLast? = some c) (first : rest.head? = some d) :
    isWordChar c = false ∨ isWordChar d = false := by
  cases h with
  | blank space =>
    obtain rfl : _ = c := Option.some.inj last
    exact .inl (by simp [isWordChar, space])
  | comment _ ends =>
    rw [ends d first]
    exact .inr (by decide)
  | opening =>
    obtain rfl : '(' = c := Option.some.inj last
    exact .inl (by decide)
  | closing =>
    obtain rfl : ')' = c := Option.some.inj last
    exact .inl (by decide)
  | quote =>
    obtain rfl : Token.quoteMark = c := Option.some.inj last
    exact .inl (by decide)
  | string =>
    rw [chars, String.toList_ofList, ← List.cons_append, List.getLast?_concat] at last
    obtain rfl : '"' = c := Option.some.inj last
    exact .inl (by decide)
  | word _ _ ends => exact .inr (ends d first)

/-- A division cuts no word in two. -/
theorem Divided.boundary {s left : List Char} {before after : List Lexeme}
    (h : Divided s (before ++ after) left) {c d : Char}
    (last : (before.flatMap chars).getLast? = some c)
    (first : (after.flatMap chars ++ left).head? = some d) :
    isWordChar c = false ∨ isWordChar d = false := by
  rcases List.eq_nil_or_concat before with rfl | ⟨front, l, rfl⟩
  · cases last
  · rw [List.concat_eq_append, List.append_assoc] at h
    have piece := h.behind.uncons.1
    rw [List.concat_eq_append, List.flatMap_append, List.flatMap_singleton, List.getLast?_append,
      Option.or_of_isSome (List.getLast?_isSome.2 piece.chars_ne_nil)] at last
    exact piece.boundary last first

/-- A word of a division is as long as it can be, to both sides. -/
theorem Divided.word_maximal {s left : List Char} {before after : List Lexeme} {word : String}
    (h : Divided s (before ++ token ⟨.word, word⟩ :: after) left) :
    (∀ c, (before.flatMap chars).getLast? = some c → isWordChar c = false) ∧
      ∀ c, (after.flatMap chars ++ left).head? = some c → isWordChar c = false := by
  have piece := h.behind.uncons.1
  obtain ⟨nonempty, inWord⟩ := piece.isLexical
  refine ⟨fun c last => ?_, ?_⟩
  · obtain ⟨d, rest, written⟩ := List.exists_cons_of_ne_nil nonempty
    rw [written] at inWord
    have first : ((token ⟨.word, word⟩ :: after).flatMap chars ++ left).head? = some d := by
      simp [chars, show word.toList = d :: rest from written]
    rcases h.boundary last first with stops | stops
    · exact stops
    · rw [inWord d List.mem_cons_self] at stops
      cases stops
  · cases piece with
    | word _ _ ends => exact ends

end Lexeme

open Lexeme

namespace TokenQueue

/-- What a source gives, by its division: the tokens among the pieces, and a failure if a double
quote is left over. -/
theorem ofSource_of_divided {source : String} {pieces : List Lexeme} {left : List Char}
    (divided : Divided source.toList pieces left) (stuck : StartsNoPiece left) :
    ofSource source = ⟨pieces.filterMap token?,
      left.head?.map (.unexpectedChar (pieces.flatMap chars).length)⟩ := by
  have position : source.toList.length - left.length = (pieces.flatMap chars).length := by
    rw [divided.whole, List.length_append, Nat.add_sub_cancel]
  simp only [ofSource, scan_eq_iff.2 ⟨divided, stuck⟩, position]

/-- The tokens of a source with a space between two give the same tokens again. -/
theorem ofSource_intercalate (source : String) :
    ofSource (" ".intercalate ((ofSource source).tokens.map Token.text)) =
      ofTokens (ofSource source).tokens := by
  have lexes := Lexes.intercalate Token.text (fun t => [t]) (ofSource source).tokens fun t member =>
    lexes_token (isLexical_of_mem_tokens member)
  rw [List.flatMap_singleton'] at lexes
  exact ofSource_of_lexes lexes

/-- Every source is divided into blanks, comments and tokens, each what its class says, up to its
end or up to a double quote that nothing closes. Nothing is lost: the pieces and what is left over
make up the source, and words are as long as they can be. The tokens are those among the pieces. The
source fails exactly if such a double quote is met behind a row of pieces, with its position and
behind all tokens before it. The tokens written with a space between two give the same tokens
again. -/
theorem source_divided (source : String) :
    (∃ pieces left, Divided source.toList pieces left ∧
      pieces.flatMap chars ++ left = source.toList ∧
      (ofSource source).tokens = pieces.filterMap token? ∧
      (left = [] ∧ (ofSource source).failure = none ∨
        ∃ rest, left = '"' :: rest ∧ Unclosed rest ∧ (ofSource source).failure =
          some (.unexpectedChar (pieces.flatMap chars).length '"')) ∧
      ∀ before word after, pieces = before ++ token ⟨.word, word⟩ :: after →
        (∀ c, (before.flatMap chars).getLast? = some c → isWordChar c = false) ∧
        ∀ c, (after.flatMap chars ++ left).head? = some c → isWordChar c = false) ∧
    (∀ e, (ofSource source).failure = some e ↔
      ∃ pieces rest, Divided source.toList pieces ('"' :: rest) ∧ Unclosed rest ∧
        (ofSource source).tokens = pieces.filterMap token? ∧
        e = .unexpectedChar (pieces.flatMap chars).length '"' ∧ e.kind = .malformedSource) ∧
    ofSource (" ".intercalate ((ofSource source).tokens.map Token.text)) =
      ofTokens (ofSource source).tokens := by
  obtain ⟨divided, stuck⟩ := scan_eq_iff.1 (Prod.eta (scan source.toList)).symm
  have queue := ofSource_of_divided divided stuck
  refine ⟨⟨_, _, divided, divided.whole.symm, congrArg tokens queue, ?_, ?_⟩, fun e => ⟨?_, ?_⟩,
    ofSource_intercalate source⟩
  · rcases stuck with empty | ⟨rest, starts, unclosed⟩
    · exact .inl ⟨empty, by rw [queue, empty]; rfl⟩
    · exact .inr ⟨rest, starts, unclosed, by rw [queue, starts]; rfl⟩
  · intro before word after whole
    rw [whole] at divided
    exact divided.word_maximal
  · intro fails
    rcases stuck with empty | ⟨rest, starts, unclosed⟩
    · rw [queue, empty] at fails
      cases fails
    · rw [starts] at divided
      rw [queue, starts] at fails
      cases fails
      exact ⟨_, rest, divided, unclosed, congrArg tokens queue, rfl, rfl⟩
  · rintro ⟨pieces, rest, divided, unclosed, -, rfl, -⟩
    rw [ofSource_of_divided divided (.inr ⟨rest, rfl, unclosed⟩)]
    rfl

/-- A source with a comment, two strings with escapes, one of them not closed, and a word that a
string ends. -/
theorem source_divided_unclosed :
    let source := "(x\"a\\\"\" ; \"\n'y \"z\\\""
    let tokens : List Token :=
      [⟨.openParen, "("⟩, ⟨.word, "x"⟩, ⟨.string, "\"a\\\"\""⟩, ⟨.quote, "'"⟩, ⟨.word, "y"⟩]
    ofSource source = ⟨tokens, some (.unexpectedChar 15 '"')⟩ ∧
      (∃ pieces rest, Divided source.toList pieces ('"' :: rest) ∧ Unclosed rest ∧
        tokens = pieces.filterMap token? ∧ (pieces.flatMap chars).length = 15) ∧
      ofSource "( x \"a\\\"\" ' y" = ofTokens tokens := by
  intro source tokens
  have queue : ofSource source = ⟨tokens, some (.unexpectedChar 15 '"')⟩ := by decide +kernel
  obtain ⟨-, fails, again⟩ := source_divided source
  obtain ⟨pieces, rest, divided, unclosed, written, position, -⟩ :=
    (fails _).1 (congrArg failure queue)
  rw [queue] at again written
  injection position with position
  exact ⟨queue, ⟨pieces, rest, divided, unclosed, written, position.symm⟩, again⟩

end TokenQueue

end SmallLisp
