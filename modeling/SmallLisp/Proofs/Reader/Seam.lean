import SmallLisp.Proofs.Reader.Grammar
import SmallLisp.Proofs.Reader.Lexing

/-!
# Sources one after the other

A newline ends every word and every comment, so no piece of a source that has been cut up whole
reaches over a newline behind it. Main statements: two sources with a newline between them are cut
into the pieces of the first, the newline and the pieces of the second (`scan_newline`), and read as
the expressions of the first and then those of the second (`readAll_newline`).
-/

namespace SmallLisp

namespace Lexeme

/-- A piece is the same if a newline follows what is behind it. -/
theorem Piece.newline {l : Lexeme} {rest : List Char} (h : Piece l rest) (r : List Char) :
    Piece l (rest ++ '\n' :: r) := by
  -- no piece but a comment or a word looks at what follows it, and a newline ends these
  cases h with
  | blank space => exact .blank space _
  | comment line ends =>
    refine .comment line fun c head => ?_
    cases rest with
    | nil => cases head; rfl
    | cons d rest => exact ends c head
  | opening => exact .opening _
  | closing => exact .closing _
  | quote => exact .quote _
  | string closed => exact .string closed _
  | word nonempty chars ends =>
    refine .word nonempty chars ?_
    cases rest with
    | nil => exact endsWord_cons (by decide) r
    | cons d rest => exact endsWord_cons (ends d rfl) _

/-- A text that is divided whole is so with a newline behind it. -/
theorem Divided.newline {s left : List Char} {ls : List Lexeme} (h : Divided s ls left)
    (whole : left = []) (r : List Char) : Divided (s ++ '\n' :: r) (ls ++ [blank '\n']) r := by
  induction h with
  | stop =>
    subst whole
    exact .piece (.blank (by decide) r) (.stop r)
  | piece first _ ih =>
    rw [List.append_assoc]
    exact .piece (first.newline r) (ih whole)

theorem scan_newline {s : List Char} (whole : (scan s).2 = []) (r : List Char) :
    scan (s ++ '\n' :: r) = ((scan s).1 ++ blank '\n' :: (scan r).1, (scan r).2) := by
  have divided := (divided_scan s).newline whole r
  rw [divided.scan_eq, List.append_assoc]
  rfl

end Lexeme

namespace TokenQueue

/-- There is no failure if nothing is left over. -/
theorem left_of_failure {source : String} (h : (ofSource source).failure = none) :
    (Lexeme.scan source.toList).2 = [] := by
  simpa [ofSource] using h

/-- Two sources without a failure give their tokens one after the other. -/
theorem ofSource_newline {first second : String} (whole : (ofSource first).failure = none)
    (whole' : (ofSource second).failure = none) :
    ofSource (first ++ "\n" ++ second) =
      ofTokens ((ofSource first).tokens ++ (ofSource second).tokens) := by
  have joined : (first ++ "\n" ++ second).toList = first.toList ++ '\n' :: second.toList := by
    simp
  have cuts := Lexeme.scan_newline (left_of_failure whole) second.toList
  simp only [ofSource, ofTokens, joined, cuts, left_of_failure whole', List.filterMap_append]
  rfl

end TokenQueue

/-- Two sources with a newline between them are read one after the other. -/
theorem Datum.readAll_newline {first second : String} {ds es : List Datum}
    (read : Datum.readAll first = .ok ds) (read' : Datum.readAll second = .ok es) :
    Datum.readAll (first ++ "\n" ++ second) = .ok (ds ++ es) := by
  obtain ⟨fs, tokens, data, whole⟩ := TokenQueue.phrases_of_readAll read
  obtain ⟨gs, tokens', data', whole'⟩ := TokenQueue.phrases_of_readAll read'
  rw [Datum.readAll, TokenQueue.ofSource_newline whole whole', ← tokens, ← tokens',
    ← Phrase.tokensAll_append]
  exact TokenQueue.readAll_tokensAll (Phrase.datumAll_append data data')

end SmallLisp
