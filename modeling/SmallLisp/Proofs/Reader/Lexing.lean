import SmallLisp.Proofs.Reader.Phrase
import SmallLisp.Proofs.Reader.Piece

/-!
# Cutting a written phrase into its tokens

A phrase is written with the texts of its tokens, a space between the elements of a list and
nothing around them. A word ends only where something else begins, so a text is cut into its
tokens behind which no word goes on (`Lexes`). Main statements: a phrase of well-formed tokens is
cut into these tokens (`lexes_layout`), and every token cut off a source is well-formed
(`isLexical_of_mem_tokens`).
-/

namespace SmallLisp

namespace Lexeme

/-- Whatever follows and ends a word, the text is cut into these tokens and no piece reaches over
its end. -/
def Lexes (s : List Char) (ts : List Token) : Prop :=
  ∀ rest, EndsWord rest → ∃ pieces : List Lexeme,
    pieces.filterMap token? = ts ∧ scan (s ++ rest) = (pieces ++ (scan rest).1, (scan rest).2)

theorem lexes_nil : Lexes [] [] := fun _ _ => ⟨[], rfl, rfl⟩

/-- A piece that is cut off whatever follows. -/
theorem Lexes.piece {s : List Char} {ts : List Token} (h : Lexes s ts) (chars : List Char)
    (l : Lexeme) (cut : ∀ rest, next? (chars ++ rest) = some (l, rest)) :
    Lexes (chars ++ s) (l.token?.toList ++ ts) := by
  intro rest ends
  obtain ⟨pieces, tokens, cuts⟩ := h rest ends
  refine ⟨l :: pieces, ?_, ?_⟩
  · cases piece : l.token? <;> simp [piece, tokens]
  · rw [List.append_assoc, scan_of_next?_eq_some (cut (s ++ rest)), cuts]
    rfl

theorem Lexes.append {s r : List Char} {ts us : List Token} (first : Lexes s ts)
    (second : Lexes r us) (ends : ∀ rest, EndsWord rest → EndsWord (r ++ rest)) :
    Lexes (s ++ r) (ts ++ us) := by
  intro rest after
  obtain ⟨pieces, tokens, cuts⟩ := first (r ++ rest) (ends rest after)
  obtain ⟨others, rfl, cuts'⟩ := second rest after
  refine ⟨pieces ++ others, ?_, ?_⟩
  · rw [List.filterMap_append, tokens]
  · rw [List.append_assoc, cuts, cuts', List.append_assoc]

/-- Texts with a space between two are cut into the tokens of each. -/
theorem Lexes.intercalate {α : Type} (text : α → String) (tokens : α → List Token) (xs : List α)
    (h : ∀ x ∈ xs, Lexes (text x).toList (tokens x)) :
    Lexes (" ".intercalate (xs.map text)).toList (xs.flatMap tokens) := by
  match xs with
  | [] => exact lexes_nil
  | [x] => simpa using h x
  | x :: y :: xs =>
    have others := Lexes.intercalate text tokens (y :: xs) fun z member =>
      h z (List.mem_cons_of_mem x member)
    have row := others.piece [' '] (blank ' ') fun _ => rfl
    have whole := (h x List.mem_cons_self).append row fun rest _ => endsWord_cons (by decide) _
    rw [List.map_cons, List.map_cons, String.intercalate_cons_cons]
    simpa [token?] using whole

end Lexeme

open Lexeme

/-- The text of a token of its class. -/
def Token.IsLexical (t : Token) : Prop :=
  match t.kind with
  | .openParen => t.text = "("
  | .closeParen => t.text = ")"
  | .quote => t.text = "'"
  | .string => ∃ body, t.text.toList = '"' :: body ∧
      ∀ rest, afterString? (body ++ rest) = some rest
  | .word => t.text.toList ≠ [] ∧ ∀ c ∈ t.text.toList, isWordChar c = true
  | .other => False

namespace Lexeme

/-- A token that a text may begin with is well-formed. -/
theorem Piece.isLexical {t : Token} {rest : List Char} (h : Piece (token t) rest) :
    t.IsLexical := by
  cases h with
  | opening => rfl
  | closing => rfl
  | quote => rfl
  | @string inside closed =>
    refine ⟨inside ++ ['"'], String.toList_ofList, fun r => ?_⟩
    rw [List.append_assoc]
    exact closed.afterString? r
  | word nonempty chars => exact ⟨by simpa using nonempty, by simpa using chars⟩

theorem lexes_word {text : String} (h : (⟨.word, text⟩ : Token).IsLexical) :
    Lexes text.toList [⟨.word, text⟩] := by
  intro rest ends
  refine ⟨[token ⟨.word, text⟩], rfl, ?_⟩
  have cut := next?_word h.1 h.2 ends
  rw [String.ofList_toList] at cut
  rw [scan_of_next?_eq_some cut]
  rfl

theorem lexes_string {text : String} (h : (⟨.string, text⟩ : Token).IsLexical) :
    Lexes text.toList [⟨.string, text⟩] := by
  obtain ⟨body, written, closed⟩ := h
  have whole : String.ofList ('"' :: body) = text := by rw [← written, String.ofList_toList]
  simp only at written
  have piece := lexes_nil.piece text.toList (token ⟨.string, text⟩) fun rest => by
    rw [written, List.cons_append, next?_string (closed rest), whole]
  simpa [token?] using piece

/-- The text of a well-formed token is cut into this token. -/
theorem lexes_token {t : Token} (h : t.IsLexical) : Lexes t.text.toList [t] := by
  obtain ⟨kind, text⟩ := t
  cases kind with
  | openParen =>
    obtain rfl : text = "(" := h
    exact lexes_nil.piece ['('] (token ⟨.openParen, "("⟩) fun _ => rfl
  | closeParen =>
    obtain rfl : text = ")" := h
    exact lexes_nil.piece [')'] (token ⟨.closeParen, ")"⟩) fun _ => rfl
  | quote =>
    obtain rfl : text = "'" := h
    exact lexes_nil.piece ['\x27'] (token ⟨.quote, "'"⟩) fun _ => rfl
  | string => exact lexes_string h
  | word => exact lexes_word h
  | other => exact h.elim

theorem Divided.isLexical {s left : List Char} {ls : List Lexeme} (h : Divided s ls left) :
    ∀ t ∈ ls.filterMap token?, t.IsLexical := by
  induction h with
  | stop => exact fun _ member => nomatch member
  | @piece l _ _ _ first _ ih =>
    cases l with
    | blank c => exact ih
    | comment text => exact ih
    | token t => exact List.forall_mem_cons.2 ⟨first.isLexical, ih⟩

end Lexeme

/-- Every token of a source is well-formed. -/
theorem TokenQueue.isLexical_of_mem_tokens {source : String} {t : Token}
    (h : t ∈ (ofSource source).tokens) : t.IsLexical :=
  (divided_scan source.toList).isLexical t h

/-- The queue of a text that is cut into these tokens holds them and no failure. -/
theorem TokenQueue.ofSource_of_lexes {source : String} {ts : List Token}
    (h : Lexes source.toList ts) : ofSource source = ofTokens ts := by
  obtain ⟨pieces, tokens, cuts⟩ := h [] endsWord_nil
  have nothing : scan [] = ([], []) := scan_of_next?_eq_none rfl
  rw [nothing, List.append_nil, List.append_nil] at cuts
  simp only [ofSource, cuts, tokens]
  rfl

namespace Phrase

mutual

/-- How a phrase is written. -/
def layout : Phrase → List Char
  | word text => text.toList
  | string text => text.toList
  | quoted mark body => mark.toList ++ body.layout
  | list opening items closing => opening.toList ++ (layoutAll items ++ closing.toList)

/-- How a row of phrases is written, with a space between two. -/
def layoutAll : List Phrase → List Char
  | [] => []
  | f :: fs => f.layout ++ layoutBehind fs

/-- How the phrases behind another are written. -/
def layoutBehind : List Phrase → List Char
  | [] => []
  | f :: fs => ' ' :: (f.layout ++ layoutBehind fs)

end

theorem endsWord_layoutBehind (fs : List Phrase) {rest : List Char} (h : EndsWord rest) :
    EndsWord (layoutBehind fs ++ rest) := by
  cases fs with
  | nil => exact h
  | cons f fs => exact endsWord_cons (by decide) _

mutual

/-- A phrase of well-formed tokens is cut into these tokens. -/
theorem lexes_layout (f : Phrase) (h : ∀ t ∈ f.tokens, t.IsLexical) : Lexes f.layout f.tokens := by
  match f with
  | .word text => exact lexes_token (h _ (by simp [tokens]))
  | .string text => exact lexes_token (h _ (by simp [tokens]))
  | .quoted mark body =>
    have mark_eq : mark = "'" := h ⟨.quote, mark⟩ (by simp [tokens])
    subst mark_eq
    have inside := lexes_layout body fun t member => h t (by simp [tokens, member])
    exact inside.piece ['\x27'] (token ⟨.quote, "'"⟩) fun _ => rfl
  | .list opening items closing =>
    have opening_eq : opening = "(" := h ⟨.openParen, opening⟩ (by simp [tokens])
    have closing_eq : closing = ")" := h ⟨.closeParen, closing⟩ (by simp [tokens])
    subst opening_eq closing_eq
    have inside := lexes_layoutAll items fun t member => h t (by simp [tokens, member])
    have last : Lexes [')'] [⟨.closeParen, ")"⟩] := lexes_token (t := ⟨.closeParen, ")"⟩) rfl
    have closed := inside.append last fun rest _ => endsWord_cons (by decide) rest
    exact closed.piece ['('] (token ⟨.openParen, "("⟩) fun _ => rfl

theorem lexes_layoutAll (fs : List Phrase) (h : ∀ t ∈ tokensAll fs, t.IsLexical) :
    Lexes (layoutAll fs) (tokensAll fs) := by
  match fs with
  | [] => exact lexes_nil
  | f :: fs =>
    rw [tokensAll] at h
    have first := lexes_layout f fun t member => h t (List.mem_append_left _ member)
    have others := lexes_layoutBehind fs fun t member => h t (List.mem_append_right _ member)
    exact first.append others fun rest => endsWord_layoutBehind fs

theorem lexes_layoutBehind (fs : List Phrase) (h : ∀ t ∈ tokensAll fs, t.IsLexical) :
    Lexes (layoutBehind fs) (tokensAll fs) := by
  match fs with
  | [] => exact lexes_nil
  | f :: fs =>
    rw [tokensAll] at h
    have first := lexes_layout f fun t member => h t (List.mem_append_left _ member)
    have others := lexes_layoutBehind fs fun t member => h t (List.mem_append_right _ member)
    have row := first.append others fun rest => endsWord_layoutBehind fs
    exact row.piece [' '] (blank ' ') fun _ => rfl

end

/-- The queue of a written row of phrases holds their tokens and no failure. -/
theorem ofSource_layoutAll {fs : List Phrase} (h : ∀ t ∈ tokensAll fs, t.IsLexical) :
    TokenQueue.ofSource (String.ofList (layoutAll fs)) = TokenQueue.ofTokens (tokensAll fs) := by
  refine TokenQueue.ofSource_of_lexes ?_
  rw [String.toList_ofList]
  exact lexes_layoutAll fs h

end Phrase

end SmallLisp
