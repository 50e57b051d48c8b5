import SmallLisp.Proofs.Reader.Printing

/-!
# The text of a function is read back

A function is written as the `lambda` form that makes it. The form is put together by hand,
parameters and body, and it comes out as the text of a phrase nevertheless. Main statement: if the
parameters and the body have a written form, the text is read back as just that form
(`readAll_text`).
-/

namespace SmallLisp

namespace Value

theorem Printable.mem_toList {v u : Value} (h : v.Printable) (member : u ∈ v.toList) :
    u.Printable := by
  induction h with
  | cons first _ _ _ ih =>
    rw [toList_cons, List.mem_cons] at member
    rcases member with rfl | behind
    · exact first
    · exact ih behind
  | _ => cases member

end Value

namespace ClosureHeader

/-- The parameters and the body of a function have a written form. -/
structure Writable (header : ClosureHeader) (body : Value) : Prop where
  params : ∀ x ∈ header.params, x.IsReadable
  inside : body.Printable
  list : body.isList = true

/-- The `lambda` form that makes a function. -/
def source (header : ClosureHeader) (body : Value) : Datum :=
  .ofList (.symbol ⟨"lambda"⟩ :: .ofList (header.params.map .symbol) :: body.toList.map Value.erase)

theorem isReadable_lambda : Symbol.IsReadable ⟨"lambda"⟩ :=
  Symbol.isReadable_of_isWordChar (by decide) (by decide) (by decide) (by decide)

variable {header : ClosureHeader} {body : Value}

open Phrase in
/-- The text of a function is read back as one expression, the form that makes the function. -/
theorem Writable.readAll_text (h : header.Writable body) :
    ∃ n, ∀ levels, n ≤ levels → ∃ text, (Value.closure header body).text levels = .ok text ∧
      Datum.readAll text = .ok [header.source body] := by
  obtain ⟨fs, row⟩ := Value.exists_row fun v member =>
    (Value.exists_writtenAs (h.inside.mem_toList member)).1
  obtain ⟨read, lexical, n, written⟩ := Value.text_row row
  let words := header.params.map fun x => Phrase.word x.name
  have names : List.Forall₂ Value.WrittenAs (header.params.map Value.symbol) words := by
    rw [List.forall₂_map_left_iff, List.forall₂_map_right_iff]
    exact List.forall₂_same.2 fun x member => Value.writtenAs_symbol (h.params x member)
  obtain ⟨readNames, lexicalNames, -⟩ := Value.text_row names
  have keyword := Value.writtenAs_symbol isReadable_lambda
  let phrase := Phrase.list "(" (.word "lambda" :: .list "(" words ")" :: fs) ")"
  have stands : datumAll [phrase] = .ok [header.source body] := by
    have symbols : (header.params.map Value.symbol).map Value.erase =
        header.params.map Datum.symbol := by
      rw [List.map_map]
      rfl
    have inside : Phrase.datum (.list "(" words ")") =
        .ok (.ofList (header.params.map Datum.symbol)) := by
      rw [datum, readNames, symbols]
      rfl
    have whole : datumAll (.word "lambda" :: .list "(" words ")" :: fs) = .ok (.symbol ⟨"lambda"⟩ ::
        .ofList (header.params.map .symbol) :: body.toList.map Value.erase) :=
      datumAll_cons_eq_ok.2 ⟨_, _, keyword.datum,
        datumAll_cons_eq_ok.2 ⟨_, _, inside, read, rfl⟩, rfl⟩
    rw [datumAll, datum, whole]
    rfl
  have tokens : ∀ t ∈ tokensAll [phrase], t.IsLexical := by
    intro t member
    simp only [phrase, tokensAll, tokens, List.mem_append, List.mem_cons, List.not_mem_nil,
      or_false] at member
    rcases member with rfl | (rfl | (rfl | named | rfl) | inBody) | rfl
    · rfl
    · exact keyword.lexical _ List.mem_cons_self
    · rfl
    · exact lexicalNames t named
    · rfl
    · exact lexical t inBody
    · rfl
  refine ⟨n + 1, fun levels enough => ⟨String.ofList phrase.layout, ?_, ?_⟩⟩
  · obtain ⟨k, rfl⟩ := Nat.exists_eq_add_of_le' enough
    have params : Value.parenthesized (header.params.map Symbol.name) =
        String.ofList (Phrase.list "(" words ")").layout := by
      rw [← Value.parenthesized_layout, List.map_map]
      refine congrArg Value.parenthesized (List.map_congr_left fun x _ => ?_)
      exact String.ofList_toList.symm
    rw [← Value.parenthesized_layout, ← Nat.add_assoc, Value.text, params, written _ (by omega)]
    rfl
  · have layout : phrase.layout = layoutAll [phrase] := (List.append_nil _).symm
    rw [layout, Datum.readAll, ofSource_layoutAll tokens]
    exact TokenQueue.readAll_tokensAll stands

end ClosureHeader

end SmallLisp
