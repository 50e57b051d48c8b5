import SmallLisp.Proofs.Reader.Phrase

/-!
# The reader accepts the grammar

The reader keeps open lists and waiting quotes instead of recursing. A half-read expression is
tied to the grammar by the tokens that lead to it (`Pending.After`): one token extends them
(`after_of_step`), and when the expression is complete they are the tokens of a phrase that stands
for it (`phrase_of_feed`). In the other direction the tokens of a phrase deliver its datum to
whatever is half-read in front of it (`feed_tokens`). Main statement: the reader accepts the rows
of phrases and nothing else (`readAll_iff_phrases`).
-/

namespace SmallLisp

open Phrase

namespace Progress

/-- Goes on reading, if the expression is not complete. -/
def feed : Progress → List Token → Pending.Fed
  | more p, rest => p.feed rest
  | complete d, rest => .done (.ok d) rest

end Progress

namespace Pending

theorem feed_cons (p : Pending) (t : Token) (rest : List Token) :
    p.feed (t :: rest) =
      match p.step t with
      | .ok progress => progress.feed rest
      | .error e => .done (.error e) rest := by
  rw [feed]
  cases p.step t with
  | error e => rfl
  | ok progress => cases progress <;> rfl

theorem deliver_addQuote (p : Pending) (d : Datum) : p.addQuote.deliver d = p.deliver d.quoted := by
  cases p <;> rfl

theorem deliver_inside (outer : Pending) (latestFirst : List Datum) (d : Datum) :
    (inside outer latestFirst 0).deliver d = .more (inside outer (d :: latestFirst) 0) := rfl

theorem close_inside (outer : Pending) (latestFirst : List Datum) (text : String) :
    (inside outer latestFirst 0).close text =
      .ok (outer.deliver (Datum.ofList latestFirst.reverse)) := by
  rw [close, Datum.ofList, List.reverse_reverse]

mutual

/-- Reading a phrase delivers its datum to what has been read before it. -/
theorem feed_tokens {f : Phrase} {d : Datum} (h : f.datum = .ok d) (p : Pending)
    (rest : List Token) : p.feed (f.tokens ++ rest) = (p.deliver d).feed rest := by
  match f with
  | .word text =>
    rw [datum] at h
    rw [tokens, List.singleton_append, feed_cons, step, h]
    rfl
  | .string text =>
    cases h
    rw [tokens, List.singleton_append, feed_cons, step]
  | .quoted mark body =>
    obtain ⟨inner, read, rfl⟩ := Except.map_eq_ok.1 h
    rw [tokens, List.cons_append, feed_cons]
    show p.addQuote.feed (body.tokens ++ rest) = _
    rw [feed_tokens read, deliver_addQuote]
  | .list opening items closing =>
    obtain ⟨ds, read, rfl⟩ := Except.map_eq_ok.1 h
    rw [tokens, List.cons_append, feed_cons]
    show (inside p [] 0).feed (tokensAll items ++ [⟨.closeParen, closing⟩] ++ rest) = _
    rw [List.append_assoc, feed_tokensAll read, List.append_nil, List.singleton_append, feed_cons,
      step, close_inside, List.reverse_reverse]

/-- Reading the phrases of a list adds their data to the list. -/
theorem feed_tokensAll {fs : List Phrase} {ds : List Datum} (h : datumAll fs = .ok ds)
    (outer : Pending) (latestFirst : List Datum) (rest : List Token) :
    (inside outer latestFirst 0).feed (tokensAll fs ++ rest) =
      (inside outer (ds.reverse ++ latestFirst) 0).feed rest := by
  match fs with
  | [] =>
    cases h
    rfl
  | f :: fs =>
    obtain ⟨d, others, first, read, rfl⟩ := datumAll_cons_eq_ok.1 h
    rw [tokensAll, List.append_assoc, feed_tokens first, deliver_inside, Progress.feed,
      feed_tokensAll read, List.reverse_cons, List.append_assoc]
    rfl

end

/-- The tokens that lead to a half-read expression: quote marks wait in front of the next element,
and a list is open behind its phrases so far. -/
def After : Pending → List Token → Prop
  | outside quotes, ts => ∃ marks : List String, marks.length = quotes ∧ ts = markTokens marks
  | inside outer latestFirst quotes, ts =>
    ∃ before opening items marks, outer.After before ∧
      datumAll items = .ok latestFirst.reverse ∧ marks.length = quotes ∧
      ts = before ++ ⟨.openParen, opening⟩ :: (tokensAll items ++ markTokens marks)

theorem after_start : start.After [] := ⟨[], rfl, rfl⟩

theorem after_addQuote {p : Pending} {before : List Token} (h : p.After before) (mark : String) :
    p.addQuote.After (before ++ [⟨.quote, mark⟩]) := by
  cases p with
  | outside quotes =>
    obtain ⟨marks, rfl, rfl⟩ := h
    exact ⟨marks ++ [mark], by simp, by simp [markTokens]⟩
  | inside outer latestFirst quotes =>
    obtain ⟨start, opening, items, marks, around, read, rfl, rfl⟩ := h
    exact ⟨start, opening, items, marks ++ [mark], around, read, by simp, by simp [markTokens]⟩

theorem after_open {p : Pending} {before : List Token} (h : p.After before) (opening : String) :
    (inside p [] 0).After (before ++ [⟨.openParen, opening⟩]) :=
  ⟨before, opening, [], [], h, rfl, rfl, rfl⟩

end Pending

/-- The tokens that lead to a half-read expression, or those of a phrase for a complete one. -/
def Progress.After : Progress → List Token → Prop
  | more p, ts => p.After ts
  | complete d, ts => ∃ f : Phrase, f.datum = .ok d ∧ f.tokens = ts

namespace Pending

theorem after_deliver {p : Pending} {before : List Token} (h : p.After before) {f : Phrase}
    {d : Datum} (read : f.datum = .ok d) : (p.deliver d).After (before ++ f.tokens) := by
  cases p with
  | outside quotes =>
    obtain ⟨marks, rfl, rfl⟩ := h
    exact ⟨quotedBy marks f, datum_quotedBy read marks, tokens_quotedBy marks f⟩
  | inside outer latestFirst quotes =>
    obtain ⟨start, opening, items, marks, around, others, rfl, rfl⟩ := h
    refine ⟨start, opening, items ++ [quotedBy marks f], [], around, ?_, rfl, ?_⟩
    · rw [List.reverse_cons]
      refine datumAll_append others (datumAll_cons_eq_ok.2 ?_)
      exact ⟨_, [], datum_quotedBy read marks, rfl, rfl⟩
    · simp [tokensAll, tokens_quotedBy, markTokens]

/-- One token extends the tokens that lead to a half-read expression, whatever it is. -/
theorem after_of_step {p : Pending} {before : List Token} (h : p.After before) {t : Token}
    {progress : Progress} (read : p.step t = .ok progress) :
    progress.After (before ++ [t]) := by
  obtain ⟨kind, text⟩ := t
  cases kind with
  | quote => cases read; exact after_addQuote h text
  | openParen => cases read; exact after_open h text
  | string =>
    cases read
    exact after_deliver h (f := .string text) rfl
  | other => cases read
  | word =>
    cases word : Datum.ofWord text with
    | error e => simp [step, word, Except.map] at read
    | ok d =>
      simp only [step, word, Except.map, Except.ok.injEq] at read
      exact read ▸ after_deliver h (f := .word text) word
  | closeParen =>
    match p with
    | .outside _ | .inside _ _ (_ + 1) => cases read
    | .inside outer latestFirst 0 =>
      rw [step, close_inside, Except.ok.injEq] at read
      obtain ⟨start, opening, items, marks, around, others, none, rfl⟩ := h
      obtain rfl := List.length_eq_zero_iff.1 none
      have list : (Phrase.list opening items text).datum =
          .ok (Datum.ofList latestFirst.reverse) := by
        rw [datum, others]; rfl
      have whole := after_deliver around list
      rw [read] at whole
      simpa [tokens, markTokens] using whole

/-- What a run of the reader completes is a phrase. -/
theorem phrase_of_feed {p : Pending} {before ts rest : List Token} {d : Datum}
    (h : p.After before) (fed : p.feed ts = .done (.ok d) rest) :
    ∃ (f : Phrase) (used : List Token),
      f.datum = .ok d ∧ ts = used ++ rest ∧ f.tokens = before ++ used := by
  induction ts generalizing p before with
  | nil => cases fed
  | cons t ts ih =>
    rw [feed_cons] at fed
    cases read : p.step t with
    | error e => rw [read] at fed; cases fed
    | ok progress =>
      rw [read] at fed
      have extended := after_of_step h read
      cases progress with
      | complete d' =>
        cases fed
        obtain ⟨f, stands, written⟩ := extended
        exact ⟨f, [t], stands, rfl, written⟩
      | more q =>
        obtain ⟨f, used, stands, rfl, written⟩ := ih extended fed
        exact ⟨f, t :: used, stands, rfl, by rw [written, List.append_assoc]; rfl⟩

/-- Tokens that complete nothing lead to what is half-read at their end. -/
theorem after_of_ranOut {p q : Pending} {before ts : List Token} (h : p.After before)
    (fed : p.feed ts = .ranOut q) : q.After (before ++ ts) := by
  induction ts generalizing p before with
  | nil => cases fed; simpa using h
  | cons t ts ih =>
    rw [feed_cons] at fed
    cases read : p.step t with
    | error e => rw [read] at fed; cases fed
    | ok progress =>
      rw [read] at fed
      have extended := after_of_step h read
      cases progress with
      | complete d => cases fed
      | more q' => simpa using ih extended fed

theorem eq_start_of_finish {p : Pending} (h : p.finish = .ok ()) : p = start := by
  match p with
  | .outside 0 => rfl
  | .outside (_ + 1) | .inside .. => cases h

theorem finish_error_kind {p : Pending} {e : Error} (h : p.finish = .error e) :
    e.kind = .malformedSource := by
  match p with
  | .outside 0 => cases h
  | .outside (_ + 1) => cases h; rfl
  | .inside .. => cases h; rfl

/-- A token is refused because the source is malformed, or because it is a word that stands for
nothing. -/
theorem step_error_kind {p : Pending} {t : Token} {e : Error} (h : p.step t = .error e) :
    e.kind = .malformedSource ∨ (t.kind = .word ∧ Datum.ofWord t.text = .error e) := by
  obtain ⟨kind, text⟩ := t
  cases kind with
  | quote | openParen | string => cases h
  | other => cases h; exact .inl rfl
  | closeParen =>
    match p with
    | .outside _ => cases h; exact .inl rfl
    | .inside _ _ (_ + 1) => cases h; exact .inl rfl
    | .inside _ _ 0 => cases h
  | word =>
    cases word : Datum.ofWord text with
    | error e' =>
      simp only [step, word, Except.map, Except.error.injEq] at h
      exact .inr ⟨rfl, by rw [← h]⟩
    | ok d => simp [step, word, Except.map] at h

theorem step_error_malformed {p : Pending} {t : Token} {e : Error}
    (word : t.kind = .word → ∃ d, Datum.ofWord t.text = .ok d) (h : p.step t = .error e) :
    e.kind = .malformedSource := by
  rcases step_error_kind h with malformed | ⟨isWord, refused⟩
  · exact malformed
  · obtain ⟨d, accepted⟩ := word isWord
    rw [accepted] at refused
    cases refused

/-- A word among the tokens is refused with the error. -/
def RefusesWord (ts : List Token) (e : Error) : Prop :=
  ∃ t ∈ ts, t.kind = .word ∧ Datum.ofWord t.text = .error e

theorem feed_error_cases {p : Pending} {ts rest : List Token} {e : Error}
    (fed : p.feed ts = .done (.error e) rest) : e.kind = .malformedSource ∨ RefusesWord ts e := by
  induction ts generalizing p with
  | nil => cases fed
  | cons t ts ih =>
    rw [feed_cons] at fed
    cases read : p.step t with
    | error e' =>
      rw [read] at fed
      cases fed
      exact (step_error_kind read).imp_right fun refused => ⟨t, by simp, refused⟩
    | ok progress =>
      rw [read] at fed
      cases progress with
      | complete d => cases fed
      | more q =>
        refine (ih fed).imp_right ?_
        rintro ⟨t', member, refused⟩
        exact ⟨t', List.mem_cons_of_mem t member, refused⟩

end Pending

namespace TokenQueue

/-- A phrase at the front of a queue is the next expression, whatever stands behind it. -/
theorem next_of_phrase {f : Phrase} {d : Datum} (h : f.datum = .ok d) (rest : List Token)
    (failure : Option Error) :
    next ⟨f.tokens ++ rest, failure⟩ = (.ok (some d), ⟨rest, failure⟩) := by
  have fed : Pending.start.feed (f.tokens ++ rest) = .done (.ok d) rest := by
    rw [Pending.feed_tokens h]
    rfl
  simp only [next, fed]
  rfl

/-- The next expression is a phrase at the front of the queue. -/
theorem phrase_of_next {s rest : TokenQueue} {d : Datum} (h : s.next = (.ok (some d), rest)) :
    ∃ f : Phrase, f.datum = .ok d ∧ s.tokens = f.tokens ++ rest.tokens ∧
      s.failure = rest.failure := by
  unfold next at h
  split at h
  · rename_i result left fed
    simp only [Prod.mk.injEq] at h
    obtain ⟨found, rfl⟩ := h
    cases result with
    | error e => cases found
    | ok d' =>
      cases found
      obtain ⟨f, used, stands, split, written⟩ := Pending.phrase_of_feed Pending.after_start fed
      rw [List.nil_append] at written
      exact ⟨f, stands, by rw [split, written], rfl⟩
  · rename_i p _
    split at h
    · cases h
    · cases finished : p.finish <;> simp [finished, Except.map] at h

/-- There is no next expression only at the end of a queue without a failure. -/
theorem eq_empty_of_next {s rest : TokenQueue} (h : s.next = (.ok none, rest)) :
    s = ofTokens [] := by
  unfold next at h
  split at h
  · rename_i result left fed
    cases result <;> cases h
  · rename_i p fed
    split at h
    · cases h
    · rename_i noFailure
      cases finished : p.finish with
      | error e => simp [finished, Except.map] at h
      | ok _ =>
        have reached := Pending.after_of_ranOut Pending.after_start fed
        rw [Pending.eq_start_of_finish finished] at reached
        obtain ⟨marks, none, written⟩ := reached
        rw [List.length_eq_zero_iff.1 none] at written
        obtain ⟨tokens, failure⟩ := s
        cases written
        cases noFailure
        rfl

/-- The next expression is refused because the source is malformed, because of a word, or because of
the failure behind the tokens. -/
theorem next_error_cases {s rest : TokenQueue} {e : Error} (h : s.next = (.error e, rest)) :
    e.kind = .malformedSource ∨ Pending.RefusesWord s.tokens e ∨ s.failure = some e := by
  unfold next at h
  split at h
  · rename_i result left fed
    cases result with
    | ok d => cases h
    | error e' =>
      cases h
      exact (Pending.feed_error_cases fed).imp_right .inl
  · rename_i p fed
    cases failed : s.failure with
    | some e' =>
      rw [failed] at h
      cases h
      exact .inr (.inr rfl)
    | none =>
      simp only [failed, Prod.mk.injEq] at h
      cases finished : p.finish with
      | ok _ => rw [finished] at h; cases h.1
      | error e' =>
        rw [finished] at h
        cases h.1
        exact .inl (Pending.finish_error_kind finished)

theorem readAll_of_next {s rest : TokenQueue} {d : Datum} (h : s.next = (.ok (some d), rest)) :
    s.readAll = rest.readAll.map (d :: ·) := by
  rw [readAll]
  split
  all_goals
    rename_i found
    rw [h] at found
    cases found
  rfl

/-- A row of phrases is read as what they stand for. -/
theorem readAll_tokensAll {fs : List Phrase} {ds : List Datum} (h : datumAll fs = .ok ds) :
    (ofTokens (tokensAll fs)).readAll = .ok ds := by
  induction fs generalizing ds with
  | nil =>
    cases h
    rw [readAll]
    rfl
  | cons f fs ih =>
    obtain ⟨d, rest, first, others, rfl⟩ := datumAll_cons_eq_ok.1 h
    have next := next_of_phrase first (tokensAll fs) none
    rw [tokensAll]
    rw [ofTokens] at ih ⊢
    rw [readAll_of_next next, ih others]
    rfl

/-- What is read comes from a row of phrases, and the source behind them is sound. -/
theorem phrases_of_readAll {s : TokenQueue} {ds : List Datum} (h : s.readAll = .ok ds) :
    ∃ fs, tokensAll fs = s.tokens ∧ datumAll fs = .ok ds ∧ s.failure = none := by
  fun_induction readAll s generalizing ds with
  | case1 s e rest next => cases h
  | case2 s rest next =>
    cases h
    rw [eq_empty_of_next next]
    exact ⟨[], rfl, rfl, rfl⟩
  | case3 s d rest next ih =>
    obtain ⟨f, stands, written, failure⟩ := phrase_of_next next
    obtain ⟨es, others, rfl⟩ := Except.map_eq_ok.1 h
    obtain ⟨fs, row, read, noFailure⟩ := ih others
    refine ⟨f :: fs, ?_, datumAll_cons_eq_ok.2 ⟨d, es, stands, read, rfl⟩, ?_⟩
    · rw [tokensAll, row, written]
    · rw [failure, noFailure]

theorem readAll_error_cases {s : TokenQueue} {e : Error} (h : s.readAll = .error e) :
    e.kind = .malformedSource ∨ Pending.RefusesWord s.tokens e ∨ s.failure = some e := by
  fun_induction readAll s with
  | case1 s e' rest next =>
    cases h
    exact next_error_cases next
  | case2 s rest next => cases h
  | case3 s d rest next ih =>
    obtain ⟨f, stands, written, failure⟩ := phrase_of_next next
    cases others : rest.readAll with
    | ok es => rw [others] at h; cases h
    | error e' =>
      rw [others] at h
      cases h
      rcases ih others with malformed | ⟨t, member, refused⟩ | failed
      · exact .inl malformed
      · exact .inr (.inl ⟨t, written ▸ List.mem_append_right _ member, refused⟩)
      · exact .inr (.inr (failure.trans failed))

theorem readAll_error_kind {s : TokenQueue} {e : Error} (noFailure : s.failure = none)
    (words : ∀ t ∈ s.tokens, t.kind = .word → ∃ d, Datum.ofWord t.text = .ok d)
    (h : s.readAll = .error e) : e.kind = .malformedSource := by
  rcases readAll_error_cases h with malformed | ⟨t, member, isWord, refused⟩ | failed
  · exact malformed
  · obtain ⟨d, accepted⟩ := words t member isWord
    exact nomatch accepted.symm.trans refused
  · exact nomatch noFailure.symm.trans failed

/-- The reader gives what a row of phrases stands for, and gives nothing for any other row of
tokens. A row of tokens is a row of phrases in at most one way. If all words stand for something,
rows of phrases are accepted, and other rows are refused as malformed. -/
theorem readAll_iff_phrases (ts : List Token)
    (words : ∀ t ∈ ts, t.kind = .word → ∃ d, Datum.ofWord t.text = .ok d) :
    (∀ ds, (ofTokens ts).readAll = .ok ds ↔
      ∃ fs, tokensAll fs = ts ∧ datumAll fs = .ok ds) ∧
    (∀ fs gs, tokensAll fs = ts → tokensAll gs = ts → fs = gs) ∧
    (∀ fs, tokensAll fs = ts → ∃ ds, (ofTokens ts).readAll = .ok ds) ∧
    ((¬ ∃ fs, tokensAll fs = ts) →
      ∃ e, (ofTokens ts).readAll = .error e ∧ e.kind = .malformedSource) := by
  refine ⟨fun ds => ⟨fun read => ?_, ?_⟩, fun fs gs first second => ?_, ?_, fun none => ?_⟩
  · obtain ⟨fs, written, stands, -⟩ := phrases_of_readAll read
    exact ⟨fs, written, stands⟩
  · rintro ⟨fs, rfl, stands⟩
    exact readAll_tokensAll stands
  · exact tokensAll_injective (first.trans second.symm)
  · rintro fs rfl
    obtain ⟨ds, stands⟩ := exists_datumAll fs words
    exact ⟨ds, readAll_tokensAll stands⟩
  · cases read : (ofTokens ts).readAll with
    | ok ds =>
      obtain ⟨fs, written, -⟩ := phrases_of_readAll read
      exact absurd ⟨fs, written⟩ none
    | error e => exact ⟨e, rfl, readAll_error_kind rfl words read⟩

/-- The row `'('a "b" ()) c`: a quoted list that holds a quoted word, a string and an empty list,
and a word behind it. -/
theorem readAll_iff_phrases_quoted_list :
    let ts : List Token :=
      [⟨.quote, "'"⟩, ⟨.openParen, "("⟩, ⟨.quote, "'"⟩, ⟨.word, "a"⟩, ⟨.string, "\"b\""⟩,
        ⟨.openParen, "("⟩, ⟨.closeParen, ")"⟩, ⟨.closeParen, ")"⟩, ⟨.word, "c"⟩]
    let a := Datum.symbol ⟨"a"⟩
    (∀ t ∈ ts, t.kind = .word → ∃ d, Datum.ofWord t.text = .ok d) ∧
      (ofTokens ts).readAll = .ok
        [(Datum.ofList [a.quoted, .atom (.str "b"), .nil]).quoted, Datum.symbol ⟨"c"⟩] := by
  intro ts a
  have wordA : Datum.ofWord "a" = .ok a :=
    Datum.ofWord_of_no_digit (by decide)
      (by simpa using (by decide : Text.isDecimalDigit 'a' = false))
  have wordC : Datum.ofWord "c" = .ok (Datum.symbol ⟨"c"⟩) :=
    Datum.ofWord_of_no_digit (by decide)
      (by simpa using (by decide : Text.isDecimalDigit 'c' = false))
  have words : ∀ t ∈ ts, t.kind = .word → ∃ d, Datum.ofWord t.text = .ok d := by
    simp [ts, wordA, wordC]
  refine ⟨words, ((readAll_iff_phrases ts words).1 _).2 ?_⟩
  refine ⟨[.quoted "'" (.list "(" [.quoted "'" (.word "a"), .string "\"b\"", .list "(" [] ")"] ")"),
    .word "c"], rfl, ?_⟩
  simp only [datumAll, datum, wordA, wordC]
  rfl

end TokenQueue

/-- Every list in what the reader gives ends with the empty list. -/
theorem Datum.proper_of_readAll {source : String} {ds : List Datum}
    (h : Datum.readAll source = .ok ds) : ∀ d ∈ ds, d.Proper := by
  obtain ⟨fs, -, read, -⟩ := TokenQueue.phrases_of_readAll h
  exact Phrase.forall_datumAll Datum.inherited_proper read fun _ _ => trivial

end SmallLisp
