import SmallLisp.Proofs.Reader.Grammar

/-!
# The reader between two expressions

The reader looks at no token behind the expression that it gives, refuses at the first token with
which no expression can go on, and starts afresh behind what it has used up. What it goes on with
can be completed, because a half-read expression can be (`Pending.begins_of_after`); what it
refuses cannot, because the tokens of an expression are all accepted
(`Pending.not_begins_of_refused`). Main statement: one call, and any number of calls one after the
other, do just that (`TokenQueue.calls_resume`).
-/

namespace SmallLisp

open Phrase

namespace Phrase

/-- The tokens are the beginning of some expression. -/
def Begins (ts : List Token) : Prop := ∃ f : Phrase, ts <+: f.tokens

/-- The token, or another word in place of one that stands for nothing. -/
def readableToken (t : Token) : Token :=
  match t.kind, Datum.ofWord t.text with
  | .word, .error _ => ⟨.word, "nil"⟩
  | _, _ => t

theorem readableToken_of_ne_word {t : Token} (h : t.kind ≠ .word) : readableToken t = t := by
  unfold readableToken
  split
  · rename_i word _
    exact absurd word h
  · rfl

theorem readableToken_of_ofWord {t : Token} {d : Datum} (h : Datum.ofWord t.text = .ok d) :
    readableToken t = t := by
  unfold readableToken
  split
  · rename_i refused
    rw [h] at refused
    cases refused
  · rfl

theorem exists_readableToken (text : String) :
    ∃ readable, readableToken ⟨.word, text⟩ = ⟨.word, readable⟩ ∧
      ∃ d, Datum.ofWord readable = .ok d := by
  cases word : Datum.ofWord text with
  | ok d => exact ⟨text, readableToken_of_ofWord word, d, word⟩
  | error e => exact ⟨"nil", by simp [readableToken, word], .nil, rfl⟩

mutual

/-- Words that stand for nothing can be replaced in an expression. -/
theorem exists_readable (f : Phrase) :
    ∃ g : Phrase, g.tokens = f.tokens.map readableToken ∧ ∃ d, g.datum = .ok d := by
  match f with
  | .word text =>
    obtain ⟨readable, replaced, stands⟩ := exists_readableToken text
    exact ⟨.word readable, by simp [tokens, replaced], stands⟩
  | .string text => exact ⟨.string text, by simp [tokens, readableToken_of_ne_word], _, rfl⟩
  | .quoted mark body =>
    obtain ⟨g, written, d, stands⟩ := exists_readable body
    refine ⟨.quoted mark g, by simp [tokens, written, readableToken_of_ne_word], d.quoted, ?_⟩
    rw [datum, stands]
    rfl
  | .list opening items closing =>
    obtain ⟨gs, written, ds, stand⟩ := exists_readableAll items
    refine ⟨.list opening gs closing, by simp [tokens, written, readableToken_of_ne_word],
      Datum.ofList ds, ?_⟩
    rw [datum, stand]
    rfl

theorem exists_readableAll (fs : List Phrase) :
    ∃ gs, tokensAll gs = (tokensAll fs).map readableToken ∧ ∃ ds, datumAll gs = .ok ds := by
  match fs with
  | [] => exact ⟨[], rfl, [], rfl⟩
  | f :: fs =>
    obtain ⟨g, first, d, stands⟩ := exists_readable f
    obtain ⟨gs, others, ds, stand⟩ := exists_readableAll fs
    exact ⟨g :: gs, by simp [tokensAll, first, others], d :: ds,
      datumAll_cons_eq_ok.2 ⟨d, ds, stands, stand, rfl⟩⟩

end

/-- If the words so far stand for something, the expression that goes on can be one that does. -/
theorem Begins.exists_datum {ts : List Token} (h : Begins ts)
    (words : ∀ t ∈ ts, t.kind = .word → ∃ d, Datum.ofWord t.text = .ok d) :
    ∃ (f : Phrase) (d : Datum) (more : List Token),
      f.datum = .ok d ∧ f.tokens = ts ++ more := by
  obtain ⟨f, more, written⟩ := h
  obtain ⟨g, replaced, d, stands⟩ := exists_readable f
  have kept : ts.map readableToken = ts := by
    refine (List.map_congr_left fun t member => ?_).trans (List.map_id ts)
    by_cases word : t.kind = .word
    · obtain ⟨d, stands⟩ := words t member word
      exact readableToken_of_ofWord stands
    · exact readableToken_of_ne_word word
  refine ⟨g, d, more.map readableToken, stands, ?_⟩
  rw [replaced, ← written, List.map_append, kept]

end Phrase

namespace Pending

/-- Any expression can come next, and what is half-read can be completed behind it. -/
theorem exists_completion {p : Pending} {before : List Token} (h : p.After before) (next : Phrase) :
    ∃ (f : Phrase) (more : List Token), f.tokens = before ++ next.tokens ++ more := by
  induction p generalizing before next with
  | outside quotes =>
    obtain ⟨marks, -, rfl⟩ := h
    exact ⟨quotedBy marks next, [], by rw [tokens_quotedBy, List.append_nil]⟩
  | inside outer latestFirst quotes ih =>
    obtain ⟨start, opening, items, marks, around, -, -, rfl⟩ := h
    obtain ⟨f, more, written⟩ := ih around (.list opening (items ++ [quotedBy marks next]) ")")
    refine ⟨f, ⟨.closeParen, ")"⟩ :: more, ?_⟩
    simp [written, tokens, tokensAll, tokens_quotedBy]

/-- What is half-read can be completed. -/
theorem begins_of_after {p : Pending} {before : List Token} (h : p.After before) :
    Begins before := by
  obtain ⟨f, more, written⟩ := exists_completion h (.list "(" [] ")")
  exact ⟨f, written ▸ (List.prefix_append before _).trans (List.prefix_append _ more)⟩

theorem feed_append {p q : Pending} {ts : List Token} (h : p.feed ts = .ranOut q)
    (rest : List Token) : p.feed (ts ++ rest) = q.feed rest := by
  induction ts generalizing p with
  | nil => cases h; rfl
  | cons t ts ih =>
    rw [feed_cons] at h
    rw [List.cons_append, feed_cons]
    cases read : p.step t with
    | error e => rw [read] at h; cases h
    | ok progress =>
      rw [read] at h
      cases progress with
      | complete d => cases h
      | more next => exact ih h

/-- A run that fails goes on up to the token that is refused. -/
theorem refused_of_feed {p : Pending} {ts rest : List Token} {e : Error}
    (h : p.feed ts = .done (.error e) rest) :
    ∃ before t q, ts = before ++ t :: rest ∧ p.feed before = .ranOut q ∧ q.step t = .error e := by
  induction ts generalizing p with
  | nil => cases h
  | cons t ts ih =>
    rw [feed_cons] at h
    cases read : p.step t with
    | error e' =>
      rw [read] at h
      cases h
      exact ⟨[], t, p, rfl, rfl, read⟩
    | ok progress =>
      rw [read] at h
      cases progress with
      | complete d => cases h
      | more next =>
        obtain ⟨before, t', q, rfl, fed, refused⟩ := ih h
        refine ⟨t :: before, t', q, rfl, ?_, refused⟩
        rw [feed_cons, read]
        exact fed

/-- No expression goes on with a token that is refused. -/
theorem not_begins_of_refused {before : List Token} {t : Token} {q : Pending} {e : Error}
    (words : ∀ t' ∈ before ++ [t], t'.kind = .word → ∃ d, Datum.ofWord t'.text = .ok d)
    (fed : start.feed before = .ranOut q) (refused : q.step t = .error e) :
    ¬Begins (before ++ [t]) := by
  intro begins
  obtain ⟨f, d, more, stands, written⟩ := begins.exists_datum words
  have whole := feed_tokens stands start []
  rw [List.append_nil, written, List.append_assoc, feed_append fed, List.singleton_append,
    feed_cons, refused] at whole
  cases whole

end Pending

namespace TokenQueue

/-- What is reported when the tokens of a queue do not suffice: the failure that waits behind them,
the end of input if there are none, and else that an expression is not finished. -/
inductive AtEnd (s : TokenQueue) : Except Error (Option Datum) → Prop
  | failed (e : Error) : s.failure = some e → AtEnd s (.error e)
  | empty : s.failure = none → s.tokens = [] → AtEnd s (.ok none)
  | unfinished (e : Error) : s.failure = none → s.tokens ≠ [] → e.kind = .malformedSource →
    AtEnd s (.error e)

/-- The queue is what another one leaves: the last of its tokens, and its failure if that has not
been reported. -/
def LeftOf (s left : TokenQueue) : Prop :=
  left.tokens <:+ s.tokens ∧ (left.failure = s.failure ∨ left = ofTokens [])

theorem LeftOf.trans {s t u : TokenQueue} (first : LeftOf s t) (second : LeftOf t u) :
    LeftOf s u := by
  refine ⟨second.1.trans first.1, ?_⟩
  rcases second.2 with same | empty
  · rcases first.2 with also | rfl
    · exact .inl (same.trans also)
    · obtain ⟨tokens, failure⟩ := u
      obtain rfl : tokens = [] := List.suffix_nil.1 second.1
      cases same
      exact .inr rfl
  · exact .inr empty

/-- A queue is read up to the end of a phrase, up to the token that is refused, or to its end. -/
theorem next_cases (s : TokenQueue) :
    (∃ (f : Phrase) (d : Datum) (rest : List Token), f.datum = .ok d ∧
      s.tokens = f.tokens ++ rest ∧ s.next = (.ok (some d), ⟨rest, s.failure⟩)) ∨
    (∃ before t rest q e, s.tokens = before ++ t :: rest ∧
      Pending.start.feed before = .ranOut q ∧ q.step t = .error e ∧
      s.next = (.error e, ⟨rest, s.failure⟩)) ∨
    (∃ q, Pending.start.feed s.tokens = .ranOut q ∧
      s.next = (match s.failure with
        | some e => .error e
        | none => q.finish.map fun _ => none, ofTokens [])) := by
  cases fed : Pending.start.feed s.tokens with
  | done result rest =>
    have next : s.next = (result.map some, ⟨rest, s.failure⟩) := by simp only [next, fed]
    cases result with
    | ok d =>
      obtain ⟨f, used, stands, split, written⟩ := Pending.phrase_of_feed Pending.after_start fed
      rw [List.nil_append] at written
      exact .inl ⟨f, d, rest, stands, by rw [split, written], next⟩
    | error e =>
      obtain ⟨before, t, q, split, reached, refused⟩ := Pending.refused_of_feed fed
      exact .inr (.inl ⟨before, t, rest, q, e, split, reached, refused, next⟩)
  | ranOut q =>
    refine .inr (.inr ⟨q, rfl, ?_⟩)
    simp only [next, fed]
    cases s.failure <;> rfl

theorem leftOf_next (s : TokenQueue) : LeftOf s s.next.2 := by
  rcases next_cases s with ⟨f, d, rest, -, split, next⟩ |
    ⟨before, t, rest, q, e, split, -, -, next⟩ | ⟨q, -, next⟩
  · rw [next]
    exact ⟨⟨f.tokens, split.symm⟩, .inl rfl⟩
  · rw [next]
    exact ⟨⟨before ++ [t], by rw [split, List.append_assoc]; rfl⟩, .inl rfl⟩
  · rw [next]
    exact ⟨List.nil_suffix, .inr rfl⟩

/-- Where the tokens do not suffice, something is half-read unless there are none. -/
theorem atEnd_of_ranOut {s : TokenQueue} {q : Pending}
    (fed : Pending.start.feed s.tokens = .ranOut q) :
    AtEnd s (match s.failure with
      | some e => .error e
      | none => q.finish.map fun _ => none) := by
  cases failure : s.failure with
  | some e => exact .failed e failure
  | none =>
    cases finished : q.finish with
    | ok _ =>
      obtain rfl := Pending.eq_start_of_finish finished
      obtain ⟨marks, none, written⟩ := Pending.after_of_ranOut Pending.after_start fed
      obtain rfl := List.length_eq_zero_iff.1 none
      exact .empty failure written
    | error e =>
      refine .unfinished e failure (fun empty => ?_) (Pending.finish_error_kind finished)
      rw [empty] at fed
      cases fed
      cases finished

/-- Without a phrase at the front, the first token with which no expression can go on is refused,
or the tokens come to their end before that. -/
theorem next_of_no_phrase {s : TokenQueue}
    (words : ∀ t ∈ s.tokens, t.kind = .word → ∃ d, Datum.ofWord t.text = .ok d)
    (none : ¬∃ (f : Phrase) (rest : List Token), s.tokens = f.tokens ++ rest) :
    (∃ before t rest e, s.tokens = before ++ t :: rest ∧
      Begins before ∧ ¬Begins (before ++ [t]) ∧
      e.kind = .malformedSource ∧ s.next = (.error e, ⟨rest, s.failure⟩)) ∨
    (Begins s.tokens ∧ ∃ result, AtEnd s result ∧ s.next = (result, ofTokens [])) := by
  rcases next_cases s with ⟨f, d, rest, -, split, -⟩ |
    ⟨before, t, rest, q, e, split, fed, refused, next⟩ | ⟨q, fed, next⟩
  · exact absurd ⟨f, rest, split⟩ none
  · have wordsTo : ∀ t' ∈ before ++ [t], t'.kind = .word →
        ∃ d, Datum.ofWord t'.text = .ok d := by
      intro t' member
      refine words t' ?_
      rw [split, List.append_cons]
      exact List.mem_append_left rest member
    exact .inl ⟨before, t, rest, e, split,
      Pending.begins_of_after (Pending.after_of_ranOut Pending.after_start fed),
      Pending.not_begins_of_refused wordsTo fed refused,
      Pending.step_error_malformed (wordsTo t (by simp)) refused, next⟩
  · exact .inr ⟨Pending.begins_of_after (Pending.after_of_ranOut Pending.after_start fed),
      _, atEnd_of_ranOut fed, next⟩

/-- The results of so many calls one after the other, and the queue that they leave. -/
def calls : Nat → TokenQueue → List (Except Error (Option Datum)) × TokenQueue
  | 0, s => ([], s)
  | k + 1, s =>
    let (results, left) := calls k s.next.2
    (s.next.1 :: results, left)

theorem calls_succ (k : Nat) (s : TokenQueue) :
    calls (k + 1) s = (s.next.1 :: (calls k s.next.2).1, (calls k s.next.2).2) := rfl

/-- One call more is a call on what is left. -/
theorem calls_succ_last (k : Nat) (s : TokenQueue) :
    calls (k + 1) s = ((calls k s).1 ++ [(calls k s).2.next.1], (calls k s).2.next.2) := by
  induction k generalizing s with
  | zero => rfl
  | succ k ih => rw [calls_succ, ih, calls_succ, List.cons_append]

theorem leftOf_calls (k : Nat) (s : TokenQueue) : LeftOf s (calls k s).2 := by
  induction k generalizing s with
  | zero => exact ⟨List.suffix_refl _, .inl rfl⟩
  | succ k ih => exact (leftOf_next s).trans (ih s.next.2)

/-- An empty queue is at its end for ever. -/
theorem calls_empty (k : Nat) :
    calls k (ofTokens []) = (List.replicate k (.ok none), ofTokens []) := by
  induction k with
  | zero => rfl
  | succ k ih =>
    rw [calls_succ]
    show (_ :: (calls k (ofTokens [])).1, (calls k (ofTokens [])).2) = _
    rw [ih, List.replicate_succ]
    rfl

/-- A row of phrases is given one by one, and then what stands behind them is read. -/
theorem calls_tokensAll {fs : List Phrase} {ds : List Datum} (h : datumAll fs = .ok ds)
    (rest : List Token) (failure : Option Error) (k : Nat) :
    (calls k ⟨tokensAll fs ++ rest, failure⟩).1 =
      (ds.map fun d => .ok (some d)).take k ++ (calls (k - ds.length) ⟨rest, failure⟩).1 := by
  induction fs generalizing ds k with
  | nil => cases h; simp [tokensAll]
  | cons f fs ih =>
    obtain ⟨d, others, first, read, rfl⟩ := datumAll_cons_eq_ok.1 h
    cases k with
    | zero => simp [calls]
    | succ k =>
      rw [calls_succ, tokensAll, List.append_assoc, next_of_phrase first, ih read]
      simp

/-- An error of the whole comes from a call behind the phrases that can be read. -/
theorem phrases_of_readAll_error {s : TokenQueue} {e : Error} (h : s.readAll = .error e) :
    ∃ fs ds rest, datumAll fs = .ok ds ∧ s.tokens = tokensAll fs ++ rest ∧
      (next ⟨rest, s.failure⟩).1 = .error e := by
  fun_induction readAll s with
  | case1 s e' rest next =>
    cases h
    exact ⟨[], [], s.tokens, rfl, rfl, congrArg Prod.fst next⟩
  | case2 s rest next => cases h
  | case3 s d rest next ih =>
    obtain ⟨f, stands, written, failure⟩ := phrase_of_next next
    cases others : rest.readAll with
    | ok es => rw [others] at h; cases h
    | error e' =>
      rw [others] at h
      cases h
      obtain ⟨fs, ds, left, read, behind, refused⟩ := ih others
      refine ⟨f :: fs, d :: ds, left, datumAll_cons_eq_ok.2 ⟨d, ds, stands, read, rfl⟩, ?_, ?_⟩
      · rw [written, behind, tokensAll, List.append_assoc]
      · rw [failure, refused]

/-- The reader uses up the expression at the front of a queue and no token behind it. If there is
none, it refuses the first token with which no expression can go on, having used up the tokens up
to it; if all tokens can go on to an expression, it uses them up and fails there, or finds the end
of input if there are none. A further call starts afresh on what is left. So calls one after the
other give the expressions of the whole queue, and then the end of input for ever, or the error that
reading the whole gives. -/
theorem calls_resume (s : TokenQueue)
    (words : ∀ t ∈ s.tokens, t.kind = .word → ∃ d, Datum.ofWord t.text = .ok d) :
    (∀ (f : Phrase) (rest : List Token), s.tokens = f.tokens ++ rest →
      ∃ d, f.datum = .ok d ∧ s.next = (.ok (some d), ⟨rest, s.failure⟩)) ∧
    ((¬∃ (f : Phrase) (rest : List Token), s.tokens = f.tokens ++ rest) →
      (∃ before t rest e, s.tokens = before ++ t :: rest ∧
        Begins before ∧ ¬Begins (before ++ [t]) ∧
        e.kind = .malformedSource ∧ s.next = (.error e, ⟨rest, s.failure⟩)) ∨
      (Begins s.tokens ∧ ∃ result, AtEnd s result ∧ s.next = (result, ofTokens []))) ∧
    (∀ k, calls (k + 1) s = ((calls k s).1 ++ [(calls k s).2.next.1], (calls k s).2.next.2) ∧
      LeftOf s (calls k s).2) ∧
    (∀ ds, s.readAll = .ok ds → ∀ k, (calls k s).1 =
      (ds.map fun d => .ok (some d)).take k ++ List.replicate (k - ds.length) (.ok none)) ∧
    (∀ e, s.readAll = .error e → ∃ ds : List Datum, (calls (ds.length + 1) s).1 =
      (ds.map fun d => .ok (some d)) ++ [.error e]) := by
  refine ⟨fun f rest split => ?_, next_of_no_phrase words, fun k => ?_, fun ds read k => ?_,
    fun e failed => ?_⟩
  · have wordsOf : ∀ t ∈ f.tokens, t.kind = .word → ∃ d, Datum.ofWord t.text = .ok d :=
      fun t member => words t (split ▸ List.mem_append_left rest member)
    obtain ⟨d, stands⟩ := exists_datum f wordsOf
    obtain ⟨tokens, failure⟩ := s
    cases split
    exact ⟨d, stands, next_of_phrase stands rest failure⟩
  · exact ⟨calls_succ_last k s, leftOf_calls k s⟩
  · obtain ⟨fs, written, stand, noFailure⟩ := phrases_of_readAll read
    obtain ⟨tokens, failure⟩ := s
    cases written
    cases noFailure
    have given := calls_tokensAll stand [] none k
    rw [List.append_nil] at given
    rw [given, ← ofTokens, calls_empty]
  · obtain ⟨fs, ds, rest, stand, split, refused⟩ := phrases_of_readAll_error failed
    obtain ⟨tokens, failure⟩ := s
    cases split
    have last : (calls 1 ⟨rest, failure⟩).1 = [.error e] := congrArg (· :: []) refused
    have given := calls_tokensAll stand rest failure (ds.length + 1)
    rw [Nat.add_sub_cancel_left, last, List.take_of_length_le (by simp)] at given
    exact ⟨ds, given⟩

/-- Behind the row `'("b")` the end of input is found again and again. -/
theorem calls_resume_quoted_list :
    let s := ofTokens [⟨.quote, "'"⟩, ⟨.openParen, "("⟩, ⟨.string, "\"b\""⟩, ⟨.closeParen, ")"⟩]
    (∀ t ∈ s.tokens, t.kind = .word → ∃ d, Datum.ofWord t.text = .ok d) ∧
      (calls 3 s).1 =
        [.ok (some (Datum.ofList [.atom (.str "b")]).quoted), .ok none, .ok none] := by
  intro s
  have words : ∀ t ∈ s.tokens, t.kind = .word → ∃ d, Datum.ofWord t.text = .ok d := by
    simp [s, ofTokens]
  have stands : datumAll [.quoted "'" (.list "(" [.string "\"b\""] ")")] =
      .ok [(Datum.ofList [.atom (.str "b")]).quoted] := rfl
  have read : s.readAll = .ok [(Datum.ofList [.atom (.str "b")]).quoted] :=
    readAll_tokensAll stands
  exact ⟨words, (calls_resume s words).2.2.2.1 _ read 3⟩

end TokenQueue

end SmallLisp
