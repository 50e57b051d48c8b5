import SmallLisp.Datum.Reader
import SmallLisp.Proofs.Failure

/-!
# Phrases

A phrase is a derivation of the grammar of expressions: a word, a string, a quote mark before a
phrase, or phrases between parentheses. It has the tokens that it is written with and, if its
words can be read, the datum that it stands for. Main statement: the grammar is unambiguous, so a
row of tokens is a row of phrases in at most one way (`tokensAll_injective`).
-/

namespace SmallLisp

/-- A derivation of the grammar, with the texts of all tokens in it. -/
inductive Phrase where
  | word (text : String)
  | string (text : String)
  | quoted (mark : String) (body : Phrase)
  | list (opening : String) (items : List Phrase) (closing : String)

namespace Phrase

mutual

/-- The tokens of a phrase, in order. -/
def tokens : Phrase → List Token
  | word text => [⟨.word, text⟩]
  | string text => [⟨.string, text⟩]
  | quoted mark body => ⟨.quote, mark⟩ :: body.tokens
  | list opening items closing =>
    ⟨.openParen, opening⟩ :: (tokensAll items ++ [⟨.closeParen, closing⟩])

/-- The tokens of a row of phrases. -/
def tokensAll : List Phrase → List Token
  | [] => []
  | f :: fs => f.tokens ++ tokensAll fs

end

mutual

/-- What a phrase stands for. It stands for nothing only if one of its words does not. -/
def datum : Phrase → Except Error Datum
  | word text => Datum.ofWord text
  | string text => .ok (.atom (.str (StringLiteral.read text)))
  | quoted _ body => body.datum.map Datum.quoted
  | list _ items _ => (datumAll items).map Datum.ofList

/-- What the phrases of a row stand for. -/
def datumAll : List Phrase → Except Error (List Datum)
  | [] => .ok []
  | f :: fs => do return (← f.datum) :: (← datumAll fs)

end

/-- A phrase behind a row of quote marks. -/
def quotedBy : List String → Phrase → Phrase
  | [], f => f
  | mark :: marks, f => quoted mark (quotedBy marks f)

/-- The tokens of a row of quote marks. -/
def markTokens (marks : List String) : List Token := marks.map (⟨.quote, ·⟩)

@[simp] theorem tokensAll_append (fs gs : List Phrase) :
    tokensAll (fs ++ gs) = tokensAll fs ++ tokensAll gs := by
  induction fs with
  | nil => rfl
  | cons f fs ih => rw [List.cons_append, tokensAll, tokensAll, ih, List.append_assoc]

theorem datumAll_cons_eq_ok {f : Phrase} {fs : List Phrase} {ds : List Datum} :
    datumAll (f :: fs) = .ok ds ↔
      ∃ d rest, f.datum = .ok d ∧ datumAll fs = .ok rest ∧ ds = d :: rest := by
  constructor
  · intro h
    obtain ⟨d, first, h⟩ := Except.bind_eq_ok.1 h
    obtain ⟨rest, others, h⟩ := Except.bind_eq_ok.1 h
    cases h
    exact ⟨d, rest, first, others, rfl⟩
  · rintro ⟨d, rest, first, others, rfl⟩
    rw [datumAll, first, others]
    rfl

theorem datumAll_append {fs gs : List Phrase} {ds es : List Datum} (hf : datumAll fs = .ok ds)
    (hg : datumAll gs = .ok es) : datumAll (fs ++ gs) = .ok (ds ++ es) := by
  induction fs generalizing ds with
  | nil => cases hf; exact hg
  | cons f fs ih =>
    obtain ⟨d, rest, first, others, rfl⟩ := datumAll_cons_eq_ok.1 hf
    exact datumAll_cons_eq_ok.2 ⟨d, rest ++ es, first, ih others, rfl⟩

theorem tokens_quotedBy (marks : List String) (f : Phrase) :
    (quotedBy marks f).tokens = markTokens marks ++ f.tokens := by
  induction marks with
  | nil => rfl
  | cons mark marks ih => rw [quotedBy, tokens, ih]; rfl

/-- The quotes that wait are put on from the inside, the marks are written from the outside. -/
theorem quoted_quotedTimes (n : Nat) (d : Datum) :
    (d.quotedTimes n).quoted = d.quoted.quotedTimes n := by
  induction n generalizing d with
  | zero => rfl
  | succ n ih => exact ih d.quoted

theorem datum_quotedBy {f : Phrase} {d : Datum} (h : f.datum = .ok d) (marks : List String) :
    (quotedBy marks f).datum = .ok (d.quotedTimes marks.length) := by
  induction marks with
  | nil => exact h
  | cons mark marks ih =>
    rw [quotedBy, datum, ih, Except.map, quoted_quotedTimes]
    rfl

mutual

/-- A phrase stands for something if its words do. -/
theorem exists_datum (f : Phrase)
    (words : ∀ t ∈ f.tokens, t.kind = .word → ∃ d, Datum.ofWord t.text = .ok d) :
    ∃ d, f.datum = .ok d := by
  match f with
  | .word text => exact words ⟨.word, text⟩ (by simp [tokens]) rfl
  | .string text => exact ⟨_, rfl⟩
  | .quoted mark body =>
    obtain ⟨d, read⟩ := exists_datum body fun t member => words t (by simp [tokens, member])
    exact ⟨d.quoted, by rw [datum, read]; rfl⟩
  | .list opening items closing =>
    obtain ⟨ds, read⟩ := exists_datumAll items fun t member => words t (by simp [tokens, member])
    exact ⟨Datum.ofList ds, by rw [datum, read]; rfl⟩

theorem exists_datumAll (fs : List Phrase)
    (words : ∀ t ∈ tokensAll fs, t.kind = .word → ∃ d, Datum.ofWord t.text = .ok d) :
    ∃ ds, datumAll fs = .ok ds := by
  match fs with
  | [] => exact ⟨[], rfl⟩
  | f :: fs =>
    rw [tokensAll] at words
    obtain ⟨d, first⟩ := exists_datum f fun t member => words t (List.mem_append_left _ member)
    obtain ⟨ds, others⟩ :=
      exists_datumAll fs fun t member => words t (List.mem_append_right _ member)
    exact ⟨d :: ds, datumAll_cons_eq_ok.2 ⟨d, ds, first, others, rfl⟩⟩

end

mutual

/-- A phrase can be told from what follows it, so no other phrase starts the same tokens. -/
theorem eq_of_tokens_append {f g : Phrase} {r s : List Token}
    (h : f.tokens ++ r = g.tokens ++ s) : f = g ∧ r = s := by
  match f, g with
  | .word _, .word _ => simpa [tokens] using h
  | .string _, .string _ => simpa [tokens] using h
  | .quoted m f, .quoted n g =>
    simp only [tokens, List.cons_append, List.cons.injEq, Token.mk.injEq, true_and] at h
    obtain ⟨rfl, same⟩ := h
    obtain ⟨rfl, rest⟩ := eq_of_tokens_append same
    exact ⟨rfl, rest⟩
  | .list o fs c, .list o' gs c' =>
    simp only [tokens, List.cons_append, List.append_assoc, List.nil_append, List.cons.injEq,
      Token.mk.injEq, true_and] at h
    obtain ⟨rfl, same⟩ := h
    obtain ⟨rfl, rfl, rest⟩ := eq_of_tokensAll_append same
    exact ⟨rfl, rest⟩
  | .word _, .string _ | .word _, .quoted .. | .word _, .list ..
  | .string _, .word _ | .string _, .quoted .. | .string _, .list ..
  | .quoted .., .word _ | .quoted .., .string _ | .quoted .., .list ..
  | .list .., .word _ | .list .., .string _ | .list .., .quoted .. => simp [tokens] at h

/-- The phrases of a list can be told from its end. -/
theorem eq_of_tokensAll_append {fs gs : List Phrase} {c d : String} {r s : List Token}
    (h : tokensAll fs ++ ⟨.closeParen, c⟩ :: r = tokensAll gs ++ ⟨.closeParen, d⟩ :: s) :
    fs = gs ∧ c = d ∧ r = s := by
  match fs, gs with
  | [], [] => simpa [tokensAll] using h
  | f :: fs, g :: gs =>
    rw [tokensAll, tokensAll, List.append_assoc, List.append_assoc] at h
    obtain ⟨rfl, same⟩ := eq_of_tokens_append h
    obtain ⟨rfl, rest⟩ := eq_of_tokensAll_append same
    exact ⟨rfl, rest⟩
  | [], g :: gs => cases g <;> simp [tokensAll, tokens] at h
  | f :: fs, [] => cases f <;> simp [tokensAll, tokens] at h

end

/-- A row of tokens is a row of phrases in at most one way. -/
theorem tokensAll_injective {fs gs : List Phrase} (h : tokensAll fs = tokensAll gs) : fs = gs := by
  refine (eq_of_tokensAll_append (c := "") (d := "") (r := []) (s := []) ?_).1
  rw [h]

end Phrase

namespace Datum

/-- Every list in the datum ends with the empty list. -/
def Proper : Datum → Prop
  | cons head rest => head.Proper ∧ rest.Proper ∧ ∀ a, rest ≠ atom a
  | _ => True

theorem proper_ofList {ds : List Datum} (h : ∀ d ∈ ds, d.Proper) : (ofList ds).Proper := by
  induction ds with
  | nil => trivial
  | cons d ds ih =>
    rw [List.forall_mem_cons] at h
    rw [ofList_cons]
    refine ⟨h.1, ih h.2, fun a => ?_⟩
    cases ds with
    | nil => nofun
    | cons e es =>
      rw [ofList_cons]
      nofun

/-- A word stands for a constant or a number, or for the symbol of its name if it is neither. -/
theorem ofWord_cases {word : String} {d : Datum} (h : ofWord word = .ok d) :
    d = nil ∨ (∃ b, d = atom (.bool b)) ∨
      (∃ numeral n, Numeral.ofChars? word.toList = some numeral ∧ numeral.value = .ok n ∧
        d = atom (.number n)) ∨
      (d = symbol ⟨word⟩ ∧ word ∉ ["nil", "#t", "#f"] ∧
        Numeral.ofChars? word.toList = none) := by
  unfold ofWord at h
  by_cases isNil : word = "nil"
  · rw [if_pos isNil] at h
    cases h
    exact .inl rfl
  rw [if_neg isNil] at h
  by_cases isTrue : word = "#t"
  · rw [if_pos isTrue] at h
    cases h
    exact .inr (.inl ⟨true, rfl⟩)
  rw [if_neg isTrue] at h
  by_cases isFalse : word = "#f"
  · rw [if_pos isFalse] at h
    cases h
    exact .inr (.inl ⟨false, rfl⟩)
  rw [if_neg isFalse] at h
  cases found : Numeral.ofChars? word.toList with
  | some numeral =>
    rw [found] at h
    obtain ⟨n, value, rfl⟩ := Except.map_eq_ok.1 h
    exact .inr (.inr (.inl ⟨numeral, n, rfl, value, rfl⟩))
  | none =>
    rw [found] at h
    cases h
    exact .inr (.inr (.inr ⟨rfl, by simp [isNil, isTrue, isFalse], rfl⟩))

theorem proper_of_ofWord {word : String} {d : Datum} (h : ofWord word = .ok d) : d.Proper := by
  rcases ofWord_cases h with rfl | ⟨b, rfl⟩ | ⟨numeral, n, -, -, rfl⟩ | ⟨rfl, -, -⟩
  all_goals trivial

/-- A property that words and strings give to data and that quoting and lists keep. The words are
only those of tokens that are good. -/
structure Inherited (good : Token → Prop) (C : Datum → Prop) : Prop where
  word : ∀ {text d}, good ⟨.word, text⟩ → ofWord text = .ok d → C d
  string : ∀ s, C (atom (.str s))
  quoted : ∀ {d}, C d → C d.quoted
  list : ∀ {ds}, (∀ d ∈ ds, C d) → C (ofList ds)

/-- Lists end with the empty list because they are made of their elements. -/
theorem inherited_proper : Inherited (fun _ => True) Proper where
  word _ stands := proper_of_ofWord stands
  string _ := trivial
  quoted proper := ⟨trivial, ⟨proper, trivial, nofun⟩, nofun⟩
  list := proper_ofList

end Datum

namespace Phrase

variable {good : Token → Prop} {C : Datum → Prop}

mutual

/-- What a phrase of good tokens stands for has every property that is inherited. -/
theorem forall_datum (inherited : Datum.Inherited good C) {f : Phrase} {d : Datum}
    (h : f.datum = .ok d) (tokens : ∀ t ∈ f.tokens, good t) : C d := by
  match f with
  | .word text => exact inherited.word (tokens _ (by simp [Phrase.tokens])) h
  | .string text => cases h; exact inherited.string _
  | .quoted mark body =>
    obtain ⟨inner, read, rfl⟩ := Except.map_eq_ok.1 h
    have inside : ∀ t ∈ body.tokens, good t := fun t member =>
      tokens t (by simp [Phrase.tokens, member])
    exact inherited.quoted (forall_datum inherited read inside)
  | .list opening items closing =>
    obtain ⟨ds, read, rfl⟩ := Except.map_eq_ok.1 h
    have inside : ∀ t ∈ tokensAll items, good t := fun t member =>
      tokens t (by simp [Phrase.tokens, member])
    exact inherited.list (forall_datumAll inherited read inside)

theorem forall_datumAll (inherited : Datum.Inherited good C) {fs : List Phrase} {ds : List Datum}
    (h : datumAll fs = .ok ds) (tokens : ∀ t ∈ tokensAll fs, good t) : ∀ d ∈ ds, C d := by
  match fs with
  | [] => cases h; nofun
  | f :: fs =>
    obtain ⟨first, others, read, rest, rfl⟩ := datumAll_cons_eq_ok.1 h
    rw [tokensAll, List.forall_mem_append] at tokens
    exact List.forall_mem_cons.2
      ⟨forall_datum inherited read tokens.1, forall_datumAll inherited rest tokens.2⟩

end

end Phrase

end SmallLisp
