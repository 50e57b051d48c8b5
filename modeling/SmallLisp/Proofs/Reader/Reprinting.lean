import SmallLisp.Proofs.Number.FloatText
import SmallLisp.Proofs.Reader.Printing

/-!
# What has been read, written and read again

Everything that the reader gives is written, given enough levels, and its text is read again. What
comes back is the same but for floats that are not finite, which are written as words that stand for
symbols. Main statements: what is read back (`reread`) has the same text (`text_reread`), and it is
the same as what was read if and only if no numeral in the source is out of range
(`readAll_reprinted`).
-/

namespace SmallLisp

/-- A number, and no infinity. -/
def Binary64.isFinite : Binary64 → Bool
  | finite .. => true
  | _ => false

theorem Binary64.isFinite_iff {b : Binary64} : b.isFinite = true ↔
    ∃ negative significand exponent, b = finite negative significand exponent := by
  cases b <;> simp [isFinite]

namespace Datum

/-- What is read back from the text of a datum. The text of a float that is not finite is the name
of a symbol. -/
def reread : Datum → Datum
  | atom (.number (.float x)) =>
    if (Binary64.ofFloat x).isFinite then atom (.number (.float x)) else symbol ⟨Binary64.text x⟩
  | cons head rest => cons head.reread rest.reread
  | d => d

/-- All floats in the datum are finite. -/
def FloatsFinite : Datum → Prop
  | atom (.number (.float x)) => (Binary64.ofFloat x).isFinite = true
  | cons head rest => head.FloatsFinite ∧ rest.FloatsFinite
  | _ => True

theorem reread_eq_self_iff {d : Datum} : d.reread = d ↔ d.FloatsFinite := by
  induction d with
  | nil => simp [reread, FloatsFinite]
  | atom a =>
    match a with
    | .number (.float x) => by_cases h : (Binary64.ofFloat x).isFinite <;>
        simp [reread, FloatsFinite, h, symbol]
    | .number (.int _) | .bool _ | .str _ | .symbol _ => simp [reread, FloatsFinite]
  | cons head rest ihHead ihRest => simp [reread, FloatsFinite, ihHead, ihRest]

theorem reread_ofList (ds : List Datum) : (ofList ds).reread = ofList (ds.map reread) := by
  induction ds with
  | nil => rfl
  | cons d ds ih => simp [reread, ih]

theorem exists_reread_atom (a : Atom) : ∃ b, (atom a).reread = atom b ∧
    ∀ levels, (Value.atom b).text levels = (Value.atom a).text levels := by
  match a with
  | .number (.float x) =>
    by_cases finite : (Binary64.ofFloat x).isFinite
    · exact ⟨_, by rw [reread, if_pos finite], fun _ => rfl⟩
    · refine ⟨_, by rw [reread, if_neg finite, symbol], fun levels => ?_⟩
      cases levels <;> rfl
  | .number (.int _) | .bool _ | .str _ | .symbol _ => exact ⟨_, rfl, fun _ => rfl⟩

/-- What is read back has the same text. -/
theorem text_reread (levels : Nat) (d : Datum) (id id' : Nat) :
    (Value.load d.reread id').1.text levels = (Value.load d id).1.text levels := by
  induction levels generalizing d id id' with
  | zero => rfl
  | succ levels ih =>
    have elements (d : Datum) : ∀ id id', (Value.load d.reread id').1.toList.mapM
        (Value.text levels) = (Value.load d id).1.toList.mapM (Value.text levels) := by
      induction d with
      | nil => exact fun _ _ => rfl
      | atom a =>
        obtain ⟨b, back, -⟩ := exists_reread_atom a
        exact fun _ _ => by rw [back]; rfl
      | cons head rest _ ihRest =>
        intro id id'
        simp only [reread, Value.load, Value.toList_cons, List.mapM_cons]
        rw [ih head id id', ihRest]
    cases d with
    | nil => rfl
    | atom a =>
      obtain ⟨b, back, same⟩ := exists_reread_atom a
      rw [back]
      exact same (levels + 1)
    | cons head rest =>
      have row := elements (cons head rest) id id'
      simp only [reread, Value.load, Value.toList_cons] at row
      simp only [reread, Value.load, Value.text, row]

/-- The datum is written as a phrase that stands for it, whatever identities its cells take. -/
def IsWritten (d : Datum) : Prop := ∀ id, ∃ f, (Value.load d id).1.WrittenAs f

theorem isWritten_of_printable {d : Datum} (h : d.Printable) : d.IsWritten := fun id =>
  (Value.exists_writtenAs (h id)).1

theorem toList_load (d : Datum) (id : Nat) :
    (Value.load d id).1.toList.map Value.erase = d.toList := by
  induction d generalizing id with
  | nil | atom a => rfl
  | cons head rest _ ihRest => simp [Value.load, toList, ihRest]

theorem isWritten_ofList {ds : List Datum} (h : ∀ d ∈ ds, d.IsWritten) :
    (ofList ds).IsWritten := by
  have elements : ∀ id, ∃ fs,
      List.Forall₂ Value.WrittenAs (Value.load (ofList ds) id).1.toList fs := by
    induction ds with
    | nil => exact fun _ => ⟨[], .nil⟩
    | cons d ds ih =>
      intro id
      obtain ⟨f, first⟩ := h d (by simp) id
      obtain ⟨fs, others⟩ := ih (fun e member => h e (List.mem_cons_of_mem d member))
        (Value.load d id).2
      rw [ofList_cons, Value.load, Value.toList_cons]
      exact ⟨f :: fs, .cons first others⟩
  cases ds with
  | nil => exact isWritten_of_printable fun _ => .nil
  | cons d ds =>
    intro id
    obtain ⟨fs, row⟩ := elements id
    have proper : (Value.load (ofList (d :: ds)) id).1.erase =
        ofList ((Value.load (ofList (d :: ds)) id).1.toList.map Value.erase) := by
      rw [toList_load, toList_ofList, Value.erase_load]
    rw [ofList_cons] at row proper ⊢
    exact ⟨_, Value.writtenAs_cons row proper⟩

theorem isWritten_float {x : Float} (finite : (Binary64.ofFloat x).isFinite = true) :
    (atom (.number (.float x))).IsWritten := by
  obtain ⟨negative, significand, exponent, value⟩ := Binary64.isFinite_iff.1 finite
  have stands := Binary64.ofWord_text value
  have nonempty : (Binary64.text x).toList ≠ [] := by
    intro empty
    have word : ofWord "" = .ok (symbol ⟨""⟩) := ofWord_of_no_digit (by decide) nofun
    rw [String.toList_eq_nil_iff.1 empty, word] at stands
    cases stands
  have chars : ∀ c ∈ (Binary64.text x).toList, Lexeme.isWordChar c = true := by
    intro c member
    have marks : ['.', 'e', '+', '-'].all Lexeme.isWordChar = true := by decide
    exact (Binary64.mem_text value member).elim Value.isWordChar_of_isDigit
      (List.all_eq_true.1 marks c)
  exact fun _ => ⟨_, .word _ stands nonempty (List.all_eq_true.2 chars) fun _ => rfl⟩

theorem isReadable_text {x : Float} (infinite : (Binary64.ofFloat x).isFinite = false) :
    Symbol.IsReadable ⟨Binary64.text x⟩ := by
  rw [Binary64.text]
  split
  · exact Symbol.isReadable_of_isWordChar (by decide) (by decide) (by decide) (by decide)
  · split <;>
      exact Symbol.isReadable_of_isWordChar (by decide) (by decide) (by decide) (by decide)
  · rename_i found
    rw [found] at infinite
    cases infinite

/-- What is read back of what the reader gives has a written form. -/
theorem inherited_isWritten : Inherited Token.IsLexical fun d => d.reread.IsWritten where
  word lexical stands := by
    have printable := printable_of_ofWord lexical stands
    rcases ofWord_cases stands with rfl | ⟨b, rfl⟩ | ⟨_, n, -, -, rfl⟩ | ⟨rfl, -, -⟩
    · exact isWritten_of_printable (printable trivial)
    · exact isWritten_of_printable (printable trivial)
    · cases n with
      | int n => exact isWritten_of_printable (printable trivial)
      | float x =>
        rw [reread]
        split
        · rename_i finite
          exact isWritten_float finite
        · rename_i infinite
          have readable := isReadable_text (Bool.not_eq_true _ ▸ infinite)
          exact isWritten_of_printable fun _ => .symbol readable
    · exact isWritten_of_printable (printable trivial)
  string s := isWritten_of_printable fun _ => .str s
  quoted {d} written := by
    have list : d.quoted.reread = ofList [symbol .quote, d.reread] := by
      simp [quoted, reread, symbol]
    rw [list]
    refine isWritten_ofList fun e member => ?_
    simp only [List.mem_cons, List.not_mem_nil, or_false] at member
    rcases member with rfl | rfl
    · exact isWritten_of_printable fun _ => .symbol isReadable_quote
    · exact written
  list {ds} written := by
    rw [reread_ofList]
    refine isWritten_ofList fun e member => ?_
    obtain ⟨d, given, rfl⟩ := List.mem_map.1 member
    exact written d given

end Datum

/-! ### Numerals in range -/

/-- An integer, or a literal of a float whose value is below the bound. -/
def Numeral.InRange : Numeral → Prop
  | int .. => True
  | float _ whole fraction exponent =>
    (Text.decimalValue (whole ++ fraction) : ℚ) * 10 ^ (exponent - fraction.length) <
      Binary64.rangeBound

/-- The token is no word that is a numeral out of range. -/
def Token.InRange (t : Token) : Prop :=
  t.kind = .word → ∀ numeral, Numeral.ofChars? t.text.toList = some numeral → numeral.InRange

/-- A float that a numeral denotes is finite if and only if the numeral is in range. -/
theorem Numeral.isFinite_iff_inRange {numeral : Numeral} {x : Float}
    (h : numeral.value = .ok (.float x)) :
    (Binary64.ofFloat x).isFinite = true ↔ numeral.InRange := by
  cases numeral with
  | int negative digits =>
    rw [Numeral.value] at h
    split at h <;> cases h
  | float negative whole fraction exponent =>
    cases h
    obtain ⟨below, beyond⟩ := Binary64.ofFloat_ofDecimal negative
      ⟨Text.decimalValue (whole ++ fraction), exponent - fraction.length⟩
    rw [Binary64.isFinite_iff]
    constructor
    · rintro ⟨_, _, _, finite⟩
      by_contra large
      rw [beyond (not_lt.1 large)] at finite
      cases finite
    · intro lt
      exact ⟨_, below lt⟩

theorem Numeral.inRange_of_value_int {numeral : Numeral} {n : Int}
    (h : numeral.value = .ok (.int n)) : numeral.InRange := by
  cases numeral with
  | int => trivial
  | float => cases h

namespace Datum

theorem floatsFinite_ofList {ds : List Datum} :
    (ofList ds).FloatsFinite ↔ ∀ d ∈ ds, d.FloatsFinite := by
  induction ds with
  | nil => simp [FloatsFinite]
  | cons d ds ih => simp [FloatsFinite, ih]

/-- Of words, only the numerals of floats out of range stand for floats that are not finite. -/
theorem floatsFinite_ofWord {word : String} {d : Datum} (h : ofWord word = .ok d) :
    d.FloatsFinite ↔ (⟨.word, word⟩ : Token).InRange := by
  cases found : Numeral.ofChars? word.toList with
  | none =>
    refine iff_of_true ?_ fun _ numeral taken => ?_
    · rcases ofWord_cases h with rfl | ⟨b, rfl⟩ | ⟨_, n, taken, -⟩ | ⟨rfl, -⟩
      · trivial
      · trivial
      · rw [found] at taken
        cases taken
      · trivial
    · rw [found] at taken
      cases taken
  | some numeral =>
    have inRange : (⟨.word, word⟩ : Token).InRange ↔ numeral.InRange := by
      simp [Token.InRange, found]
    rw [ofWord_of_numeral found] at h
    obtain ⟨n, value, rfl⟩ := Except.map_eq_ok.1 h
    rw [inRange]
    cases n with
    | int n => exact iff_of_true trivial (Numeral.inRange_of_value_int value)
    | float x => exact Numeral.isFinite_iff_inRange value

end Datum

namespace Phrase

mutual

/-- The floats in what a phrase stands for are finite if its numerals are in range, and only then. -/
theorem floatsFinite_datum {f : Phrase} {d : Datum} (h : f.datum = .ok d) :
    d.FloatsFinite ↔ ∀ t ∈ f.tokens, t.InRange := by
  match f with
  | .word text => simpa [tokens] using Datum.floatsFinite_ofWord h
  | .string text =>
    cases h
    exact iff_of_true trivial (by simp [tokens, Token.InRange])
  | .quoted mark body =>
    obtain ⟨inner, read, rfl⟩ := Except.map_eq_ok.1 h
    have inside := floatsFinite_datum read
    simpa [Datum.quoted, Datum.symbol, Datum.FloatsFinite, tokens, Token.InRange] using inside
  | .list opening items closing =>
    obtain ⟨ds, read, rfl⟩ := Except.map_eq_ok.1 h
    have inside := floatsFinite_datumAll read
    rw [← Datum.floatsFinite_ofList] at inside
    simpa [tokens, or_imp, forall_and, Token.InRange] using inside

theorem floatsFinite_datumAll {fs : List Phrase} {ds : List Datum} (h : datumAll fs = .ok ds) :
    (∀ d ∈ ds, d.FloatsFinite) ↔ ∀ t ∈ tokensAll fs, t.InRange := by
  match fs with
  | [] => cases h; simp [tokensAll]
  | f :: fs =>
    obtain ⟨first, others, read, rest, rfl⟩ := datumAll_cons_eq_ok.1 h
    rw [tokensAll, List.forall_mem_append, List.forall_mem_cons, floatsFinite_datum read,
      floatsFinite_datumAll rest]

end

end Phrase

namespace Datum

/-- The floats that the reader gives are finite if and only if no numeral in the source is out of
range. -/
theorem floatsFinite_readAll {source : String} {ds : List Datum} (h : readAll source = .ok ds) :
    (∀ d ∈ ds, d.FloatsFinite) ↔ ∀ t ∈ (TokenQueue.ofSource source).tokens, t.InRange := by
  obtain ⟨fs, tokens, stands, -⟩ := TokenQueue.phrases_of_readAll h
  rw [← tokens, Phrase.floatsFinite_datumAll stands]

theorem map_reread_eq_self_iff {ds : List Datum} :
    ds.map reread = ds ↔ ∀ d ∈ ds, d.FloatsFinite := by
  have pointwise : ds.map reread = ds ↔ ∀ d ∈ ds, d.reread = d := by
    simpa using List.map_inj_left (l := ds) (f := reread) (g := id)
  simp only [pointwise, reread_eq_self_iff]

/-! ### Written and read again -/

/-- A row of data as it was loaded has the texts of what is read back. -/
theorem mapM_text_reread {vs : List Value} {ds : List Datum}
    (loaded : List.Forall₂ (fun v d => ∃ id, v = (Value.load d id).1) vs ds) (levels : Nat) :
    (ds.map fun d => (Value.load d.reread 0).1).mapM (Value.text levels) =
      vs.mapM (Value.text levels) := by
  induction loaded with
  | nil => rfl
  | @cons v d _ _ first _ ih =>
    obtain ⟨id, rfl⟩ := first
    rw [List.map_cons, List.mapM_cons, List.mapM_cons, ih, text_reread levels d id 0]

/-- The row of what is read back is the text of phrases that stand for it. -/
theorem exists_row_reread {source : String} {ds : List Datum} (h : readAll source = .ok ds) :
    ∃ fs, List.Forall₂ Value.WrittenAs (ds.map fun d => (Value.load d.reread 0).1) fs := by
  refine Value.exists_row fun v member => ?_
  obtain ⟨d, given, rfl⟩ := List.mem_map.1 member
  exact forall_readAll inherited_isWritten h d given 0

/-- Everything that the reader gives is written, and its text is read again. What comes back differs
from what was given only where a float is not finite, and there it is a symbol. So it is the same if
and only if the source has no numeral out of range. -/
theorem readAll_reprinted {source : String} {ds : List Datum} (read : readAll source = .ok ds)
    {vs : List Value} (loaded : List.Forall₂ (fun v d => ∃ id, v = (Value.load d id).1) vs ds) :
    ∃ n, ∀ levels, n ≤ levels → ∃ texts, vs.mapM (Value.text levels) = .ok texts ∧
      readAll (" ".intercalate texts) = .ok (ds.map reread) ∧
      (readAll (" ".intercalate texts) = .ok ds ↔
        ∀ t ∈ (TokenQueue.ofSource source).tokens, t.InRange) := by
  obtain ⟨fs, row⟩ := exists_row_reread read
  obtain ⟨n, reads⟩ := Value.readAll_of_writtenAs row
  have shapes : (ds.map fun d => (Value.load d.reread 0).1).map Value.erase = ds.map reread := by
    simp [Function.comp_def]
  rw [shapes] at reads
  refine ⟨n, fun levels enough => ?_⟩
  obtain ⟨texts, text, back⟩ := reads levels enough
  refine ⟨texts, (mapM_text_reread loaded levels).symm.trans text, back, ?_⟩
  rw [back, Except.ok.injEq, map_reread_eq_self_iff, floatsFinite_readAll read]

/-- A list with floats of both notations, one of them without digits before the point, and a string
that looks like a float out of range. -/
theorem readAll_reprinted_sum :
    let source := "(+ .1 0.0000002) \"1e400\""
    let ds := [ofList [symbol ⟨"+"⟩, atom (.number (.float 0.1)), atom (.number (.float 2e-7))],
      atom (.str "1e400")]
    let vs := ds.map fun d => (Value.load d 0).1
    readAll source = .ok ds ∧ List.Forall₂ (fun v d => ∃ id, v = (Value.load d id).1) vs ds ∧
      (∃ n, ∀ levels, n ≤ levels → ∃ texts, vs.mapM (Value.text levels) = .ok texts ∧
        readAll (" ".intercalate texts) = .ok ds) ∧
      ∀ t ∈ (TokenQueue.ofSource source).tokens, t.InRange := by
  intro source ds vs
  have read : readAll source = .ok ds := by decide +kernel
  have loaded : List.Forall₂ (fun v d => ∃ id, v = (Value.load d id).1) vs ds := by
    rw [List.forall₂_map_left_iff, List.forall₂_same]
    exact fun d _ => ⟨0, rfl⟩
  obtain ⟨n, reads⟩ := readAll_reprinted read loaded
  have unchanged : ds.map reread = ds := by decide +kernel
  rw [unchanged] at reads
  obtain ⟨_, -, back, same⟩ := reads n (Nat.le_refl n)
  refine ⟨read, loaded, ⟨n, fun levels enough => ?_⟩, same.1 back⟩
  obtain ⟨texts, text, back, -⟩ := reads levels enough
  exact ⟨texts, text, back⟩

/-- The literal of an infinite float is written as a word that is read as a symbol, so that what has
been read is not always read back from its text. -/
theorem infinite_literal_reread :
    ¬ ∀ source ds, readAll source = .ok ds →
      ∀ vs, List.Forall₂ (fun v d => ∃ id, v = (Value.load d id).1) vs ds →
      ∃ n, ∀ levels, n ≤ levels → ∃ texts, vs.mapM (Value.text levels) = .ok texts ∧
        readAll (" ".intercalate texts) = .ok ds := by
  intro claim
  let infinity : Float := Binary64.withSign false Binary64.infinityBits
  have read : readAll "1e400" = .ok [atom (.number (.float infinity))] := by decide +kernel
  have back : readAll "inf" = .ok [symbol ⟨"inf"⟩] := by decide +kernel
  have text : Binary64.text infinity = "inf" := by decide +kernel
  obtain ⟨n, reads⟩ := claim _ _ read [.number (.float infinity)] (.cons ⟨0, rfl⟩ .nil)
  obtain ⟨texts, written, same⟩ := reads (n + 1) (Nat.le_succ n)
  have row : [Value.number (.float infinity)].mapM (Value.text (n + 1)) = .ok ["inf"] := by
    rw [← text]
    rfl
  rw [row] at written
  cases written
  have joined : " ".intercalate ["inf"] = "inf" := by decide
  rw [joined, back] at same
  cases same

end Datum

end SmallLisp
