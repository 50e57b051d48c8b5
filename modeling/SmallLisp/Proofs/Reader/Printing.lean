import Mathlib.Data.List.Forall2
import SmallLisp.Proofs.Number.IntegerText
import SmallLisp.Proofs.Reader.Grammar
import SmallLisp.Proofs.Reader.Lexing
import SmallLisp.Value.Text

/-!
# What is written reads back

The data that have a written form are the constants, integers that are not too long, strings,
symbols whose names are words of no other meaning, and lists of these. Each is written as a phrase
that stands for it (`WrittenAs`), and so are the elements of a row (`text_row`). Main statement:
a row of such data is read back from its text, and the reader gives no others, floats apart
(`readAll_printed`).
-/

namespace SmallLisp

open Text

/-- The name of a symbol is a word of its own, and not one that means a constant or a number. -/
structure Symbol.IsReadable (s : Symbol) : Prop where
  nonempty : s.name ≠ ""
  word : ∀ c ∈ s.name.toList, isBlank c = false ∧ c ∉ ['(', ')', '\x27', '"', ';']
  notConstant : s.name ∉ ["nil", "#t", "#f"]
  notNumeral : Numeral.ofChars? s.name.toList = none

namespace Value

/-- The values that have a written form, made of constants, integers, strings, symbols and lists. -/
inductive Printable : Value → Prop
  | nil : Printable nil
  | bool (b : Bool) : Printable (bool b)
  | int {n : Int} (short : Number.isWritable n = true) : Printable (number (.int n))
  | str (s : String) : Printable (atom (.str s))
  | symbol {s : Symbol} (readable : s.IsReadable) : Printable (symbol s)
  | cons {id : Nat} {head rest : Value} (first : Printable head) (others : Printable rest)
      (list : rest.isList = true) : Printable (cons id head rest)

/-- The value is written as the phrase, given enough levels, and the phrase stands for it. -/
structure WrittenAs (v : Value) (f : Phrase) : Prop where
  datum : f.datum = .ok v.erase
  lexical : ∀ t ∈ f.tokens, t.IsLexical
  text : ∃ n, ∀ levels, n ≤ levels → v.text levels = .ok (String.ofList f.layout)

end Value

namespace Symbol

theorem isWordChar_of_mem_name {s : Symbol} (h : s.IsReadable) :
    ∀ c ∈ s.name.toList, Lexeme.isWordChar c = true := by
  intro c member
  obtain ⟨blank, others⟩ := h.word c member
  simp only [List.mem_cons, List.not_mem_nil, or_false, not_or] at others
  simp [Lexeme.isWordChar, blank, others, Token.quoteMark]

theorem isReadable_of_isWordChar {s : Symbol} (nonempty : s.name ≠ "")
    (chars : s.name.toList.all Lexeme.isWordChar = true)
    (notConstant : s.name ∉ ["nil", "#t", "#f"])
    (notNumeral : Numeral.ofChars? s.name.toList = none) : s.IsReadable where
  nonempty := nonempty
  word c member := by
    have word := Lexeme.of_isWordChar (List.all_eq_true.1 chars c member)
    simpa [Token.quoteMark] using word
  notConstant := notConstant
  notNumeral := notNumeral

theorem ofWord_name {s : Symbol} (h : s.IsReadable) :
    Datum.ofWord s.name = .ok (Datum.symbol s) := by
  have constants := h.notConstant
  simp only [List.mem_cons, List.not_mem_nil, or_false, not_or] at constants
  simp [Datum.ofWord, constants, h.notNumeral]

/-- A word that stands for a symbol is the name of one that can be read. -/
theorem isReadable_of_ofWord {word : String} {s : Symbol}
    (lexical : (⟨.word, word⟩ : Token).IsLexical)
    (h : Datum.ofWord word = .ok (Datum.symbol s)) : s.IsReadable := by
  rcases Datum.ofWord_cases h with isNil | ⟨b, isBool⟩ | ⟨_, n, -, -, isNumber⟩ |
    ⟨isSymbol, notConstant, notNumeral⟩
  · cases isNil
  · cases isBool
  · cases isNumber
  · cases isSymbol
    refine ⟨?_, ?_, notConstant, notNumeral⟩
    · rintro rfl
      exact lexical.1 rfl
    · intro c member
      obtain ⟨blank, rest⟩ := Lexeme.of_isWordChar (lexical.2 c member)
      exact ⟨blank, by simpa [Token.quoteMark] using rest⟩

end Symbol

namespace StringLiteral

/-- The inside of a written string closes at its end. -/
theorem afterString?_encode (s rest : List Char) :
    Lexeme.afterString? (encode s ++ '"' :: rest) = some rest := by
  induction s with
  | nil => rfl
  | cons c s ih =>
    rw [encode, List.flatMap_cons, ← encode, List.append_assoc]
    by_cases quote : c = '"'
    · simpa [encodeChar, quote, Lexeme.afterString?] using ih
    · by_cases backslash : c = '\\'
      · simpa [encodeChar, backslash, Lexeme.afterString?] using ih
      · by_cases newline : c = '\n'
        · simpa [encodeChar, newline, Lexeme.afterString?] using ih
        · simpa [encodeChar, quote, backslash, newline, Lexeme.afterString?] using ih

theorem isLexical_write (s : String) : (⟨.string, write s⟩ : Token).IsLexical := by
  refine ⟨encode s.toList ++ ['"'], by rw [write, String.toList_ofList], fun rest => ?_⟩
  rw [List.append_assoc]
  exact afterString?_encode s.toList rest

end StringLiteral

namespace Phrase

/-- The texts of a row of phrases, with a space between two, are the text of the row. -/
theorem intercalate_layout (fs : List Phrase) :
    " ".intercalate (fs.map fun f => String.ofList f.layout) = String.ofList (layoutAll fs) := by
  have behind : ∀ (fs : List Phrase) (f : Phrase),
      " ".intercalate ((f :: fs).map fun f => String.ofList f.layout) =
        String.ofList (f.layout ++ layoutBehind fs) := by
    intro fs
    induction fs with
    | nil => intro f; simp [layoutBehind]
    | cons g fs ih =>
      intro f
      rw [List.map_cons, List.map_cons, String.intercalate_cons_cons]
      have others := ih g
      rw [List.map_cons] at others
      rw [others, layoutBehind, ← String.toList_inj]
      simp
  cases fs with
  | nil => rfl
  | cons f fs => exact behind fs f

end Phrase

namespace Value

open Phrase

theorem WrittenAs.word {v : Value} (word : String) (stands : Datum.ofWord word = .ok v.erase)
    (nonempty : word.toList ≠ []) (chars : word.toList.all Lexeme.isWordChar = true)
    (text : ∀ levels, v.text (levels + 1) = .ok word) : v.WrittenAs (.word word) := by
  refine ⟨stands, ?_, 1, fun levels enough => ?_⟩
  · intro t member
    obtain rfl := List.mem_singleton.1 member
    exact ⟨nonempty, List.all_eq_true.1 chars⟩
  · obtain ⟨levels, rfl⟩ := Nat.exists_eq_add_of_le' enough
    rw [text, layout, String.ofList_toList]

theorem isWordChar_of_isDigit {c : Char} (h : c.isDigit = true) :
    Lexeme.isWordChar c = true := by
  have bounds : 48 ≤ c.toNat ∧ c.toNat < 58 := bounds_of_isDigit h
  have blank : isBlank c = false := by
    rw [Bool.eq_false_iff]
    intro blank
    obtain ⟨range, member, low, high⟩ := CodeRanges.contains_iff.1 blank
    have outside : ∀ range ∈ blankRanges, range.2 < 48 ∨ 58 ≤ range.1 := by decide
    have := outside range member
    omega
  have others (d : Char) (stops : d.isDigit = false) : c ≠ d := by
    rintro rfl
    rw [stops] at h
    cases h
  simp [Lexeme.isWordChar, blank, others '(' (by decide), others ')' (by decide),
    others Token.quoteMark (by decide), others '"' (by decide), others ';' (by decide)]

theorem writtenAs_int {n : Int} (short : Number.isWritable n = true) :
    (number (.int n)).WrittenAs (.word (toString n)) := by
  have chars : ∀ c ∈ (toString n).toList, Lexeme.isWordChar c = true := by
    intro c member
    rcases Number.mem_toString member with digit | rfl
    · exact isWordChar_of_isDigit digit
    · decide
  have stands : Datum.ofWord (toString n) = .ok (number (.int n)).erase :=
    Datum.ofWord_toString short
  refine .word _ stands (Number.toString_ne_empty n) (List.all_eq_true.2 chars) fun levels => ?_
  rw [number, Value.text, Atom.text, Number.text_int short]

theorem writtenAs_str (s : String) :
    (atom (.str s)).WrittenAs (.string (StringLiteral.write s)) := by
  refine ⟨?_, ?_, 1, fun levels enough => ?_⟩
  · rw [datum, StringLiteral.read_write]
    rfl
  · intro t member
    obtain rfl := List.mem_singleton.1 member
    exact StringLiteral.isLexical_write s
  · obtain ⟨levels, rfl⟩ := Nat.exists_eq_add_of_le' enough
    rw [layout, String.ofList_toList]
    rfl

theorem writtenAs_symbol {s : Symbol} (h : s.IsReadable) :
    (symbol s).WrittenAs (.word s.name) := by
  have nonempty : s.name.toList ≠ [] := by simpa using h.nonempty
  have chars := List.all_eq_true.2 (Symbol.isWordChar_of_mem_name h)
  exact .word _ (Symbol.ofWord_name h) nonempty chars fun _ => rfl

/-- The elements of a row are written next to each other. -/
theorem text_row {vs : List Value} {fs : List Phrase} (h : List.Forall₂ WrittenAs vs fs) :
    datumAll fs = .ok (vs.map erase) ∧ (∀ t ∈ tokensAll fs, t.IsLexical) ∧
      ∃ n, ∀ levels, n ≤ levels →
        vs.mapM (text levels) = .ok (fs.map fun f => String.ofList f.layout) := by
  induction h with
  | nil => exact ⟨rfl, nofun, 0, fun _ _ => rfl⟩
  | cons first _ ih =>
    obtain ⟨read, lexical, n, written⟩ := ih
    obtain ⟨m, head⟩ := first.text
    refine ⟨datumAll_cons_eq_ok.2 ⟨_, _, first.datum, read, rfl⟩, ?_, max m n, ?_⟩
    · intro t member
      rw [tokensAll, List.mem_append] at member
      exact member.elim (first.lexical t) (lexical t)
    · intro levels enough
      rw [List.mapM_cons, head levels (by omega), written levels (by omega)]
      rfl

theorem parenthesized_layout (fs : List Phrase) :
    parenthesized (fs.map fun f => String.ofList f.layout) =
      String.ofList (Phrase.list "(" fs ")").layout := by
  rw [parenthesized, intercalate_layout, layout, ← String.toList_inj]
  simp

/-- A list is written as its written elements between parentheses. -/
theorem writtenAs_cons {id : Nat} {head rest : Value} {fs : List Phrase}
    (elements : List.Forall₂ WrittenAs (cons id head rest).toList fs)
    (proper : (cons id head rest).erase = Datum.ofList ((cons id head rest).toList.map erase)) :
    (cons id head rest).WrittenAs (.list "(" fs ")") := by
  obtain ⟨read, lexical, n, written⟩ := text_row elements
  refine ⟨?_, ?_, n + 1, fun levels enough => ?_⟩
  · rw [datum, read, proper]
    rfl
  · intro t member
    simp only [tokens, List.mem_cons, List.mem_append, List.not_mem_nil, or_false] at member
    rcases member with rfl | member | rfl
    · rfl
    · exact lexical t member
    · rfl
  · obtain ⟨k, rfl⟩ : ∃ k, levels = k + 1 := ⟨levels - 1, by omega⟩
    rw [← parenthesized_layout]
    exact text_cons (written k (by omega))

theorem erase_eq_ofList {v : Value} (h : v.Printable) (list : v.isList = true) :
    v.erase = Datum.ofList (v.toList.map erase) := by
  induction h with
  | nil => rfl
  | cons first others isList _ ih =>
    rw [toList_cons, List.map_cons, Datum.ofList_cons, erase, ih isList]
  | _ => cases list

/-- A printable value is written as a phrase, and so are its elements. -/
theorem exists_writtenAs {v : Value} (h : v.Printable) :
    (∃ f, v.WrittenAs f) ∧ ∃ fs, List.Forall₂ WrittenAs v.toList fs := by
  induction h with
  | nil => exact ⟨⟨_, .word "nil" rfl (by decide) (by decide) fun _ => rfl⟩, [], .nil⟩
  | bool b =>
    refine ⟨?_, [], .nil⟩
    cases b
    · exact ⟨_, .word "#f" rfl (by decide) (by decide) fun _ => rfl⟩
    · exact ⟨_, .word "#t" rfl (by decide) (by decide) fun _ => rfl⟩
  | int short => exact ⟨⟨_, writtenAs_int short⟩, [], .nil⟩
  | str s => exact ⟨⟨_, writtenAs_str s⟩, [], .nil⟩
  | symbol readable => exact ⟨⟨_, writtenAs_symbol readable⟩, [], .nil⟩
  | @cons id head rest first others list ihFirst ihOthers =>
    obtain ⟨f, written⟩ := ihFirst.1
    obtain ⟨fs, elements⟩ := ihOthers.2
    have whole : List.Forall₂ WrittenAs (Value.cons id head rest).toList (f :: fs) := by
      rw [toList_cons]
      exact .cons written elements
    exact ⟨⟨_, writtenAs_cons whole (erase_eq_ofList (.cons first others list) rfl)⟩, _, whole⟩

/-- The phrases of values that are written make a row. -/
theorem exists_row {vs : List Value} (h : ∀ v ∈ vs, ∃ f, v.WrittenAs f) :
    ∃ fs, List.Forall₂ WrittenAs vs fs := by
  induction vs with
  | nil => exact ⟨[], .nil⟩
  | cons v vs ih =>
    obtain ⟨f, first⟩ := h v (by simp)
    obtain ⟨fs, others⟩ := ih fun w member => h w (List.mem_cons_of_mem v member)
    exact ⟨f :: fs, .cons first others⟩

/-- A row of values is read back from its text. -/
theorem readAll_of_writtenAs {vs : List Value} {fs : List Phrase}
    (row : List.Forall₂ WrittenAs vs fs) :
    ∃ n, ∀ levels, n ≤ levels → ∃ texts, vs.mapM (text levels) = .ok texts ∧
      Datum.readAll (" ".intercalate texts) = .ok (vs.map erase) := by
  obtain ⟨read, lexical, n, written⟩ := text_row row
  refine ⟨n, fun levels enough => ⟨_, written levels enough, ?_⟩⟩
  rw [intercalate_layout, Datum.readAll, ofSource_layoutAll lexical]
  exact TokenQueue.readAll_tokensAll read

theorem readAll_row {vs : List Value} (h : ∀ v ∈ vs, v.Printable) :
    ∃ n, ∀ levels, n ≤ levels → ∃ texts, vs.mapM (text levels) = .ok texts ∧
      Datum.readAll (" ".intercalate texts) = .ok (vs.map erase) := by
  obtain ⟨fs, row⟩ := exists_row fun v member => (exists_writtenAs (h v member)).1
  exact readAll_of_writtenAs row

end Value

namespace Datum

/-- No float occurs in the datum. -/
def FloatFree : Datum → Prop
  | nil => True
  | atom (.number (.float _)) => False
  | atom _ => True
  | cons head rest => head.FloatFree ∧ rest.FloatFree

/-- The datum has a written form, whatever identities its cells take. -/
def Printable (d : Datum) : Prop := ∀ id, (Value.load d id).1.Printable

theorem printable_cons {head rest : Datum} (first : head.Printable) (others : rest.Printable)
    (list : ∀ id, (Value.load rest id).1.isList = true) : (cons head rest).Printable := fun _ =>
  .cons (first _) (others _) (list _)

theorem isList_load_ofList (ds : List Datum) (id : Nat) :
    (Value.load (ofList ds) id).1.isList = true := by
  cases ds with
  | nil => rfl
  | cons d ds =>
    rw [ofList_cons]
    rfl

theorem printable_ofList {ds : List Datum} (h : ∀ d ∈ ds, d.Printable) :
    (ofList ds).Printable := by
  induction ds with
  | nil => exact fun _ => .nil
  | cons d ds ih =>
    rw [ofList_cons]
    refine printable_cons (h d (by simp)) (ih fun e member => ?_) (isList_load_ofList ds)
    exact h e (List.mem_cons_of_mem d member)

theorem floatFree_ofList {ds : List Datum} (h : (ofList ds).FloatFree) :
    ∀ d ∈ ds, d.FloatFree := by
  induction ds with
  | nil =>
    intro d member
    cases member
  | cons d ds ih =>
    rw [ofList_cons] at h
    intro e member
    rcases List.mem_cons.1 member with rfl | member
    · exact h.1
    · exact ih h.2 e member

theorem isReadable_quote : Symbol.quote.IsReadable :=
  Symbol.isReadable_of_isWordChar (by decide) (by decide) (by decide) (by decide)

theorem printable_quoted {d : Datum} (h : d.Printable) : d.quoted.Printable := by
  have list : d.quoted = ofList [symbol .quote, d] := by simp [quoted]
  rw [list]
  refine printable_ofList fun e member => ?_
  simp only [List.mem_cons, List.not_mem_nil, or_false] at member
  rcases member with rfl | rfl
  · exact fun _ => .symbol isReadable_quote
  · exact h

/-- A word that does not stand for a float stands for something that has a written form. -/
theorem printable_of_ofWord {word : String} {d : Datum}
    (lexical : (⟨.word, word⟩ : Token).IsLexical) (h : ofWord word = .ok d)
    (floatFree : d.FloatFree) : d.Printable := by
  rcases ofWord_cases h with rfl | ⟨b, rfl⟩ | ⟨numeral, n, found, value, rfl⟩ | ⟨rfl, -, -⟩
  · exact fun _ => .nil
  · exact fun _ => .bool b
  · cases n with
    | int n =>
      have short := Numeral.isWritable_of_value found value
      exact fun _ => .int short
    | float x => exact floatFree.elim
  · have readable := Symbol.isReadable_of_ofWord lexical h
    exact fun _ => .symbol readable

end Datum

/-- Every datum that the reader gives has the properties that are inherited. -/
theorem Datum.forall_readAll {C : Datum → Prop} (inherited : Inherited Token.IsLexical C)
    {source : String} {ds : List Datum} (h : Datum.readAll source = .ok ds) : ∀ d ∈ ds, C d := by
  obtain ⟨fs, written, read, -⟩ := TokenQueue.phrases_of_readAll h
  refine Phrase.forall_datumAll inherited read fun t member => ?_
  rw [written] at member
  exact TokenQueue.isLexical_of_mem_tokens member

/-- What the reader gives has a written form, floats apart. -/
theorem Datum.printable_of_readAll {source : String} {ds : List Datum}
    (h : Datum.readAll source = .ok ds) : ∀ d ∈ ds, d.FloatFree → d.Printable :=
  forall_readAll
    { word := printable_of_ofWord
      string := fun s _ _ => .str s
      quoted := fun printable floatFree => printable_quoted (printable floatFree.2.1)
      list := fun printable floatFree => printable_ofList fun d member =>
        printable d member (floatFree_ofList floatFree d member) } h

/-- Reading undoes writing. A row of printable values, written with a space between two, is read
back as exactly these values, and everything the reader gives is printable, floats apart, so that
writing and reading what it gives changes nothing. -/
theorem Value.readAll_printed :
    (∀ vs : List Value, (∀ v ∈ vs, v.Printable) →
      ∃ n, ∀ levels, n ≤ levels → ∃ texts, vs.mapM (text levels) = .ok texts ∧
        Datum.readAll (" ".intercalate texts) = .ok (vs.map erase)) ∧
    (∀ source ds, Datum.readAll source = .ok ds →
      (∀ d ∈ ds, d.FloatFree → d.Printable) ∧
      ((∀ d ∈ ds, d.FloatFree) → ∀ id,
        ∃ n, ∀ levels, n ≤ levels →
          ∃ texts, (ds.map fun d => (load d id).1).mapM (text levels) = .ok texts ∧
            Datum.readAll (" ".intercalate texts) = .ok ds)) := by
  refine ⟨fun vs printable => readAll_row printable, fun source ds read => ⟨?_, ?_⟩⟩
  · exact Datum.printable_of_readAll read
  · intro floatFree id
    have printable : ∀ v ∈ ds.map fun d => (load d id).1, v.Printable := by
      intro v member
      obtain ⟨d, given, rfl⟩ := List.mem_map.1 member
      exact Datum.printable_of_readAll read d given (floatFree d given) id
    have back : (ds.map fun d => (load d id).1).map erase = ds := by simp [Function.comp_def]
    obtain ⟨n, reads⟩ := readAll_row printable
    rw [back] at reads
    exact ⟨n, reads⟩

/-- A list with a string full of escapes, a negative integer, an empty list and a quoted symbol in
it, and a symbol behind it. -/
theorem Value.readAll_printed_escapes :
    let vs : List Value :=
      [.cons 4 (.atom (.str "a \"(b\" \\ ;\n")) (.cons 3 (.number (.int (-5)))
        (.cons 2 .nil (.cons 1 (.cons 7 (.symbol .quote) (.cons 6 (.symbol ⟨"x"⟩) .nil)) .nil))),
        .symbol ⟨"..."⟩]
    (∀ v ∈ vs, v.Printable) ∧
      ∃ source, Datum.readAll source = .ok (vs.map erase) ∧
        ∀ d ∈ vs.map erase, d.FloatFree → d.Printable := by
  intro vs
  have x : Symbol.IsReadable ⟨"x"⟩ :=
    Symbol.isReadable_of_isWordChar (by decide) (by decide) (by decide) (by decide)
  have dots : Symbol.IsReadable ⟨"..."⟩ :=
    Symbol.isReadable_of_isWordChar (by decide) (by decide) (by decide) (by decide)
  have five : Number.isWritable (-5) = true := Number.isWritable_of_lt_ten (by decide)
  have quoted : Printable (.cons 7 (.symbol .quote) (.cons 6 (.symbol ⟨"x"⟩) .nil)) :=
    .cons (.symbol Datum.isReadable_quote) (.cons (.symbol x) .nil rfl) rfl
  have printable : ∀ v ∈ vs, v.Printable := by
    intro v member
    simp only [vs, List.mem_cons, List.not_mem_nil, or_false] at member
    rcases member with rfl | rfl
    · exact .cons (.str _) (.cons (.int five) (.cons .nil (.cons quoted .nil rfl) rfl) rfl) rfl
    · exact .symbol dots
  obtain ⟨n, reads⟩ := readAll_printed.1 vs printable
  obtain ⟨texts, -, read⟩ := reads n (Nat.le_refl n)
  exact ⟨printable, _, read, (readAll_printed.2 _ _ read).1⟩

end SmallLisp
