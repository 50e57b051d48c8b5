import SmallLisp.Text.Printable

/-!
# Quoted text

How messages and the text of frames show a string: between single quotes, with the characters that
cannot stand there written as escapes. Double quotes are used when they save an escape, that is
when the text holds a single quote and no double one. Main statement: a text of printable
characters without quotes and backslashes is shown as it is (`quoted_of_plain`).
-/

namespace SmallLisp.Text

/-- The last `width` hexadecimal digits of a number, in lower case. -/
def hexDigits : Nat → Nat → List Char
  | 0, _ => []
  | width + 1, n => hexDigits width (n / 16) ++ [Nat.digitChar (n % 16)]

/-- An unprintable character by its code point, in the shortest of the three widths that holds it.
-/
def codeEscape (c : Char) : List Char :=
  if c.toNat < 0x100 then '\\' :: 'x' :: hexDigits 2 c.toNat
  else if c.toNat < 0x10000 then '\\' :: 'u' :: hexDigits 4 c.toNat
  else '\\' :: 'U' :: hexDigits 8 c.toNat

/-- One character inside quotes of the given kind. -/
def quotedChar (quote c : Char) : List Char :=
  if c = quote || c = '\\' then ['\\', c]
  else if c = '\n' then ['\\', 'n']
  else if c = '\r' then ['\\', 'r']
  else if c = '\t' then ['\\', 't']
  else if isPrintable c then [c]
  else codeEscape c

/-- The apostrophe, which quotes a text unless a double quote saves an escape. -/
def singleQuote : Char := '\x27'

/-- The kind of quote that surrounds a text. -/
def quoteFor (s : List Char) : Char :=
  if s.contains singleQuote && !s.contains '"' then '"' else singleQuote

/-- The text between quotes. -/
def quoted (s : String) : String :=
  let quote := quoteFor s.toList
  String.ofList (quote :: (s.toList.flatMap (quotedChar quote) ++ [quote]))

theorem quotedChar_of_plain {quote c : Char} (hq : c ≠ quote) (hb : c ≠ '\\')
    (hp : isPrintable c = true) : quotedChar quote c = [c] := by
  have hn : c ≠ '\n' ∧ c ≠ '\r' ∧ c ≠ '\t' := by
    refine ⟨?_, ?_, ?_⟩ <;> rintro rfl <;> revert hp <;> decide
  simp [quotedChar, hq, hb, hp, hn]

/-- A text of printable characters without quotes and backslashes is shown as it is. -/
theorem quoted_of_plain {s : String}
    (h : ∀ c ∈ s.toList, c ≠ singleQuote ∧ c ≠ '\\' ∧ isPrintable c = true) :
    (quoted s).toList = singleQuote :: (s.toList ++ [singleQuote]) := by
  have quote_eq : quoteFor s.toList = singleQuote := by
    have : singleQuote ∉ s.toList := fun hm => (h _ hm).1 rfl
    simp [quoteFor, this]
  have body : s.toList.flatMap (quotedChar singleQuote) = s.toList := by
    have step : ∀ l : List Char, (∀ c ∈ l, quotedChar singleQuote c = [c]) →
        l.flatMap (quotedChar singleQuote) = l := by
      intro l
      induction l with
      | nil => intro _; rfl
      | cons c r ih =>
        intro hl
        rw [List.flatMap_cons, hl c (by simp), ih fun d hd => hl d (by simp [hd])]
        rfl
    exact step _ fun c hc => quotedChar_of_plain (h c hc).1 (h c hc).2.1 (h c hc).2.2
  rw [quoted, quote_eq, body, String.toList_ofList]

end SmallLisp.Text
