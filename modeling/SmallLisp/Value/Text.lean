import SmallLisp.Datum.StringLiteral
import SmallLisp.Value.Basic

/-!
# The text of values

A value is written the way the reader would write it, a function made by the program as the
`lambda` form that makes it. Writing goes down one level for each list inside a list, and fails
when the levels run out. Main statement: the elements of a list are written in order, with a space
between two (`text_cons`).
-/

namespace SmallLisp

/-- The text of an atom. -/
def Atom.text : Atom → Except Error String
  | bool b => .ok (if b then "#t" else "#f")
  | number n => n.text
  | str s => .ok (StringLiteral.write s)
  | symbol s => .ok s.name

namespace Value

/-- Texts between parentheses, with a space between two. -/
def parenthesized (parts : List String) : String := "(" ++ " ".intercalate parts ++ ")"

/-- The text of a value, written on at most so many levels. -/
def text : Nat → Value → Except Error String
  | 0, _ => .error .stackExhausted
  | _ + 1, nil => .ok "nil"
  | _ + 1, atom a => a.text
  | levels + 1, cons _ head rest => do
    return parenthesized (← (head :: rest.toList).mapM (text levels))
  | levels + 1, closure header body => do
    let params := parenthesized (header.params.map Symbol.name)
    return parenthesized ("lambda" :: params :: (← body.toList.mapM (text levels)))
  | _ + 1, builtin op => .ok ("<native " ++ op.label ++ ">")

/-- The text by which messages show a value that stands in the place of a name: strings bare, truth
values as words. -/
def plainText (levels : Nat) : Value → Except Error String
  | atom (.str s) => .ok s
  | atom (.bool b) => .ok (if b then "True" else "False")
  | v => v.text levels

/-- The text by which frames show the values they bind: strings quoted, symbols marked as such,
truth values as words. -/
def inspect (levels : Nat) : Value → Except Error String
  | atom (.str s) => .ok (Text.quoted s)
  | atom (.symbol s) => .ok ("Symbol(" ++ Text.quoted s.name ++ ")")
  | atom (.bool b) => .ok (if b then "True" else "False")
  | v => v.text levels

theorem text_cons {levels id : Nat} {head rest : Value} {parts : List String}
    (h : (cons id head rest).toList.mapM (text levels) = .ok parts) :
    (cons id head rest).text (levels + 1) = .ok (parenthesized parts) := by
  rw [toList_cons] at h
  rw [text, h]
  rfl

end Value

end SmallLisp
