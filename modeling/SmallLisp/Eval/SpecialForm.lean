import SmallLisp.Symbol

/-!
# Special forms

The forms with rules of evaluation of their own. A list that starts with the keyword of one is
that form, whatever the keyword may be bound to. Main statement: a symbol is the keyword of at
most one form and a form is found under its keyword (`ofSymbol?_eq_some_iff`).
-/

namespace SmallLisp

/-- The special forms. -/
inductive SpecialForm where
  | define | set | defun | lambda | quote | letBlock | begin | cond | ifElse | and | or
  deriving DecidableEq, Repr

namespace SpecialForm

/-- All special forms. -/
def all : List SpecialForm :=
  [define, set, defun, lambda, quote, letBlock, begin, cond, ifElse, and, or]

/-- The name that marks a list as the form. -/
def keyword : SpecialForm → String
  | define => "define"
  | set => "set"
  | defun => "defun"
  | lambda => "lambda"
  | quote => "quote"
  | letBlock => "let"
  | begin => "begin"
  | cond => "cond"
  | ifElse => "if"
  | and => "and"
  | or => "or"

/-- The form that a symbol marks. -/
def ofSymbol? (s : Symbol) : Option SpecialForm := all.find? fun form => form.keyword == s.name

theorem mem_all (form : SpecialForm) : form ∈ all := by cases form <;> decide

theorem keyword_injective {a b : SpecialForm} (h : a.keyword = b.keyword) : a = b := by
  revert h
  cases a <;> cases b <;> decide

theorem ofSymbol?_eq_some_iff {s : Symbol} {form : SpecialForm} :
    ofSymbol? s = some form ↔ s.name = form.keyword := by
  constructor
  · intro h
    have := List.find?_some h
    simpa using (beq_iff_eq.1 this).symm
  · intro h
    cases found : ofSymbol? s with
    | none =>
      have := List.find?_eq_none.1 found form (mem_all form)
      simp [h] at this
    | some other =>
      have := List.find?_some found
      rw [keyword_injective ((beq_iff_eq.1 this).trans h)]

end SpecialForm

end SmallLisp
