import SmallLisp.Symbol

/-!
# The operations every session starts with

Each operation has a symbol that the root frame binds to it, and a label by which it is shown when
it is printed as a value. Main statement: different operations have different symbols
(`symbol_injective`).
-/

namespace SmallLisp

/-- The built-in operations. -/
inductive Builtin where
  | add | sub | mul | div | mod
  | equals | less | lessEq | greater | greaterEq
  | not
  | cons | car | cdr | list | null | length
  | apply | print
  deriving DecidableEq, Repr

namespace Builtin

/-- All operations, in the order in which the root frame binds them. -/
def all : List Builtin :=
  [add, sub, mul, div, mod, equals, less, lessEq, greater, greaterEq, not, cons, car, cdr, list,
    null, length, apply, print]

/-- The name under which an operation is bound. -/
def name : Builtin → String
  | add => "+"
  | sub => "-"
  | mul => "*"
  | div => "/"
  | mod => "mod"
  | equals => "="
  | less => "<"
  | lessEq => "<="
  | greater => ">"
  | greaterEq => ">="
  | not => "not"
  | cons => "cons"
  | car => "car"
  | cdr => "cdr"
  | list => "list"
  | null => "null?"
  | length => "length"
  | apply => "apply"
  | print => "print"

/-- The symbol that the root frame binds to an operation. -/
def symbol (op : Builtin) : Symbol := ⟨op.name⟩

/-- The word that stands for an operation in printed values. -/
def label : Builtin → String
  | add => "add"
  | sub => "sub"
  | mul => "mul"
  | div => "div"
  | mod => "mod"
  | equals => "equals"
  | less => "<"
  | lessEq => "<="
  | greater => ">"
  | greaterEq => ">="
  | not => "logical_not"
  | cons => "cons"
  | car => "car"
  | cdr => "cdr"
  | list => "list_builtin"
  | null => "null"
  | length => "length"
  | apply => "apply"
  | print => "print_builtin"

theorem mem_all (op : Builtin) : op ∈ all := by cases op <;> decide

theorem symbol_injective {a b : Builtin} (h : a.symbol = b.symbol) : a = b := by
  revert h
  cases a <;> cases b <;> decide

end Builtin

end SmallLisp
