import SmallLisp.Value.Text

/-!
# Arguments of operations

The checks that operations make before they compute anything. Main statement: arguments that are
numbers pass as they are (`numbers_map_number`).
-/

namespace SmallLisp.Builtin

/-- An argument that has to be a number. -/
def numberArgument (op : Builtin) (levels : Nat) : Value → Except Error Number
  | .atom (.number n) => .ok n
  | other => do throw (.notNumber op (← other.text levels))

/-- Arguments that all have to be numbers. The first that is none is reported. -/
def numbers (op : Builtin) (levels : Nat) (args : List Value) : Except Error (List Number) :=
  args.mapM (op.numberArgument levels)

/-- The only argument. -/
def one (op : Builtin) : List Value → Except Error Value
  | [a] => .ok a
  | args => .error (.wrongCount op 1 args.length)

/-- The only two arguments. -/
def two (op : Builtin) : List Value → Except Error (Value × Value)
  | [a, b] => .ok (a, b)
  | args => .error (.wrongCount op 2 args.length)

/-- An argument that has to be a list. -/
def listArgument (op : Builtin) (levels : Nat) (v : Value) : Except Error Value :=
  if v.isList then .ok v else do throw (.notList op (← v.text levels))

theorem numbers_map_number (op : Builtin) (levels : Nat) (ns : List Number) :
    op.numbers levels (ns.map Value.number) = .ok ns := by
  induction ns with
  | nil => rfl
  | cons n ns ih =>
    rw [numbers] at ih
    simp [numbers, numberArgument, Value.number, List.mapM_cons, ih, bind, Except.bind, pure,
      Except.pure]

end SmallLisp.Builtin
