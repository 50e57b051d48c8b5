import SmallLisp.Value.Text

/-!
# The parts of lists

Taking the head or the rest of a list, and what goes wrong with the empty list and with values
that are no lists. Main statement: the parts of a cell (`part_cons`).
-/

namespace SmallLisp.Value

/-- A part of a cell. -/
def part? : ListPart → Value → Option Value
  | .head, cons _ head _ => some head
  | .rest, cons _ _ rest => some rest
  | _, _ => none

/-- A part of a list, as the operation for it gives it. -/
def part (levels : Nat) (p : ListPart) (v : Value) : Except Error Value :=
  match v.part? p, v with
  | some found, _ => .ok found
  | none, nil => .error (.emptyList p)
  | none, _ => do throw (.notList p.operation (← v.text levels))

/-- The first element of a list. -/
def car (levels : Nat) (v : Value) : Except Error Value := v.part levels .head

/-- A list without its first element. -/
def cdr (levels : Nat) (v : Value) : Except Error Value := v.part levels .rest

/-- A part of a value that is known to be a list. -/
def directPart (p : ListPart) (v : Value) : Except Error Value :=
  (v.part? p).elim (.error (.partOfNil p)) .ok

theorem part_cons (levels id : Nat) (head rest : Value) :
    (cons id head rest).car levels = .ok head ∧ (cons id head rest).cdr levels = .ok rest :=
  ⟨rfl, rfl⟩

end SmallLisp.Value
