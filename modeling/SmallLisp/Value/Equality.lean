import SmallLisp.Number.Order
import SmallLisp.Value.Basic

/-!
# Equality of values

Numbers are equal by value, truth values only to themselves, functions by identity, and lists
element by element. Two lists that are the same cell are equal without a look at their elements,
and so are two lists that come to the same cell behind equal elements. Comparing goes down one
level for each list inside a list, and fails when the levels run out. Main statement: a cell
equals itself (`equal_cons_self`).
-/

namespace SmallLisp

/-- Equality of atoms. -/
def Atom.same : Atom → Atom → Bool
  | bool a, bool b => a == b
  | number a, number b => a.same b
  | str a, str b => a == b
  | symbol a, symbol b => a == b
  | _, _ => false

namespace Value

/-- Equality of values of which at most one is a cell. -/
def sameLeaf : Value → Value → Bool
  | nil, nil => true
  | atom a, atom b => a.same b
  | closure a _, closure b _ => a.id == b.id
  | builtin a, builtin b => a == b
  | _, _ => false

/-- Compares two lists element by element, up to the first cell that they share. -/
def equalLists (equalHeads : Value → Value → Except Error Bool) :
    Value → Value → Except Error Bool
  | cons i a as, cons j b bs =>
    if i = j then .ok true
    else do
      if ← equalHeads a b then equalLists equalHeads as bs else return false
  | a, b => .ok (a.sameLeaf b)

/-- Equality of values, compared on at most so many levels. -/
def equal : Nat → Value → Value → Except Error Bool
  | 0, _, _ => .error .stackExhausted
  | levels + 1, a, b => equalLists (equal levels) a b

theorem equal_cons_self (levels id : Nat) (head rest : Value) :
    equal (levels + 1) (cons id head rest) (cons id head rest) = .ok true := by
  simp [equal, equalLists]

end Value

end SmallLisp
