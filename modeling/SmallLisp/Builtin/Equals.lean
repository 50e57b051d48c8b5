import SmallLisp.Value.Equality

/-!
# Equality of many values

Neighbours are compared from left to right, up to the first two that differ. Main statement: a
pair is compared as such (`equalAll_pair`).
-/

namespace SmallLisp.Builtin

/-- All neighbours are equal. -/
def equalAll (levels : Nat) : List Value → Except Error Bool
  | a :: b :: rest => do
    if ← a.equal levels b then equalAll levels (b :: rest) else return false
  | _ => .ok true

theorem equalAll_pair (levels : Nat) (a b : Value) :
    equalAll levels [a, b] = a.equal levels b := by
  cases h : a.equal levels b with
  | error e => simp [equalAll, h, bind, Except.bind]
  | ok same => cases same <;> simp [equalAll, h, bind, Except.bind, pure, Except.pure]

end SmallLisp.Builtin
