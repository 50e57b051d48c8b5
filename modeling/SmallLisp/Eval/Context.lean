import SmallLisp.Value.Basic

/-!
# Where an expression stands

Two facts decide whether a call is made at once or handed back to whoever runs the body: whether
the expression belongs to the body of a function, and whether its value is the value of that body.
Main statement: an expression whose value is still needed never hands back a call
(`handsBack_inner`).
-/

namespace SmallLisp

/-- The place of an expression. -/
structure Context where
  /-- The expression belongs to the body of a function. -/
  inBody : Bool
  /-- Its value is the value of what it stands in. -/
  atEnd : Bool
  deriving DecidableEq, Repr

namespace Context

/-- An expression of the program itself. -/
def topLevel : Context := ⟨false, false⟩

/-- The last expression of the body of a function. -/
def functionBody : Context := ⟨true, true⟩

/-- A call in this place is handed back and not made. -/
def handsBack (c : Context) : Bool := c.inBody && c.atEnd

/-- The place of an expression whose value the form around it still needs. -/
def inner (c : Context) : Context := ⟨c.inBody, false⟩

@[simp] theorem handsBack_inner (c : Context) : c.inner.handsBack = false := by
  simp [handsBack, inner]

@[simp] theorem inner_inner (c : Context) : c.inner.inner = c.inner := rfl

end Context

/-- What evaluating an expression gives: a value, or the call that would give it. -/
inductive Answer where
  | value (v : Value)
  | pending (fn : Value) (args : List Value)
  deriving DecidableEq

end SmallLisp
