import SmallLisp.Heap.Text
import SmallLisp.World

/-!
# Binding under a value

Bindings are asked for by an expression that stands for the name. Only a symbol can name anything:
a definition under another value is refused, and nothing is ever found under one. Main statement:
under a symbol these are the operations on frames (`defineUnder_symbol`, `lookupUnder_symbol`).
-/

namespace SmallLisp.EvalM

/-- Binds a name in a frame. -/
def defineUnder (levels : Nat) (f : FrameId) (name v : Value) : EvalM Unit :=
  match name with
  | .atom (.symbol s) => define f s v
  | other => do fail (.notBindable (← other.inspect levels))

/-- Binds symbols in a frame, one after the other. -/
def defineAll (f : FrameId) (bindings : List (Symbol × Value)) : EvalM Unit :=
  bindings.forM fun (s, v) => define f s v

/-- Gives the nearest binding of a name a new value, and tells which frame has it. -/
def assignUnder (levels : Nat) (f : FrameId) (name v : Value) : EvalM FrameId :=
  match name with
  | .atom (.symbol s) => assign f s v
  | other => do fail (.unboundAssignment (← other.plainText levels))

/-- The value of a name, seen from a frame. -/
def lookupUnder (levels : Nat) (f : FrameId) (name : Value) : EvalM Value :=
  match name with
  | .atom (.symbol s) => lookup f s
  | other => do fail (.undefinedSymbol (← other.plainText levels))

/-- The nearest frame that binds a name. -/
def findUnder (f : FrameId) (name : Value) : EvalM (Option FrameId) := do
  match name with
  | .atom (.symbol s) => return (← get).heap.find? f s
  | _ => return none

theorem defineUnder_symbol (levels : Nat) (f : FrameId) (s : Symbol) (v : Value) :
    defineUnder levels f (.symbol s) v = define f s v := rfl

theorem lookupUnder_symbol (levels : Nat) (f : FrameId) (s : Symbol) :
    lookupUnder levels f (.symbol s) = lookup f s := rfl

end SmallLisp.EvalM
