import SmallLisp.Heap.Basic

/-!
# The state of a run

What a run reads and changes: the heap, the supply of identities, and the text printed so far. A
run that stops early keeps what it has done up to then. Main statements: what the primitive steps
do to the state (`run_newFrame`, `run_define`, `run_newList`).
-/

namespace SmallLisp

/-- The state of a run. -/
structure World where
  heap : Heap
  /-- The next identity that no cell and no function has. -/
  fresh : Nat
  /-- The texts that have been printed, in order. -/
  printed : Array String
  deriving DecidableEq

/-- Why a run stops without a result. -/
inductive Stop where
  | error (e : Error)
  /-- The number of calls that one chain of tail calls may make is used up. -/
  | unfinished
  deriving DecidableEq

/-- Runs with a state that lasts when the run stops. -/
abbrev EvalM := ExceptT Stop (StateM World)

namespace World

/-- The state before anything has been done. -/
def initial : World := ⟨Heap.empty, 0, #[]⟩

end World

namespace EvalM

/-- Stops with an error. -/
def fail {α : Type} (e : Error) : EvalM α := throw (.error e)

/-- A computation without a state as a step of a run. -/
def ofExcept {α : Type} : Except Error α → EvalM α
  | .ok a => pure a
  | .error e => fail e

instance : MonadLift (Except Error) EvalM := ⟨ofExcept⟩

/-- Makes a frame. -/
def newFrame (outer : Option FrameId) : EvalM FrameId :=
  modifyGet fun w => (w.heap.size, { w with heap := w.heap.extend outer })

/-- Binds a symbol in a frame. -/
def define (f : FrameId) (s : Symbol) (v : Value) : EvalM Unit :=
  modify fun w => { w with heap := w.heap.define f s v }

/-- The value of a symbol, seen from a frame. -/
def lookup (f : FrameId) (s : Symbol) : EvalM Value := do
  match (← get).heap.lookup? f s with
  | some v => return v
  | none => fail (.undefinedSymbol s.name)

/-- Gives the nearest existing binding of a symbol a new value, and tells which frame has it. -/
def assign (f : FrameId) (s : Symbol) (v : Value) : EvalM FrameId := do
  match (← get).heap.find? f s with
  | some owner =>
    define owner s v
    return owner
  | none => fail (.unboundAssignment s.name)

/-- Takes the next identity. -/
def newId : EvalM Nat := modifyGet fun w => (w.fresh, { w with fresh := w.fresh + 1 })

/-- Puts a value in front of a list. -/
def newCell (head rest : Value) : EvalM Value := do
  return .cons (← newId) head rest

/-- Makes a list of new cells. -/
def newList (items : List Value) : EvalM Value :=
  modifyGet fun w =>
    (Value.ofList w.fresh items, { w with fresh := w.fresh + items.length })

/-- Makes a value of a datum, with new cells. -/
def load (d : Datum) : EvalM Value :=
  modifyGet fun w =>
    let (v, fresh) := Value.load d w.fresh
    (v, { w with fresh := fresh })

/-- Prints a text. -/
def emit (s : String) : EvalM Unit :=
  modify fun w => { w with printed := w.printed.push s }

/-- The result of a run from a state, and the state it leaves. -/
def runFrom {α : Type} (w : World) (act : EvalM α) : Except Stop α × World :=
  StateT.run (ExceptT.run act) w

@[simp] theorem run_newFrame (w : World) (outer : Option FrameId) :
    (newFrame outer).runFrom w = (.ok w.heap.size, { w with heap := w.heap.extend outer }) := rfl

@[simp] theorem run_define (w : World) (f : FrameId) (s : Symbol) (v : Value) :
    (define f s v).runFrom w = (.ok (), { w with heap := w.heap.define f s v }) := rfl

@[simp] theorem run_newList (w : World) (items : List Value) :
    (newList items).runFrom w =
      (.ok (Value.ofList w.fresh items), { w with fresh := w.fresh + items.length }) := rfl

end EvalM

end SmallLisp
