import SmallLisp.Datum.Reader
import SmallLisp.Eval.Rules
import SmallLisp.Text.Lines

/-!
# Sessions

A session has a root frame, which binds the built-in operations, and runs sources in it one after
the other. What a source defines is there for the next, also if the source failed behind the
definition. Main statement: a source that cannot be read changes nothing (`runSource_of_error`).
-/

namespace SmallLisp.Session

/-- Makes a root frame that binds the built-in operations. -/
def newRoot : EvalM FrameId := do
  let root ← EvalM.newFrame none
  Builtin.all.forM fun op => EvalM.define root op.symbol (.builtin op)
  return root

/-- Evaluates one expression of a program. -/
def runDatum (m : Machine) (root : FrameId) (d : Datum) : EvalM Value := do
  let e ← EvalM.load d
  m.settle root (← m.eval e root Context.topLevel)

/-- Evaluates the expressions of a program in order and gives the value of the last. -/
def runAll (m : Machine) (root : FrameId) : List Datum → EvalM Value
  | [] => EvalM.fail .emptyBody
  | [last] => runDatum m root last
  | d :: rest => do
    let _ ← runDatum m root d
    runAll m root rest

/-- Runs expressions that have been read. Without any, the result is the empty list. -/
def runProgram (m : Machine) (root : FrameId) (program : List Datum) : EvalM Value :=
  if program.isEmpty then pure .nil else runAll m root program

/-- Reads a whole source and runs it. -/
def runSource (m : Machine) (root : FrameId) (source : String) : EvalM Value := do
  runProgram m root (← Datum.readAll source)

/-- What runs before the first source of a session. -/
inductive Prelude where
  | none
  | inline (source : String)
  /-- The content of a file. -/
  | file (content : String)
  deriving DecidableEq, Repr

namespace Prelude

/-- The word that asks for the file that the settings name. -/
def automatic : String := "auto"

/-- The prelude that is asked for, given the content of the file that the settings name. -/
def choose (request content : Option String) : Prelude :=
  match request with
  | .none => .none
  | some source =>
    if source = automatic then content.elim .none .file
    else if source = "" then .none
    else .inline source

/-- The source of a prelude. Every end of line of a file counts as one newline. -/
def source? : Prelude → Option String
  | none => Option.none
  | inline source => some source
  | file content => some (String.ofList (Text.unifyLines content.toList))

end Prelude

/-- Starts a session with what runs first in it. -/
def start (m : Machine) (first : Prelude) : EvalM FrameId := do
  let root ← newRoot
  match first.source? with
  | some source =>
    let _ ← runSource m root source
    return root
  | none => return root

/-- A source that cannot be read changes nothing. -/
theorem runSource_of_error {source : String} {e : Error} (h : Datum.readAll source = .error e)
    (m : Machine) (root : FrameId) (w : World) :
    (runSource m root source).runFrom w = (.error (.error e), w) := by
  rw [runSource, h]
  rfl

end SmallLisp.Session
