import SmallLisp.Session
import SmallLisp.Settings

/-!
# Opening sessions

A session is opened with what the host says: its settings and its files. Before anything else, the
limit that the host sets to the levels of all evaluations is raised if the settings ask for more.
The limit stays when the session is given up, and the next session finds it. Main statement: if the
limit that is asked for is refused, nothing has been done (`openWith_of_refused`).
-/

namespace SmallLisp

/-- What the host says: the text of a setting, and the content of a file. -/
structure Host where
  setting? : String → Option String
  file? : String → Option String

/-- The limit of the host, and every limit that it has been told to set, the latest last. -/
structure LevelLimit where
  current : Nat
  calls : List Nat
  deriving DecidableEq, Repr

namespace LevelLimit

/-- Tells the host to set the limit. -/
def set (l : LevelLimit) (limit : Nat) : LevelLimit := ⟨limit, l.calls ++ [limit]⟩

/-- Raises the limit to what a setting asks for. -/
def raise (l : LevelLimit) (raw : Option String) : Except Error LevelLimit := do
  match ← Settings.raisedLimit l.current raw with
  | some limit => return l.set limit
  | none => return l

end LevelLimit

namespace Session

/-- The prelude that is asked for. The file that the settings name is looked for only if it is asked
for by the word for it. -/
def findPrelude (host : Host) (request : Option String) : Except Error Prelude := do
  if request = some Prelude.automatic then
    let isFile (path : String) := (host.file? path).isSome
    let file ← Settings.preludeFile isFile (host.setting? Settings.preludePath)
    return Prelude.choose request (file.bind host.file?)
  else
    return Prelude.choose request none

/-- Starts a session with the prelude that is asked for. -/
def startWith (m : Machine) (host : Host) (request : Option String) : EvalM FrameId :=
  match findPrelude host request with
  | .ok first => start m first
  | .error e => do
    let _ ← newRoot
    EvalM.fail e

/-- Opens a session: first the limit is raised, and then the session is started within the bounds
that the limit leaves to evaluation. -/
def openWith (bounds : Nat → Limits) (host : Host) (request : Option String) (l : LevelLimit)
    (w : World) : Except Stop FrameId × LevelLimit × World :=
  match l.raise (host.setting? Settings.recursionLimit) with
  | .error e => (.error (.error e), l, w)
  | .ok raised =>
    let (r, w') := (startWith (bounds raised.current).machine host request).runFrom w
    (r, raised, w')

/-- The limit and the state after sessions have been opened one after the other, each with what the
host then says, whether or not they could be. -/
def openAll (bounds : Nat → Limits) :
    List (Host × Option String) → LevelLimit → World → LevelLimit × World
  | [], l, w => (l, w)
  | (host, request) :: rest, l, w =>
    let (_, l', w') := openWith bounds host request l w
    openAll bounds rest l' w'

variable {host : Host} {l raised : LevelLimit} {e : Error}

/-- If the limit that is asked for is refused, nothing has been done. -/
theorem openWith_of_refused (h : l.raise (host.setting? Settings.recursionLimit) = .error e)
    (bounds : Nat → Limits) (request : Option String) (w : World) :
    openWith bounds host request l w = (.error (.error e), l, w) := by
  rw [openWith, h]

theorem openWith_of_raised (h : l.raise (host.setting? Settings.recursionLimit) = .ok raised)
    (bounds : Nat → Limits) (request : Option String) (w : World) :
    let run := (startWith (bounds raised.current).machine host request).runFrom w
    openWith bounds host request l w = (run.1, raised, run.2) := by
  rw [openWith, h]

end Session

end SmallLisp
