import SmallLisp.Proofs.Eval.Related
import SmallLisp.Session

/-!
# Sessions on related machines

Machines that give related results for expressions and calls give related results for programs, for
sources and for the start of a session (`runProgram`, `runSource`, `start`).
-/

namespace SmallLisp

namespace Machine.Related

variable {c : Congruence EvalM} {m m' : Machine}

theorem runDatum (h : Related c m m') (root : FrameId) (d : Datum) :
    c.Rel (Session.runDatum m root d) (Session.runDatum m' root d) := by
  apply c.bind_left
  intro e
  refine c.bind (h.eval e root Context.topLevel) fun answer => ?_
  cases answer with
  | value v => exact c.refl _
  | pending fn args => exact h.call root fn args

theorem runAll (h : Related c m m') (root : FrameId) (ds : List Datum) :
    c.Rel (Session.runAll m root ds) (Session.runAll m' root ds) := by
  induction ds with
  | nil => exact c.refl _
  | cons d ds ih =>
    cases ds with
    | nil => exact h.runDatum root d
    | cons e es => exact c.bind (h.runDatum root d) fun _ => ih

theorem runProgram (h : Related c m m') (root : FrameId) (ds : List Datum) :
    c.Rel (Session.runProgram m root ds) (Session.runProgram m' root ds) := by
  unfold Session.runProgram
  split
  · exact c.refl _
  · exact h.runAll root ds

theorem runSource (h : Related c m m') (root : FrameId) (source : String) :
    c.Rel (Session.runSource m root source) (Session.runSource m' root source) :=
  c.bind_left _ fun ds => h.runProgram root ds

theorem start (h : Related c m m') (first : Session.Prelude) :
    c.Rel (Session.start m first) (Session.start m' first) := by
  apply c.bind_left
  intro root
  split
  · exact c.bind (h.runSource root _) fun _ => c.refl _
  · exact c.refl _

end Machine.Related

end SmallLisp
