import SmallLisp.Proofs.Reader.Grammar
import SmallLisp.Proofs.State.Respects
import SmallLisp.Session

/-!
# Sources keep every discipline

A source is read first, and what has been read is evaluated in order. Main statement: if evaluation
keeps a discipline that admits what has been read, running a source does (`runSource_keeps`).
-/

namespace SmallLisp

/-- The number of cells in a datum. -/
def Datum.cells : Datum → Nat
  | .cons head rest => head.cells + rest.cells + 1
  | _ => 0

theorem Value.load_snd (d : Datum) (id : Nat) : (Value.load d id).2 = id + d.cells := by
  induction d generalizing id with
  | cons head rest ihHead ihRest =>
    simp only [Value.load, ihHead, ihRest, Datum.cells]
    omega
  | _ => rfl

/-- What has been read may be evaluated, whatever the identities of its cells. -/
def Discipline.AdmitsData (D : Discipline) : Prop :=
  ∀ s d, d.Proper → ∀ id, D.Code s (Value.load d id).1

namespace Session

open Discipline (Later Keeps)

variable {D : Discipline} {m : Machine} {s : Twin} {root : FrameId}

theorem load_keeps (admits : D.AdmitsData) (good : D.Good s) {d : Datum} (proper : d.Proper) :
    D.Keeps (some root) s (EvalM.load d) D.Code := by
  obtain ⟨same, kept⟩ := D.newIds good
  refine ⟨.ok (Value.load d s.left.fresh).1, s.map (·.advance d.cells), ?_, ?_,
    ⟨(kept _).1, D.change_of_call (kept _).2⟩, fun _ eq => ?_⟩
  · show (_, { s.left with fresh := (Value.load d s.left.fresh).2 }) = _
    rw [Value.load_snd]
    rfl
  · show (_, { s.right with fresh := (Value.load d s.right.fresh).2 }) = _
    rw [Value.load_snd, same]
    rfl
  · cases eq
    exact admits _ d proper _

variable (respects : m.Respects D) (admits : D.AdmitsData)

include respects admits

theorem runDatum_keeps (good : D.Good s) {d : Datum} (proper : d.Proper) (frame : D.Frame s root) :
    D.Keeps (some root) s (runDatum m root d) D.Held := by
  apply (load_keeps admits good proper).bind
  intro s' e later code
  apply (respects.eval Context.topLevel later.good code (later.frame frame)).bind
  intro s'' answer later' held
  cases answer with
  | value v => exact .pure later'.good held
  | pending fn args => exact (respects.call root later'.good held.1 held.2).of_call

theorem runAll_keeps (good : D.Good s) {ds : List Datum} (proper : ∀ d ∈ ds, d.Proper)
    (frame : D.Frame s root) : D.Keeps (some root) s (runAll m root ds) D.Held := by
  induction ds generalizing s with
  | nil => exact .stop good _
  | cons d ds ih =>
    rw [List.forall_mem_cons] at proper
    cases ds with
    | nil => exact runDatum_keeps respects admits good proper.1 frame
    | cons e es =>
      apply (runDatum_keeps respects admits good proper.1 frame).bind
      intro s' _ later _
      exact ih later.good proper.2 (later.frame frame)

theorem runSource_keeps (good : D.Good s) (frame : D.Frame s root) (source : String) :
    D.Keeps (some root) s (runSource m root source) D.Held := by
  apply Keeps.part_bind good
  intro ds read
  unfold runProgram
  split
  · exact .pure good (D.held_nil s)
  · exact runAll_keeps respects admits good (Datum.proper_of_readAll read) frame

end Session

end SmallLisp
