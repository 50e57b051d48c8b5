import Mathlib.Logic.Relation
import SmallLisp.Proofs.State.WellFormed

/-!
# What frames can reach

A frame refers to the frame around it and, by the functions in what it binds, to the frames in which
these were made. Following such references one reaches everything that evaluation in the frame can
come upon. Main statements: what a frame of a well-formed state reaches is there (`reaches_lt`), and
frames that refer to none but themselves reach no other (`Closed.of_reaches`).
-/

namespace SmallLisp

/-- A function in the value was made in the frame. The functions in the body of a function count as
well. -/
def Value.Captures : Value → FrameId → Prop
  | .cons _ head rest, f => head.Captures f ∨ rest.Captures f
  | .closure header body, f => header.env = f ∨ body.Captures f
  | _, _ => False

theorem Value.Sound.captures_lt {size : Nat} {v : Value} (h : v.Sound size) {f : FrameId}
    (captured : v.Captures f) : f < size := by
  induction v with
  | cons id head rest ihHead ihRest =>
    rcases captured with inHead | inRest
    · exact ihHead h.1 inHead
    · exact ihRest h.2.1 inRest
  | closure header body ih =>
    rcases captured with rfl | inBody
    · exact h.1
    · exact ih h.2 inBody
  | _ => exact captured.elim

/-- There are no functions in expressions that have been read. -/
theorem Value.not_captures_load (d : Datum) (id : Nat) (f : FrameId) :
    ¬ (Value.load d id).1.Captures f := by
  induction d generalizing id with
  | cons head rest ihHead ihRest =>
    rintro (inHead | inRest)
    · exact ihHead id inHead
    · exact ihRest _ inRest
  | _ => exact False.elim

/-- A function in the value, or in the call that would give it, was made in the frame. -/
def Answer.Captures : Answer → FrameId → Prop
  | .value v, f => v.Captures f
  | .pending fn args, f => ∃ v ∈ fn :: args, v.Captures f

namespace Heap

variable {h : Heap}

/-- The first frame hangs off the second, or binds a value that captures it. -/
def Refers (h : Heap) (g f : FrameId) : Prop :=
  ∃ frame, h.frame? g = some frame ∧
    (frame.outer = some f ∨ ∃ entry ∈ frame.bindings, entry.2.Captures f)

/-- Following references, one comes from the first frame to the second. -/
def Reaches (h : Heap) : FrameId → FrameId → Prop := Relation.ReflTransGen h.Refers

/-- Following references, one comes from the value to the frame. -/
def ReachesFrom (h : Heap) (v : Value) (f : FrameId) : Prop := ∃ g, v.Captures g ∧ h.Reaches g f

/-- The frames of the region refer to none outside. -/
def Closed (h : Heap) (region : FrameId → Prop) : Prop := ∀ g f, region g → h.Refers g f → region f

theorem Closed.of_reaches {region : FrameId → Prop} (closed : h.Closed region) {g f : FrameId}
    (inside : region g) (reaches : h.Reaches g f) : region f := by
  induction reaches with
  | refl => exact inside
  | tail _ refers ih => exact closed _ _ ih refers

theorem closed_reaches (h : Heap) (g : FrameId) : h.Closed (h.Reaches g) :=
  fun _ _ reaches refers => reaches.tail refers

theorem closed_reachesFrom (h : Heap) (v : Value) : h.Closed (h.ReachesFrom v) := by
  rintro g f ⟨k, captured, reaches⟩ refers
  exact ⟨k, captured, reaches.tail refers⟩

theorem Closed.or {first second : FrameId → Prop} (closed : h.Closed first)
    (closed' : h.Closed second) : h.Closed fun f => first f ∨ second f := by
  intro g f inside refers
  exact inside.imp (closed g f · refers) (closed' g f · refers)

end Heap

namespace World.WellFormed

variable {w : World}

theorem refers_lt (h : w.WellFormed) {g f : FrameId} (refers : w.heap.Refers g f) :
    f < w.heap.size := by
  obtain ⟨frame, there, off | ⟨entry, bound, captured⟩⟩ := refers
  · have older := h.rooted.outer_lt there off
    exact Nat.lt_trans older (Heap.lt_size_of_frame? there)
  · exact (h.sound g frame there entry bound).captures_lt captured

/-- No reference leads out of the heap. -/
theorem reaches_lt (h : w.WellFormed) {g f : FrameId} (inside : g < w.heap.size)
    (reaches : w.heap.Reaches g f) : f < w.heap.size := by
  have closed : w.heap.Closed (· < w.heap.size) := fun _ _ _ refers => h.refers_lt refers
  exact closed.of_reaches inside reaches

end World.WellFormed

end SmallLisp
