import SmallLisp.Value.Basic

/-!
# Frames and the heap

A frame binds symbols to values and hangs off the frame around it. The heap holds all frames that
a run has made, each under the number that it got when it was made. A symbol is looked for in a
frame, then in the frame around it, and so on. Main statements: what a binding does to the
bindings of its frame (`get?_put`), and what making a frame and binding do to the frames of the
heap (`frame?_extend`, `frame?_define`).
-/

namespace SmallLisp

/-- A frame: its bindings in the order in which the names were first bound, and the frame around
it. -/
structure Frame where
  outer : Option FrameId
  bindings : List (Symbol × Value)
  deriving DecidableEq

/-- All frames of a run. -/
structure Heap where
  frames : Array Frame
  deriving DecidableEq

namespace Frame

/-- The value of a symbol in a list of bindings. -/
def getBinding? (s : Symbol) : List (Symbol × Value) → Option Value
  | [] => none
  | (t, v) :: rest => if s = t then some v else getBinding? s rest

/-- The value that a frame itself binds a symbol to. -/
def get? (f : Frame) (s : Symbol) : Option Value := getBinding? s f.bindings

/-- The frame itself binds the symbol. -/
def binds (f : Frame) (s : Symbol) : Bool := (f.get? s).isSome

/-- Replaces the binding of a symbol where it stands, or adds one at the end. -/
def putBinding (s : Symbol) (v : Value) : List (Symbol × Value) → List (Symbol × Value)
  | [] => [(s, v)]
  | (t, w) :: rest => if s = t then (s, v) :: rest else (t, w) :: putBinding s v rest

/-- The frame with the symbol bound to the value. -/
def put (f : Frame) (s : Symbol) (v : Value) : Frame :=
  { f with bindings := putBinding s v f.bindings }

/-- The symbols that a frame binds, in order. -/
def names (f : Frame) : List Symbol := f.bindings.map Prod.fst

theorem getBinding?_putBinding (s t : Symbol) (v : Value) (bindings : List (Symbol × Value)) :
    getBinding? t (putBinding s v bindings) =
      if t = s then some v else getBinding? t bindings := by
  induction bindings with
  | nil => rfl
  | cons entry rest ih =>
    obtain ⟨r, w⟩ := entry
    by_cases hr : s = r
    · subst hr
      by_cases h : t = s <;> simp [putBinding, getBinding?, h]
    · by_cases h : t = s
      · subst h
        simp [putBinding, getBinding?, hr, ih]
      · by_cases ht : t = r <;> simp [putBinding, getBinding?, hr, ht, ih, h]
        exact fun same => absurd same.symm hr

@[simp] theorem get?_put (f : Frame) (s t : Symbol) (v : Value) :
    (f.put s v).get? t = if t = s then some v else f.get? t :=
  getBinding?_putBinding s t v f.bindings

@[simp] theorem outer_put (f : Frame) (s : Symbol) (v : Value) : (f.put s v).outer = f.outer := rfl

end Frame

namespace Heap

/-- The heap without frames. -/
def empty : Heap := ⟨#[]⟩

/-- The number of frames. -/
def size (h : Heap) : Nat := h.frames.size

/-- The frame with a number. -/
def frame? (h : Heap) (f : FrameId) : Option Frame := h.frames[f]?

/-- Makes a frame without bindings. Its number is the number of frames before. -/
def extend (h : Heap) (outer : Option FrameId) : Heap := ⟨h.frames.push ⟨outer, []⟩⟩

/-- Binds a symbol in a frame. -/
def define (h : Heap) (f : FrameId) (s : Symbol) (v : Value) : Heap :=
  ⟨h.frames.modify f (·.put s v)⟩

/-- The first answer of a frame on the way outward from `f`, over at most so many frames. -/
def outward? {α : Type} (h : Heap) (pick : FrameId → Frame → Option α) : Nat → FrameId → Option α
  | 0, _ => none
  | steps + 1, f =>
    match h.frame? f with
    | none => none
    | some frame =>
      match pick f frame with
      | some a => some a
      | none =>
        match frame.outer with
        | some outer => h.outward? pick steps outer
        | none => none

/-- The nearest frame from `f` outward that binds a symbol. A frame is younger than the frame around
it, so the way outward from `f` has at most `f + 1` frames. -/
def find? (h : Heap) (f : FrameId) (s : Symbol) : Option FrameId :=
  h.outward? (fun f frame => if frame.binds s then some f else none) (f + 1) f

/-- The value of a symbol, seen from a frame. -/
def lookup? (h : Heap) (f : FrameId) (s : Symbol) : Option Value :=
  h.outward? (fun _ frame => frame.get? s) (f + 1) f

/-- Gives the nearest existing binding of a symbol a new value, if there is one. -/
def assign? (h : Heap) (f : FrameId) (s : Symbol) (v : Value) : Option Heap :=
  (h.find? f s).map fun owner => h.define owner s v

@[simp] theorem size_extend (h : Heap) (outer : Option FrameId) :
    (h.extend outer).size = h.size + 1 := by
  simp [size, extend]

@[simp] theorem size_define (h : Heap) (f : FrameId) (s : Symbol) (v : Value) :
    (h.define f s v).size = h.size := by
  simp [size, define]

theorem frame?_extend (h : Heap) (outer : Option FrameId) (g : FrameId) :
    (h.extend outer).frame? g = if g = h.size then some ⟨outer, []⟩ else h.frame? g := by
  simp only [frame?, extend, size, Array.getElem?_push]
  rfl

theorem frame?_define (h : Heap) (f g : FrameId) (s : Symbol) (v : Value) :
    (h.define f s v).frame? g = if f = g then (h.frame? g).map (·.put s v) else h.frame? g := by
  simp only [frame?, define, Array.getElem?_modify]

theorem frame?_eq_none_iff (h : Heap) (f : FrameId) : h.frame? f = none ↔ h.size ≤ f := by
  simp [frame?, size]

end Heap

end SmallLisp
