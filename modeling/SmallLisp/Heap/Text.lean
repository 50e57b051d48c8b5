import SmallLisp.Heap.Basic
import SmallLisp.Value.Text

/-!
# The text of frames

A frame shows its own bindings, and whether there is a frame around it. A chain shows the bindings
of all its frames, innermost first.
-/

namespace SmallLisp

/-- The bindings of a frame between braces. -/
def Frame.text (levels : Nat) (f : Frame) : Except Error String := do
  let entries ← f.bindings.mapM fun (name, v) => do
    return name.name ++ ": " ++ (← v.inspect levels)
  return "\x7b" ++ ", ".intercalate entries ++ "\x7d"

namespace Heap

/-- The frames from `f` outward, over at most so many. -/
def chainFrom (h : Heap) : Nat → Option FrameId → List Frame
  | 0, _ | _, none => []
  | steps + 1, some f =>
    match h.frame? f with
    | none => []
    | some frame => frame :: h.chainFrom steps frame.outer

/-- The frames from `f` outward. -/
def chain (h : Heap) (f : FrameId) : List Frame := h.chainFrom (f + 1) (some f)

/-- The text of a frame by itself. -/
def frameText (levels : Nat) (h : Heap) (f : FrameId) : Except Error String := do
  match h.frame? f with
  | none => return ""
  | some frame =>
    return (← frame.text levels) ++ (if frame.outer.isSome then " -> ..." else "")

/-- The text of a frame with all frames around it. -/
def chainText (levels : Nat) (h : Heap) (f : FrameId) : Except Error String := do
  let frames ← (h.chain f).mapM (Frame.text levels)
  return "<Environment chain: " ++ " -> ".intercalate frames ++ ">"

end Heap

end SmallLisp
