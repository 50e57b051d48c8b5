import SmallLisp.Binary64.Text
import SmallLisp.Error

/-!
# Numbers

A number is an integer of any size or a float. Main statements: an integer is written exactly when
it has at most `Error.digitLimit` digits (`text_int`, `text_int_eq_error_iff`).
-/

namespace SmallLisp

/-- The numbers of the language. -/
inductive Number where
  | int (n : Int)
  | float (x : Float)
  deriving DecidableEq

namespace Number

/-- The number as a float. An integer is rounded to the nearest one, if it is in range. -/
def toFloat : Number → Except Error Float
  | int n => (Binary64.ofInt? n).elim (.error .intTooLarge) .ok
  | float x => .ok x

/-- The integer is short enough to be written. -/
def isWritable (n : Int) : Bool := n.natAbs < Nat.pow 10 Error.digitLimit

/-- The text of a number. -/
def text : Number → Except Error String
  | int n => if isWritable n then .ok (toString n) else .error .tooLongToWrite
  | float x => .ok (Binary64.text x)

theorem text_int {n : Int} (h : isWritable n = true) : (int n).text = .ok (toString n) := by
  simp [text, h]

theorem text_int_eq_error_iff {n : Int} :
    (int n).text = .error .tooLongToWrite ↔ Nat.pow 10 Error.digitLimit ≤ n.natAbs := by
  simp [text, isWritable]

end Number

end SmallLisp
