import SmallLisp.Value.Text

/-!
# The text of a printed line

Strings are printed bare and all other values as they are written. Main statement: a line of
strings is the strings with a space between two (`line_map_str`).
-/

namespace SmallLisp.Builtin

/-- The text of an argument of `print`. -/
def printedText (levels : Nat) : Value → Except Error String
  | .atom (.str s) => .ok s
  | v => v.text levels

/-- The line that `print` writes. -/
def line (levels : Nat) (args : List Value) : Except Error String := do
  return " ".intercalate (← args.mapM (printedText levels)) ++ "\n"

theorem line_map_str (levels : Nat) (strings : List String) :
    line levels (strings.map fun s => .atom (.str s)) = .ok (" ".intercalate strings ++ "\n") := by
  have texts : (strings.map fun s => Value.atom (.str s)).mapM (printedText levels) =
      .ok strings := by
    induction strings with
    | nil => rfl
    | cons s strings ih =>
      simp [List.mapM_cons, printedText, ih, bind, Except.bind, pure, Except.pure]
  simp [line, texts, bind, Except.bind, pure, Except.pure]

end SmallLisp.Builtin
