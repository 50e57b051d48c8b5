import SmallLisp.Error
import SmallLisp.Number.Numeral
import SmallLisp.Text.Blank

/-!
# Settings

The two settings that come from outside as text: the number of levels that an evaluation may go
down, and the file with the prelude. A text of white space alone counts as no setting. Main
statement: the number of levels is never lowered (`lt_of_raisedLimit`).
-/

namespace SmallLisp.Settings

open Text

/-- The text of a setting without the white space around it. -/
def content (raw : Option String) : List Char := trim (raw.getD "").toList

/-- The values of digits with single underscores between them. -/
def groupedDigits? : List Char → Option (List Nat)
  | [] => none
  | [c] => (digitValue? c).map ([·])
  | c :: '_' :: rest => do return (← digitValue? c) :: (← groupedDigits? rest)
  | c :: rest => do return (← digitValue? c) :: (← groupedDigits? rest)

/-- The integer that a text denotes: an optional sign and digits, not too many of them. -/
def integer? (s : List Char) : Option Int := do
  let (negative, rest) := Numeral.splitSign s
  let digits ← groupedDigits? rest
  if Error.digitLimit < digits.length then none
  else return Numeral.signed negative (decimalValue digits)

/-- A setting that has to be a positive integer. -/
def positive (setting : String) (raw : Option String) : Except Error (Option Nat) :=
  let s := content raw
  if s.isEmpty then .ok none
  else match integer? s with
    | none => .error (.settingNotInteger setting (String.ofList s))
    | some n =>
      if 0 < n then .ok (some n.toNat)
      else .error (.settingNotPositive setting (toString n))

/-- The parts of a path between slashes. -/
def pathParts (s : List Char) : List String := (String.ofList s).splitOn "/"

/-- The slashes that a path starts with: two are kept, and any other number counts as one. -/
def pathRoot (s : List Char) : String :=
  match (s.takeWhile (· = '/')).length with
  | 0 => ""
  | 2 => "//"
  | _ => "/"

/-- A path without empty parts and without parts that stand for the place where they are. -/
def normalPath (s : List Char) : String :=
  let parts := (pathParts s).filter fun part => part ≠ "" && part ≠ "."
  let path := pathRoot s ++ "/".intercalate parts
  if path.isEmpty then "." else path

/-- A setting that names a file. -/
def path (raw : Option String) : Option String :=
  let s := content raw
  if s.isEmpty then none else some (normalPath s)

/-- The name of the setting for the number of levels. -/
def recursionLimit : String := "ETA_RECURSION_LIMIT"

/-- The name of the setting for the prelude. -/
def preludePath : String := "ETA_PRELUDE_PATH"

/-- The file with the prelude, which has to exist. -/
def preludeFile (isFile : String → Bool) (raw : Option String) : Except Error (Option String) :=
  match path raw with
  | none => .ok none
  | some file =>
    if isFile file then .ok (some file) else .error (.settingNotFile preludePath file)

/-- The number of levels that the setting asks for, if it is more than the present one. -/
def raisedLimit (current : Nat) (raw : Option String) : Except Error (Option Nat) :=
  (positive recursionLimit raw).map fun limit => limit.filter (current < ·)

theorem lt_of_raisedLimit {current limit : Nat} {raw : Option String}
    (h : raisedLimit current raw = .ok (some limit)) : current < limit := by
  unfold raisedLimit at h
  cases asked : positive recursionLimit raw with
  | error e => simp [asked, Except.map] at h
  | ok found =>
    simp only [asked, Except.map, Except.ok.injEq] at h
    simpa using (Option.filter_eq_some_iff.1 h).2

end SmallLisp.Settings
