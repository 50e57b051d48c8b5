import SmallLisp.Builtin.Basic
import SmallLisp.Text.Quoted

/-!
# Errors

An error is its cause, with what the message shows of the offending value already written out. The
wording is in `Error.message`, and `Error.kind` sorts the causes into the kinds that callers tell
apart. Main statement: only arithmetic on numbers out of range and settings fall outside the kinds
that belong to the language (`inLanguage_iff`).
-/

namespace SmallLisp

/-- The place in a form where a name is expected. -/
inductive NamePlace where
  | define | set | defun | letDeclaration
  deriving DecidableEq, Repr

/-- How messages speak of the place. -/
def NamePlace.description : NamePlace → String
  | define => "define"
  | set => "set"
  | defun => "defun"
  | letDeclaration => "let declaration"

/-- The two parts of a non-empty list. -/
inductive ListPart where
  | head | rest
  deriving DecidableEq, Repr

/-- The operation that takes a part of a list. -/
def ListPart.operation : ListPart → Builtin
  | head => .car
  | rest => .cdr

/-- How messages speak of the part. -/
def ListPart.description : ListPart → String
  | head => "head"
  | rest => "rest"

/-- Why reading, evaluating or configuring failed. -/
inductive Error where
  /-- No frame of the chain binds the name. -/
  | undefinedSymbol (name : String)
  /-- An assignment to a name that no frame of the chain binds. -/
  | unboundAssignment (name : String)
  /-- A binding was asked for under something that is no symbol. -/
  | notBindable (shown : String)
  /-- A form needs a symbol in this place. -/
  | nameRequired (place : NamePlace) (shown type : String)
  /-- The declarations of a `let` are no list. -/
  | notDeclarations
  | notDeclaration (shown : String)
  | notClause (shown : String)
  /-- The parameters of a function are no list. -/
  | notParameters (shown : String)
  | notParameter (index : Nat) (type : String)
  | notNumber (op : Builtin) (shown : String)
  | notList (op : Builtin) (shown : String)
  /-- The operation was applied to the empty list. -/
  | emptyList (part : ListPart)
  /-- The part of the empty list was asked for directly. -/
  | partOfNil (part : ListPart)
  | notCallable (shown : String)
  /-- A function got fewer arguments than it names parameters. -/
  | missingArguments (callee : String) (expected given : Nat)
  /-- An operation takes a fixed number of arguments. -/
  | wrongCount (op : Builtin) (expected given : Nat)
  | noArguments (op : Builtin)
  | emptyBody
  /-- The evaluation is nested too deeply. -/
  | stackExhausted
  | divisionByZero
  | intTooLarge
  | quotientTooLarge
  /-- An integer of so many digits is too long to be read. -/
  | tooLongToRead (digits : Nat)
  /-- An integer is too long to be written. -/
  | tooLongToWrite
  /-- A character that starts no token. -/
  | unexpectedChar (position : Nat) (char : Char)
  | unexpectedToken (text : String)
  | unclosedList
  | danglingQuote
  /-- A setting that must be an integer is none. -/
  | settingNotInteger (setting text : String)
  | settingNotPositive (setting value : String)
  | settingNotFile (setting path : String)
  deriving DecidableEq, Repr

/-- The kinds of error that callers tell apart. -/
inductive ErrorKind where
  | undefinedSymbol
  | typeMismatch
  | improperListAccess
  | notCallable
  | arityMismatch
  | unboundAssignment
  | emptyBody
  | stackExhausted
  | malformedSource
  /-- An error of the language of no special kind. -/
  | general
  /-- A number is out of range. -/
  | overflow
  /-- A text cannot be converted. -/
  | invalidValue
  deriving DecidableEq, Repr

namespace ErrorKind

/-- The kinds that a program of the language may cause by its own fault. -/
def inLanguage : ErrorKind → Bool
  | overflow | invalidValue => false
  | _ => true

end ErrorKind

namespace Error

/-- The number of digits up to which integers are read and written. -/
def digitLimit : Nat := 4300

/-- The kind of an error. -/
def kind : Error → ErrorKind
  | undefinedSymbol _ => .undefinedSymbol
  | unboundAssignment _ => .unboundAssignment
  | notBindable _ | nameRequired .. | notDeclarations | notDeclaration _ | notClause _
  | notParameters _ | notParameter .. | notNumber .. | notList .. => .typeMismatch
  | emptyList _ | partOfNil _ => .improperListAccess
  | notCallable _ => .notCallable
  | missingArguments .. | wrongCount .. | noArguments _ => .arityMismatch
  | emptyBody => .emptyBody
  | stackExhausted => .stackExhausted
  | divisionByZero => .general
  | intTooLarge | quotientTooLarge => .overflow
  | tooLongToRead _ | tooLongToWrite => .invalidValue
  | unexpectedChar .. | unexpectedToken _ | unclosedList | danglingQuote => .malformedSource
  | settingNotInteger .. | settingNotPositive .. | settingNotFile .. => .invalidValue

/-- What an operation on lists expects. -/
def listExpected : Builtin → String
  | .cons => "a list as its second argument"
  | .apply => "a list of arguments"
  | _ => "a list"

/-- The sentence about the limit on the length of integers. -/
def digitLimitExceeded : String :=
  s!"Exceeds the limit ({digitLimit} digits) for integer string conversion"

/-- The advice that follows it. -/
def digitLimitAdvice : String := "; use sys.set_int_max_str_digits() to increase the limit"

/-- The text of an error. -/
def message : Error → String
  | undefinedSymbol name => s!"\"{name}\" is not defined"
  | unboundAssignment name => s!"Cannot set unbound symbol {name}"
  | notBindable shown => s!"Cannot define {shown} as a symbol"
  | nameRequired place shown type =>
    s!"Symbol required for {place.description}; received {shown}, which is a {type}"
  | notDeclarations => "Expected list of declarations for let form"
  | notDeclaration shown => s!"Expected declaration clause, found {shown}"
  | notClause shown => s!"Expected conditional clause, found {shown}"
  | notParameters shown => s!"Expected list of parameter names, received {shown}"
  | notParameter index type =>
    s!"Expected list of parameter names, but parameter {index} is a {type}"
  | notNumber op shown => s!"All arguments to {op.name} must be numbers, got {shown}"
  | notList op shown => s!"{op.name} expects {listExpected op}, got {shown}"
  | emptyList part => s!"{part.operation.name} of empty list"
  | partOfNil part => s!"Cannot take the {part.description} of the empty list"
  | notCallable shown => s!"{shown} is not callable"
  | missingArguments callee expected given =>
    s!"{callee} expects {expected} argument(s), got {given}"
  | wrongCount op expected given =>
    s!"{op.name} requires exactly {expected} argument(s), got {given}"
  | noArguments op => s!"{op.name} requires at least 1 argument"
  | emptyBody => "Expected at least one expression in body"
  | stackExhausted => "Maximum recursion depth exceeded (non-tail recursion is not optimised)"
  | divisionByZero => "Division by zero"
  | intTooLarge => "int too large to convert to float"
  | quotientTooLarge => "integer division result too large for a float"
  | tooLongToRead digits =>
    s!"{digitLimitExceeded}: value has {digits} digits{digitLimitAdvice}"
  | tooLongToWrite => s!"{digitLimitExceeded}{digitLimitAdvice}"
  | unexpectedChar position char =>
    s!"Unexpected char at {position}: {Text.quoted (String.singleton char)}"
  | unexpectedToken text => s!"Unexpected {Text.quoted text}"
  | unclosedList => "Unmatched '('"
  | danglingQuote => "Expected an expression after quote"
  | settingNotInteger setting text => s!"{setting} must be an integer, got {Text.quoted text}"
  | settingNotPositive setting value => s!"{setting} must be positive, got {value}"
  | settingNotFile setting path => s!"{setting} must name an existing file, got {Text.quoted path}"

/-- Numbers out of range and settings are the causes outside the language. -/
theorem inLanguage_iff (e : Error) :
    e.kind.inLanguage = false ↔ e = intTooLarge ∨ e = quotientTooLarge ∨
      (∃ digits, e = tooLongToRead digits) ∨ e = tooLongToWrite ∨
      (∃ setting text, e = settingNotInteger setting text) ∨
      (∃ setting value, e = settingNotPositive setting value) ∨
      ∃ setting path, e = settingNotFile setting path := by
  cases e <;> simp [kind, ErrorKind.inLanguage]

end Error

end SmallLisp
