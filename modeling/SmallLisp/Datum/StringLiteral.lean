/-!
# String literals

A string is written between double quotes, a double quote, a backslash and a newline in it as an
escape. The reader knows more escapes than the writer uses, and takes any other character behind a
backslash as it is. Main statement: what is written reads back (`decode_encode`).
-/

namespace SmallLisp.StringLiteral

/-- How a character is written inside a literal. -/
def encodeChar (c : Char) : List Char :=
  if c = '"' then ['\\', '"']
  else if c = '\\' then ['\\', '\\']
  else if c = '\n' then ['\\', 'n']
  else [c]

/-- The inside of the literal of a text. -/
def encode (s : List Char) : List Char := s.flatMap encodeChar

/-- What a character behind a backslash stands for. -/
def resolve (c : Char) : Char :=
  if c = 'n' then '\n' else if c = 't' then '\t' else if c = 'r' then '\r' else c

/-- The text that the inside of a literal denotes. A backslash at the very end stands for itself. -/
def decode : List Char → List Char
  | '\\' :: c :: rest => resolve c :: decode rest
  | c :: rest => c :: decode rest
  | [] => []

/-- A text between its quotes. -/
def write (s : String) : String := String.ofList ('"' :: (encode s.toList ++ ['"']))

/-- The text that a literal denotes, its first and last character aside. -/
def read (literal : String) : String :=
  String.ofList (decode (literal.toList.drop 1).dropLast)

theorem decode_encode (s : List Char) : decode (encode s) = s := by
  induction s with
  | nil => rfl
  | cons c s ih =>
    rw [encode, List.flatMap_cons, ← encode]
    by_cases quote : c = '"'
    · simp [encodeChar, quote, decode, resolve, ih]
    · by_cases backslash : c = '\\'
      · simp [encodeChar, backslash, decode, resolve, ih]
      · by_cases newline : c = '\n'
        · simp [encodeChar, newline, decode, resolve, ih]
        · simp [encodeChar, quote, backslash, newline, decode, ih]

/-- A written string reads back. -/
theorem read_write (s : String) : read (write s) = s := by
  simp [read, write, String.toList_ofList, decode_encode]

end SmallLisp.StringLiteral
