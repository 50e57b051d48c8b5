import SmallLisp.Text.Blank
import SmallLisp.Token.Basic

/-!
# Cutting source text into pieces

A source is a sequence of blanks, comments and tokens. A piece is found by its first character.
The only text that starts no piece is a double quote without a partner. Main statements: a piece
and what follows it make up the text (`next?_append`), so nothing is lost in the whole
(`scan_append`), and what is left over at the end starts no piece (`next?_scan`).
-/

namespace SmallLisp

/-- A piece of source text. -/
inductive Lexeme where
  | blank (c : Char)
  | comment (text : String)
  | token (t : Token)
  deriving DecidableEq, Repr

namespace Lexeme

open Text

/-- The characters of a piece. -/
def chars : Lexeme → List Char
  | blank c => [c]
  | comment text => text.toList
  | token t => t.text.toList

/-- The token that a piece is, if it is one. -/
def token? : Lexeme → Option Token
  | token t => some t
  | _ => none

/-- Characters that belong to a bare word. -/
def isWordChar (c : Char) : Bool :=
  !(isBlank c || c = '(' || c = ')' || c = Token.quoteMark || c = '"' || c = ';')

/-- What follows the end of a string, given what follows its opening quote. A backslash takes the
character behind it along. -/
def afterString? : List Char → Option (List Char)
  | '"' :: rest => some rest
  | '\\' :: _ :: rest => afterString? rest
  | c :: rest => if c = '\\' then none else afterString? rest
  | [] => none

/-- A token of a class, made of the characters of `s` before `rest`. -/
def tokenBefore (kind : TokenKind) (s rest : List Char) : Lexeme :=
  token ⟨kind, String.ofList (s.take (s.length - rest.length))⟩

/-- The first piece of a text, and what follows it. -/
def next? (s : List Char) : Option (Lexeme × List Char) :=
  match s with
  | [] => none
  | c :: rest =>
    if isBlank c then some (blank c, rest)
    else if c = ';' then
      some (comment (String.ofList (s.takeWhile (· ≠ '\n'))), s.dropWhile (· ≠ '\n'))
    else if c = '(' then some (token ⟨.openParen, "("⟩, rest)
    else if c = ')' then some (token ⟨.closeParen, ")"⟩, rest)
    else if c = Token.quoteMark then some (token ⟨.quote, "'"⟩, rest)
    else if c = '"' then
      (afterString? rest).map fun after => (tokenBefore .string s after, after)
    else some (token ⟨.word, String.ofList (s.takeWhile isWordChar)⟩, s.dropWhile isWordChar)

theorem afterString?_suffix {s rest : List Char} (h : afterString? s = some rest) :
    ∃ body, body ≠ [] ∧ s = body ++ rest := by
  fun_induction afterString? s with
  | case1 rest' => exact ⟨['"'], by simp, by simpa using h⟩
  | case2 c tail ih =>
    obtain ⟨body, _, rfl⟩ := ih h
    exact ⟨'\\' :: c :: body, by simp, rfl⟩
  | case3 => simp at h
  | case4 c tail _ _ _ ih =>
    obtain ⟨body, _, rfl⟩ := ih h
    exact ⟨c :: body, by simp, rfl⟩
  | case5 => simp at h

theorem tokenBefore_append (kind : TokenKind) (s rest : List Char) :
    tokenBefore kind (s ++ rest) rest = token ⟨kind, String.ofList s⟩ := by
  rw [tokenBefore, List.length_append, Nat.add_sub_cancel, List.take_left' rfl]

/-- A piece and what follows it make up the text. -/
theorem next?_append {s rest : List Char} {l : Lexeme} (h : next? s = some (l, rest)) :
    l.chars ++ rest = s := by
  cases s with
  | nil => simp [next?] at h
  | cons c tail =>
    simp only [next?] at h
    split at h
    · cases h; rfl
    split at h
    · cases h
      simp [chars, String.toList_ofList, List.takeWhile_append_dropWhile]
    split at h
    · rename_i hc; cases h; simp [chars, hc]
    split at h
    · rename_i hc; cases h; simp [chars, hc]
    split at h
    · rename_i hc; cases h; simp [chars, hc, Token.quoteMark]
    split at h
    · obtain ⟨after, found, eq⟩ := Option.map_eq_some_iff.1 h
      obtain ⟨body, _, rfl⟩ := afterString?_suffix found
      cases eq
      rw [← List.cons_append, tokenBefore_append, chars, String.toList_ofList]
    · cases h
      simp [chars, String.toList_ofList, List.takeWhile_append_dropWhile]

/-- A piece is not empty. -/
theorem chars_ne_nil {s rest : List Char} {l : Lexeme} (h : next? s = some (l, rest)) :
    l.chars ≠ [] := by
  cases s with
  | nil => simp [next?] at h
  | cons c tail =>
    simp only [next?] at h
    split at h
    · cases h; simp [chars]
    rename_i notBlank
    split at h
    · rename_i hc
      cases h
      simp [chars, String.toList_ofList, hc]
    split at h
    · cases h; simp [chars]
    split at h
    · cases h; simp [chars]
    split at h
    · cases h; simp [chars]
    split at h
    · obtain ⟨after, found, eq⟩ := Option.map_eq_some_iff.1 h
      obtain ⟨body, _, rfl⟩ := afterString?_suffix found
      cases eq
      rw [← List.cons_append, tokenBefore_append, chars, String.toList_ofList]
      exact List.cons_ne_nil c body
    · cases h
      simp_all [chars, String.toList_ofList, isWordChar]

theorem length_lt_of_next? {s rest : List Char} {l : Lexeme} (h : next? s = some (l, rest)) :
    rest.length < s.length := by
  have nonempty := List.length_pos_iff.2 (chars_ne_nil h)
  have := congrArg List.length (next?_append h)
  rw [List.length_append] at this
  omega

/-- Cuts pieces off a text as long as there are any, the latest in front of those found before. -/
def scanOnto (latestFirst : List Lexeme) (s : List Char) : List Lexeme × List Char :=
  match _h : next? s with
  | some (l, rest) => scanOnto (l :: latestFirst) rest
  | none => (latestFirst.reverse, s)
termination_by s.length
decreasing_by exact length_lt_of_next? _h

/-- The pieces of a text, and what is left over behind them. -/
def scan (s : List Char) : List Lexeme × List Char := scanOnto [] s

theorem scanOnto_eq (latestFirst : List Lexeme) (s : List Char) :
    scanOnto latestFirst s = (latestFirst.reverse ++ (scan s).1, (scan s).2) := by
  induction hn : s.length using Nat.strongRecOn generalizing s latestFirst with
  | ind n ih =>
    subst hn
    rw [scan, scanOnto, scanOnto]
    split
    · rename_i l rest h
      rw [ih _ (length_lt_of_next? h) _ _ rfl, ih _ (length_lt_of_next? h) [l] _ rfl]
      simp
    · simp

theorem scan_of_next?_eq_some {s rest : List Char} {l : Lexeme} (h : next? s = some (l, rest)) :
    scan s = (l :: (scan rest).1, (scan rest).2) := by
  rw [scan, scanOnto]
  split
  · rename_i found
    rw [h] at found
    cases found
    rw [scanOnto_eq]
    simp
  · rename_i found
    rw [h] at found
    cases found

theorem scan_of_next?_eq_none {s : List Char} (h : next? s = none) : scan s = ([], s) := by
  rw [scan, scanOnto]
  split
  · rename_i found
    rw [h] at found
    cases found
  · rfl

/-- The pieces and what is left over make up the text. -/
theorem scan_append (s : List Char) : (scan s).1.flatMap chars ++ (scan s).2 = s := by
  induction hn : s.length using Nat.strongRecOn generalizing s with
  | ind n ih =>
    subst hn
    cases h : next? s with
    | none => simp [scan_of_next?_eq_none h]
    | some found =>
      obtain ⟨l, rest⟩ := found
      rw [scan_of_next?_eq_some h, List.flatMap_cons, List.append_assoc,
        ih _ (length_lt_of_next? h) _ rfl, next?_append h]

/-- What is left over starts no piece. -/
theorem next?_scan (s : List Char) : next? (scan s).2 = none := by
  induction hn : s.length using Nat.strongRecOn generalizing s with
  | ind n ih =>
    subst hn
    cases h : next? s with
    | none => simpa [scan_of_next?_eq_none h] using h
    | some found =>
      obtain ⟨l, rest⟩ := found
      rw [scan_of_next?_eq_some h]
      exact ih _ (length_lt_of_next? h) _ rfl

end Lexeme

end SmallLisp
