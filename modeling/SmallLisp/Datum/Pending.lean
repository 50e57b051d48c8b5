import SmallLisp.Datum.Word
import SmallLisp.Datum.StringLiteral
import SmallLisp.Token.Queue

/-!
# Half-read expressions

The reader works without recursion on the nesting of its input: what it has read of an unfinished
expression is the list of open lists, each with its elements so far and the number of quotes that
wait for the next element. Main statement: at most one open list is added or removed by a token
(`depth_of_step_more`).
-/

namespace SmallLisp

/-- An expression of which the end has not been read. -/
inductive Pending where
  /-- No list is open. So many quotes wait for the expression. -/
  | outside (quotes : Nat)
  /-- A list is open inside `outer`. It has these elements, and so many quotes wait for the next. -/
  | inside (outer : Pending) (latestFirst : List Datum) (quotes : Nat)

/-- What a token makes of a half-read expression. -/
inductive Progress where
  | more (p : Pending)
  | complete (d : Datum)

namespace Pending

/-- Nothing has been read. -/
def start : Pending := outside 0

/-- The number of open lists. -/
def depth : Pending → Nat
  | outside _ => 0
  | inside outer .. => outer.depth + 1

/-- One more quote waits. -/
def addQuote : Pending → Pending
  | outside quotes => outside (quotes + 1)
  | inside outer latestFirst quotes => inside outer latestFirst (quotes + 1)

/-- A whole element has been read: it is put under the quotes that wait for it, and then into the
innermost open list. -/
def deliver : Pending → Datum → Progress
  | outside quotes, d => .complete (d.quotedTimes quotes)
  | inside outer latestFirst quotes, d =>
    .more (inside outer (d.quotedTimes quotes :: latestFirst) 0)

/-- The innermost open list ends. -/
def close (text : String) : Pending → Except Error Progress
  | outside _ => .error (.unexpectedToken text)
  | inside outer latestFirst 0 => .ok (outer.deliver (Datum.nil.consAll latestFirst))
  | inside _ _ (_ + 1) => .error .danglingQuote

/-- The input ends. -/
def finish : Pending → Except Error Unit
  | outside 0 => .ok ()
  | outside (_ + 1) => .error .danglingQuote
  | inside .. => .error .unclosedList

/-- Reads one token. -/
def step (p : Pending) (t : Token) : Except Error Progress :=
  match t.kind with
  | .quote => .ok (.more p.addQuote)
  | .openParen => .ok (.more (inside p [] 0))
  | .closeParen => p.close t.text
  | .word => (Datum.ofWord t.text).map p.deliver
  | .string => .ok (p.deliver (Datum.atom (.str (StringLiteral.read t.text))))
  | .other => .error (.unexpectedToken t.text)

theorem depth_addQuote (p : Pending) : p.addQuote.depth = p.depth := by
  cases p <;> rfl

theorem depth_of_deliver_more {p q : Pending} {d : Datum} (h : p.deliver d = .more q) :
    q.depth = p.depth := by
  cases p <;> cases h
  rfl

theorem depth_of_step_more {p q : Pending} {t : Token} (h : p.step t = .ok (.more q)) :
    q.depth ≤ p.depth + 1 ∧ p.depth ≤ q.depth + 1 := by
  unfold step at h
  split at h
  · cases h
    simp only [depth_addQuote]
    omega
  · cases h
    simp only [depth]
    omega
  · unfold close at h
    split at h
    · cases h
    · simp only [Except.ok.injEq] at h
      simp only [depth, depth_of_deliver_more h]
      omega
    · cases h
  · cases word : Datum.ofWord t.text with
    | error e => simp [word, Except.map] at h
    | ok d =>
      simp only [word, Except.map, Except.ok.injEq] at h
      rw [depth_of_deliver_more h]
      omega
  · simp only [Except.ok.injEq] at h
    rw [depth_of_deliver_more h]
    omega
  · cases h

end Pending

end SmallLisp
