import SmallLisp.Datum.Pending

/-!
# Reading expressions

`TokenQueue.next` reads one expression off a queue and leaves the rest of the queue, also behind
an error. `TokenQueue.readAll` reads until the end of input or the first error. Main statement: a
read expression uses up at least one token (`length_lt_of_next_eq_some`), which is why reading
ends.
-/

namespace SmallLisp

namespace Pending

/-- What is read when tokens are fed to a half-read expression: an expression or an error with the
tokens behind it, or, if the tokens do not suffice, a half-read expression. -/
inductive Fed where
  | done (result : Except Error Datum) (rest : List Token)
  | ranOut (p : Pending)

/-- Feeds tokens until an expression is complete. -/
def feed (p : Pending) : List Token → Fed
  | [] => .ranOut p
  | t :: rest =>
    match p.step t with
    | .ok (.more q) => q.feed rest
    | .ok (.complete d) => .done (.ok d) rest
    | .error e => .done (.error e) rest

theorem length_lt_of_feed_done {p : Pending} {tokens rest : List Token}
    {result : Except Error Datum} (h : p.feed tokens = .done result rest) :
    rest.length < tokens.length := by
  induction tokens generalizing p with
  | nil => cases h
  | cons t tokens ih =>
    simp only [feed] at h
    split at h
    · exact Nat.lt_succ_of_lt (ih h)
    · cases h; simp
    · cases h; simp

end Pending

namespace TokenQueue

/-- The next expression, none at the end of input. The failure behind the tokens is reported once,
and the queue is empty from then on. -/
def next (s : TokenQueue) : Except Error (Option Datum) × TokenQueue :=
  match Pending.start.feed s.tokens with
  | .done result rest => (result.map some, { s with tokens := rest })
  | .ranOut p =>
    match s.failure with
    | some e => (.error e, ofTokens [])
    | none => (p.finish.map fun _ => none, ofTokens [])

theorem length_lt_of_next_eq_some {s rest : TokenQueue} {d : Datum}
    (h : s.next = (.ok (some d), rest)) : rest.tokens.length < s.tokens.length := by
  unfold next at h
  split at h
  · rename_i fed
    simp only [Prod.mk.injEq] at h
    obtain ⟨_, rfl⟩ := h
    exact Pending.length_lt_of_feed_done fed
  · rename_i p _
    split at h
    · cases h
    · cases finished : p.finish <;> simp [finished, Except.map] at h

/-- All expressions of a queue. -/
def readAll (s : TokenQueue) : Except Error (List Datum) :=
  match _h : s.next with
  | (.error e, _) => .error e
  | (.ok none, _) => .ok []
  | (.ok (some d), rest) => rest.readAll.map (d :: ·)
termination_by s.tokens.length
decreasing_by exact length_lt_of_next_eq_some _h

end TokenQueue

/-- All expressions of a source text. -/
def Datum.readAll (source : String) : Except Error (List Datum) :=
  (TokenQueue.ofSource source).readAll

end SmallLisp
