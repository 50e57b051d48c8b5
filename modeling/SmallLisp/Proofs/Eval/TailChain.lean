import SmallLisp.Proofs.Eval.WiderBounds

/-!
# Chains of tail calls

A call may hand back another call in its place, that one a third, and so on. A chain is made by one
activation that makes the calls one after the other, so it takes one level more than the deepest of
its calls, however long it is. Main statement: a chain of calls that each end within some depth is
made within one more, and all that is made within one more is such a chain
(`call_ends_iff_chain`).
-/

namespace SmallLisp

namespace Machine

/-- One call ends like this when only so many activations stand inside one another. -/
def OnceWithin (spare depth : Nat) (caller : FrameId) (w : World) (fn : Value) (args : List Value)
    (result : Except Error Answer) (w' : World) : Prop :=
  ∃ bounces, ((activations spare bounces depth).callOnce caller fn args).Ends w result w'

/-- A chain of calls, each handed back by the one before, that each end within some depth. The
result is that of the last. -/
inductive ChainWithin (spare depth : Nat) (caller : FrameId) :
    World → Value → List Value → Except Error Value → World → Prop
  | last {w w' : World} {fn : Value} {args : List Value} {result : Except Error Value} :
    OnceWithin spare depth caller w fn args (result.map Answer.value) w' →
    ChainWithin spare depth caller w fn args result w'
  | bounce {w w' w'' : World} {fn fn' : Value} {args args' : List Value}
      {result : Except Error Value} :
    OnceWithin spare depth caller w fn args (.ok (.pending fn' args')) w' →
    ChainWithin spare depth caller w' fn' args' result w'' →
    ChainWithin spare depth caller w fn args result w''

variable {spare depth : Nat} {caller : FrameId} {w w' : World} {fn : Value} {args : List Value}
  {result : Except Error Value}

/-- More calls in a row are allowed. -/
theorem callOnce_ends_mono {bounces bounces' : Nat} (le : bounces ≤ bounces')
    {answer : Except Error Answer}
    (h : ((activations spare bounces depth).callOnce caller fn args).Ends w answer w') :
    ((activations spare bounces' depth).callOnce caller fn args).Ends w answer w' :=
  h.of_le ((activations_within (Nat.le_refl spare) le (Nat.le_refl depth)).callOnce caller fn args)

theorem runChain_ends_mono {bounces bounces' calls calls' : Nat} (le : bounces ≤ bounces')
    (more : calls ≤ calls')
    (h : ((activations spare bounces depth).runChain caller calls fn args).Ends w result w') :
    ((activations spare bounces' depth).runChain caller calls' fn args).Ends w result w' :=
  h.of_le ((activations_within (Nat.le_refl spare) le (Nat.le_refl depth)).runChain caller more
    fn args)

/-- The chain is made within the depth of its calls: the next call starts when the one before has
ended. -/
theorem ChainWithin.exists_runChain (h : ChainWithin spare depth caller w fn args result w') :
    ∃ bounces, ((activations spare bounces depth).runChain caller bounces fn args).Ends
      w result w' := by
  induction h with
  | @last w w' fn args result once =>
    obtain ⟨bounces, ends⟩ := once
    refine ⟨bounces + 1, ?_⟩
    have ends := callOnce_ends_mono (Nat.le_succ bounces) ends
    cases result with
    | ok v => exact ends.bind_ok ⟨rfl, nofun⟩
    | error e => exact ends.bind_error _
  | bounce once _ ih =>
    -- the calls stand one behind the other, so they share the depth and add up in number only
    obtain ⟨bounces, ends⟩ := once
    obtain ⟨bounces', ends'⟩ := ih
    refine ⟨max bounces bounces' + 1, ?_⟩
    have first := callOnce_ends_mono (Nat.le_succ_of_le (Nat.le_max_left bounces bounces')) ends
    have others := runChain_ends_mono (Nat.le_succ_of_le (Nat.le_max_right bounces bounces'))
      (Nat.le_max_right bounces bounces') ends'
    exact first.bind_ok others

/-- What a chain of at most so many calls does is the work of calls that each keep the depth. -/
theorem chainWithin_of_runChain {bounces calls : Nat}
    (h : ((activations spare bounces depth).runChain caller calls fn args).Ends w result w') :
    ChainWithin spare depth caller w fn args result w' := by
  induction calls generalizing w fn args with
  | zero =>
    obtain ⟨run, -⟩ := h
    cases result <;> cases run
  | succ calls ih =>
    rcases EvalM.Ends.of_bind h with ⟨e, ends, rfl⟩ | ⟨answer, w₁, ends, rest⟩
    · exact .last ⟨bounces, ends⟩
    · cases answer with
      | value v =>
        have given : (pure v : EvalM Value).Ends w₁ (.ok v) w₁ := ⟨rfl, nofun⟩
        obtain ⟨rfl, rfl⟩ := rest.unique given
        exact .last ⟨bounces, ends⟩
      | pending fn' args' => exact .bounce ⟨bounces, ends⟩ (ih rest)

/-- A call ends within one activation more than a depth just when it is a chain of calls that each
end within that depth, with the result of the last of them. The length of the chain makes no
difference. -/
theorem call_ends_iff_chain :
    (∃ bounces, ((activations spare bounces (depth + 1)).call caller fn args).Ends w result w') ↔
      ChainWithin spare depth caller w fn args result w' :=
  ⟨fun ⟨_, ends⟩ => chainWithin_of_runChain ends, fun chain => chain.exists_runChain⟩

end Machine

end SmallLisp
