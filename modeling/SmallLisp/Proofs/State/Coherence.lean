import SmallLisp.Proofs.Eval.Mirrored
import SmallLisp.Proofs.State.WellFormed

/-!
# Identities identify

Every cell and every function that a run makes gets an identity that none has had before, and keeps
it together with its content. Main statements: in a coherent state values are alike to themselves,
and plain data to plain data of the same shape (`Coherent.like_self`, `Coherent.like_of_same`), runs
keep states coherent (`Coherent.run`), and so all states of sessions are (`Reachable.coherent`).
-/

namespace SmallLisp

namespace World

/-- The value occurs in what the frames bind, or in some values besides. -/
def Holds (w : World) (vs : List Value) (u : Value) : Prop :=
  (∃ v ∈ vs, u ∈ v.parts) ∨
    ∃ g frame, w.heap.frame? g = some frame ∧ ∃ entry ∈ frame.bindings, u ∈ entry.2.parts

/-- In what the frames bind, together with some values besides, an identity belongs to one cell or
function only, and none is still to be given out. -/
structure Coherent (w : World) (vs : List Value) : Prop where
  identified : Value.Identified (w.Holds vs)
  older : ∀ u i, w.Holds vs u → u.identity? = some i → i < w.fresh

variable {w : World} {vs us : List Value}

theorem Holds.mono {u : Value} (sub : us ⊆ vs) (h : w.Holds us u) : w.Holds vs u := by
  rcases h with ⟨v, member, inside⟩ | bound
  · exact .inl ⟨v, sub member, inside⟩
  · exact .inr bound

theorem Coherent.mono (sub : us ⊆ vs) (h : w.Coherent vs) : w.Coherent us :=
  ⟨fun u u' here here' => h.identified u u' (here.mono sub) (here'.mono sub),
    fun u i here => h.older u i (here.mono sub)⟩

/-- States that hold nothing but the parts of some values are looked through value by value. -/
theorem coherent_of_parts (us : List Value)
    (held : ∀ u, w.Holds vs u → u ∈ Value.partsOf us)
    (identified : Value.Identified (· ∈ Value.partsOf us))
    (older : ∀ u ∈ Value.partsOf us, ∀ i ∈ u.identity?, i < w.fresh) : w.Coherent vs :=
  ⟨fun u u' here here' => identified u u' (held u here) (held u' here'),
    fun u i here known => older u (held u here) i known⟩

end World

/-! ## Coherent states side by side -/

namespace World.Coherent

variable {w : World} {vs : List Value} (coherent : w.Coherent vs) {slack : Nat}

/-- In a coherent state everything stands for itself, and plain data may stand for other plain data
of the same shape. -/
def pairing (slack : Nat) : Pairing slack where
  Pair u u' := w.Holds vs u ∧ w.Holds vs u' ∧ (u = u' ∨ u.Plain slack ∧ u.Same u')
  left u v := fun ⟨_, here⟩ ⟨_, here'⟩ => coherent.identified u v here.1 here'.1
  right u v := fun ⟨_, here⟩ ⟨_, here'⟩ => coherent.identified u v here.2.1 here'.2.1
  forward := by
    rintro u u' v' ⟨-, -, rfl | ⟨plain, -⟩⟩ ⟨-, -, rfl | ⟨plain', -⟩⟩
    · exact .inl rfl
    · exact .inr plain'
    · exact .inr plain
    · exact .inr plain
  backward := by
    rintro u v u' ⟨-, -, rfl | ⟨plain, same⟩⟩ ⟨-, -, rfl | ⟨plain', same'⟩⟩
    · exact .inl rfl
    · exact .inr (plain'.of_same same')
    · exact .inr (plain.of_same same)
    · exact .inr (plain.of_same same)

theorem like_self {v : Value} (held : ∀ u ∈ v.parts, w.Holds vs u) :
    (coherent.pairing slack).Like v v := by
  induction v with
  | nil => exact .nil
  | atom a => exact .atom a
  | builtin op => exact .builtin op
  | cons i head rest ihHead ihRest =>
    have here := held _ (Value.self_mem_parts _)
    refine .cons ⟨here, here, .inl rfl⟩ (ihHead fun u inside => ?_) (ihRest fun u inside => ?_)
    · exact held u (by simp [Value.parts, inside])
    · exact held u (by simp [Value.parts, inside])
  | closure header body ih =>
    have here := held _ (Value.self_mem_parts _)
    refine .closure ⟨here, here, .inl rfl⟩ rfl rfl rfl (ih fun u inside => ?_)
    exact held u (by simp [Value.parts, inside])

theorem like_of_mem {v : Value} (member : v ∈ vs) : (coherent.pairing slack).Like v v :=
  coherent.like_self fun _ inside => .inl ⟨v, member, inside⟩

/-- Plain data of the same shape are alike. -/
theorem like_of_same {v v' : Value} (plain : v.Plain slack) (same : v.Same v')
    (held : ∀ u ∈ v.parts, w.Holds vs u) (held' : ∀ u ∈ v'.parts, w.Holds vs u) :
    (coherent.pairing slack).Like v v' := by
  induction v generalizing v' with
  | cons i head rest ihHead ihRest =>
    cases v' with
    | cons i' head' rest' =>
      obtain ⟨plainHead, plainRest⟩ := plain.parts
      refine .cons ⟨held _ (Value.self_mem_parts _), held' _ (Value.self_mem_parts _),
        .inr ⟨plain, same⟩⟩ ?_ ?_
      · exact ihHead plainHead same.1 (fun u inside => held u (by simp [Value.parts, inside]))
          fun u inside => held' u (by simp [Value.parts, inside])
      · exact ihRest plainRest same.2 (fun u inside => held u (by simp [Value.parts, inside]))
          fun u inside => held' u (by simp [Value.parts, inside])
    | _ => cases same
  | _ =>
    cases same
    exact coherent.like_self held

/-- The state beside itself. -/
def joint (slack : Nat) : Joint slack := ⟨coherent.pairing slack, w, w⟩

theorem good (slack : Nat) : (coherent.joint slack).Good := by
  refine ⟨⟨rfl, fun g => ?_⟩, rfl, fun u u' pair => ?_⟩
  · show Option.Rel _ (w.heap.frame? g) (w.heap.frame? g)
    cases there : w.heap.frame? g with
    | none => exact .none
    | some frame =>
      refine .some ⟨rfl, List.forall₂_same.2 fun entry bound => ⟨rfl, ?_⟩⟩
      exact coherent.like_self fun u inside => .inr ⟨g, frame, there, entry, bound, inside⟩
  · exact ⟨fun i => coherent.older u i pair.1, fun i => coherent.older u' i pair.2.1⟩

end World.Coherent

namespace Pairing

variable {slack : Nat} {P : Pairing slack}

/-- All cells and functions in a value have counterparts. -/
theorem Like.exists_pair {v v' u : Value} (h : P.Like v v') (inside : u ∈ v.parts)
    (known : u.identity?.isSome) : ∃ u', P.Pair u u' := by
  induction h with
  | cons pair _ _ ihFirst ihOthers =>
    rw [Value.parts, List.mem_cons, List.mem_append] at inside
    rcases inside with rfl | inHead | inRest
    · exact ⟨_, pair⟩
    · exact ihFirst inHead
    · exact ihOthers inRest
  | closure pair params env name _ ih =>
    rw [Value.parts, List.mem_cons] at inside
    rcases inside with rfl | inBody
    · exact ⟨_, pair⟩
    · exact ih inBody
  | _ =>
    cases List.mem_singleton.1 inside
    cases known

theorem exists_related {α β : Type} {R : α → β → Prop} {as : List α} {bs : List β}
    (h : List.Forall₂ R as bs) {a : α} (member : a ∈ as) : ∃ b, R a b := by
  induction h with
  | nil => cases member
  | cons first _ ih =>
    rcases List.mem_cons.1 member with rfl | behind
    · exact ⟨_, first⟩
    · exact ih behind

end Pairing

/-- States are coherent if they are alike. -/
theorem Joint.Good.coherent {slack : Nat} {s : Joint slack} (good : s.Good) {vs : List Value}
    (held : ∀ v ∈ vs, ∃ v', s.pairing.Like v v') : s.left.Coherent vs := by
  have paired {u : Value} (here : s.left.Holds vs u) (known : u.identity?.isSome) :
      ∃ u', s.pairing.Pair u u' := by
    rcases here with ⟨v, member, inside⟩ | ⟨g, frame, there, entry, bound, inside⟩
    · obtain ⟨v', alike⟩ := held v member
      exact alike.exists_pair inside known
    · rcases Pairing.rel_cases (good.heap.frames g) with ⟨none, -⟩ | ⟨f, f', some, -, same⟩
      · rw [there] at none
        cases none
      · obtain rfl := Option.some.inj (there.symm.trans some)
        obtain ⟨entry', -, alike⟩ := Pairing.exists_related same.bindings bound
        exact alike.exists_pair inside known
  refine ⟨fun u u' here here' known same => ?_, fun u i here known => ?_⟩
  · exact s.pairing.left u u' (paired here known) (paired here' (same ▸ known)) known same
  · obtain ⟨u', pair⟩ := paired here (by rw [known]; rfl)
    exact (good.older u u' pair).1 i known

/-- A run that mirrors itself keeps the state coherent, together with its result. -/
theorem World.Coherent.run {α : Type} {x : EvalM α} {R : Pairing 0 → α → α → Prop} {w : World}
    {vs : List Value} (coherent : w.Coherent vs) (mirrors : (coherent.joint 0).Mirrors x x R)
    (held : α → List Value) (covers : ∀ P a b, R P a b → ∀ v ∈ held a, ∃ v', P.Like v v') :
    (x.runFrom w).2.Coherent vs ∧
      ∀ a, (x.runFrom w).1 = .ok a → (x.runFrom w).2.Coherent (held a ++ vs) := by
  rcases mirrors with ⟨loose, -⟩ | ⟨r, r', s', run, run', later, both⟩
  · exact absurd loose (Nat.lt_irrefl 0)
  have started : x.runFrom w = (r, s'.left) := run
  have kept (v : Value) (member : v ∈ vs) : ∃ v', s'.pairing.Like v v' :=
    ⟨v, later.like (coherent.like_of_mem member)⟩
  rw [started]
  refine ⟨later.good.coherent kept, ?_⟩
  rintro a rfl
  cases both with
  | ok related =>
    refine later.good.coherent fun v member => ?_
    rcases List.mem_append.1 member with given | old
    · exact covers _ _ _ related v given
    · exact kept v old

/-- Calls keep states coherent, together with their results. -/
theorem World.Coherent.call {w : World} {vs : List Value} (coherent : w.Coherent vs)
    (limits : Limits) (caller : FrameId) {fn : Value} (function : fn ∈ vs) {args : List Value}
    (arguments : args ⊆ vs) :
    ((limits.machine.call caller fn args).runFrom w).2.Coherent vs ∧
      ∀ v, ((limits.machine.call caller fn args).runFrom w).1 = .ok v →
        ((limits.machine.call caller fn args).runFrom w).2.Coherent (v :: vs) := by
  have mirrors := (mirrored_machine 0 limits.bounces limits.depth).call caller (coherent.good 0)
    (coherent.like_of_mem function)
    (List.forall₂_same.2 fun a member => coherent.like_of_mem (arguments member))
  refine coherent.run mirrors (fun v => [v]) fun P v v' alike u member => ?_
  cases List.mem_singleton.1 member
  exact ⟨v', alike⟩

/-! ## Sessions -/

namespace Session

open Joint (Mirrors)

variable {slack : Nat} {m m' : Machine} {s : Joint slack}

theorem runDatum_mirrors (h : Machine.Mirrored slack m m') (good : s.Good) (root : FrameId)
    (d : Datum) : s.Mirrors (runDatum m root d) (runDatum m' root d) fun P => P.Like := by
  apply (Mirrors.load good d).bind
  intro s' e e' later code
  apply (h.eval root Context.topLevel later.good code).bind
  intro s'' answer answer' later' alike
  exact h.settle later'.good root alike

theorem runAll_mirrors (h : Machine.Mirrored slack m m') (good : s.Good) (root : FrameId)
    (ds : List Datum) : s.Mirrors (runAll m root ds) (runAll m' root ds) fun P => P.Like := by
  induction ds generalizing s with
  | nil => exact .stop good _
  | cons d ds ih =>
    cases ds with
    | nil => exact runDatum_mirrors h good root d
    | cons e es =>
      apply (runDatum_mirrors h good root d).bind
      intro s' _ _ later _
      exact ih later.good

theorem runSource_mirrors (h : Machine.Mirrored slack m m') (good : s.Good) (root : FrameId)
    (source : String) :
    s.Mirrors (runSource m root source) (runSource m' root source) fun P => P.Like := by
  apply Mirrors.part_bind good (.same (Datum.readAll source))
  rintro ds _ rfl
  unfold runProgram
  split
  · exact .pure good .nil
  · exact runAll_mirrors h good root ds

theorem newRoot_mirrors (good : s.Good) : s.Mirrors newRoot newRoot fun _ => Eq := by
  have bindAll (ops : List Builtin) (f : FrameId) : ∀ {s : Joint slack}, s.Good →
      s.Mirrors (ops.forM fun op => EvalM.define f op.symbol (.builtin op))
        (ops.forM fun op => EvalM.define f op.symbol (.builtin op)) fun _ _ _ => True := by
    induction ops with
    | nil => exact fun good => .pure good trivial
    | cons op ops ih =>
      intro s good
      apply (Mirrors.define good f op.symbol (.builtin op)).bind
      intro s' _ _ later _
      exact ih later.good
  apply (Mirrors.newFrame good none).bind
  rintro s' f _ later rfl
  apply (bindAll Builtin.all f later.good).bind
  intro s'' _ _ later' _
  exact .pure later'.good rfl

theorem start_mirrors (h : Machine.Mirrored slack m m') (good : s.Good) (first : Prelude) :
    s.Mirrors (start m first) (start m' first) fun _ => Eq := by
  apply (newRoot_mirrors good).bind
  rintro s' root _ later rfl
  split
  · apply (runSource_mirrors h later.good root _).bind
    intro s'' _ _ later' _
    exact .pure later'.good rfl
  · exact .pure later.good rfl

theorem coherent_initial : World.initial.Coherent [] := by
  have nothing (u : Value) : ¬ World.initial.Holds [] u := by
    rintro (⟨v, member, -⟩ | ⟨g, frame, there, -⟩)
    · cases member
    · cases there
  exact ⟨fun u _ here => absurd here (nothing u), fun u _ here => absurd here (nothing u)⟩

/-- Evaluating what has been read keeps states coherent, together with the value. -/
theorem coherent_runDatum {w : World} {vs : List Value} (coherent : w.Coherent vs) (limits : Limits)
    (env : FrameId) (d : Datum) :
    ((runDatum limits.machine env d).runFrom w).2.Coherent vs ∧
      ∀ v, ((runDatum limits.machine env d).runFrom w).1 = .ok v →
        ((runDatum limits.machine env d).runFrom w).2.Coherent (v :: vs) := by
  have mirrored := mirrored_machine 0 limits.bounces limits.depth
  have mirrors := runDatum_mirrors mirrored (coherent.good 0) env d
  refine coherent.run mirrors (fun v => [v]) fun P v v' alike u member => ?_
  cases List.mem_singleton.1 member
  exact ⟨v', alike⟩

/-- All states of sessions are coherent. -/
theorem Reachable.coherent {w : World} (h : Reachable w) : w.Coherent [] := by
  have mirrored (limits : Limits) : Machine.Mirrored 0 limits.machine limits.machine :=
    mirrored_machine 0 limits.bounces limits.depth
  induction h with
  | start limits first =>
    have mirrors := start_mirrors (mirrored limits) (coherent_initial.good 0) first
    exact (coherent_initial.run mirrors (fun _ => []) nofun).1
  | @source w limits root source _ _ ih =>
    have mirrors := runSource_mirrors (mirrored limits) (ih.good 0) root source
    exact (ih.run mirrors (fun _ => []) nofun).1

end Session

end SmallLisp
