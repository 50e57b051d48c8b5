import SmallLisp.Proofs.State.Sources
import SmallLisp.Proofs.State.Tree
import SmallLisp.Proofs.Value.Pairing

/-!
# Two runs side by side

Two runs go on side by side in states that are alike: the frames bind the same names to values that
are alike, and the same has been printed. What one run makes is paired with what the other makes.
Main statements: what a run makes gets a counterpart (`Good.exists_pair`), sequences mirror each
other if their parts do (`Mirrors.bind`), and the primitive steps do (`lookup`, `define`, `newCell`
and so on).
-/

namespace SmallLisp

namespace Pairing

variable {slack : Nat} {P Q : Pairing slack}

theorem rel_cases {α β : Type} {R : α → β → Prop} {a : Option α} {b : Option β}
    (h : Option.Rel R a b) :
    (a = none ∧ b = none) ∨ ∃ x y, a = some x ∧ b = some y ∧ R x y := by
  cases h with
  | none => exact .inl ⟨rfl, rfl⟩
  | some related => exact .inr ⟨_, _, rfl, rfl, related⟩

/-- The frames hang off the same frame, and bind the same symbols to values that are alike. -/
structure LikeFrame (P : Pairing slack) (f f' : Frame) : Prop where
  outer : f.outer = f'.outer
  bindings : List.Forall₂ (fun entry entry' => entry.1 = entry'.1 ∧ P.Like entry.2 entry'.2)
    f.bindings f'.bindings

namespace LikeFrame

variable {f f' : Frame}

theorem mono (le : P ≤ Q) (h : P.LikeFrame f f') : Q.LikeFrame f f' :=
  ⟨h.outer, h.bindings.imp fun _ _ entry => ⟨entry.1, entry.2.mono le⟩⟩

theorem get? (h : P.LikeFrame f f') (x : Symbol) :
    Option.Rel P.Like (f.get? x) (f'.get? x) := by
  obtain ⟨-, rows⟩ := h
  rw [Frame.get?, Frame.get?]
  generalize f.bindings = bindings at rows
  generalize f'.bindings = bindings' at rows
  induction rows with
  | nil => exact .none
  | @cons entry entry' _ _ first _ ih =>
    obtain ⟨y, v⟩ := entry
    obtain ⟨y', v'⟩ := entry'
    obtain ⟨rfl, alike⟩ := first
    rw [Frame.getBinding?, Frame.getBinding?]
    split
    · exact .some alike
    · exact ih

theorem binds_eq (h : P.LikeFrame f f') (x : Symbol) : f.binds x = f'.binds x := by
  rw [Frame.binds, Frame.binds]
  rcases rel_cases (h.get? x) with ⟨none, none'⟩ | ⟨v, v', some, some', -⟩
  · rw [none, none']
  · rw [some, some']
    rfl

theorem put (h : P.LikeFrame f f') (x : Symbol) {v v' : Value} (alike : P.Like v v') :
    P.LikeFrame (f.put x v) (f'.put x v') := by
  obtain ⟨outer, rows⟩ := h
  refine ⟨outer, ?_⟩
  rw [Frame.put, Frame.put]
  generalize f.bindings = bindings at rows
  generalize f'.bindings = bindings' at rows
  induction rows with
  | nil => exact .cons ⟨rfl, alike⟩ .nil
  | @cons entry entry' _ _ first others ih =>
    obtain ⟨y, u⟩ := entry
    obtain ⟨y', u'⟩ := entry'
    obtain ⟨rfl, same⟩ := first
    rw [Frame.putBinding, Frame.putBinding]
    split
    · exact .cons ⟨rfl, alike⟩ others
    · exact .cons ⟨rfl, same⟩ ih

end LikeFrame

/-- The heaps have the same frames, which are alike. -/
structure LikeHeap (P : Pairing slack) (h h' : Heap) : Prop where
  size : h.size = h'.size
  frames : ∀ g, Option.Rel P.LikeFrame (h.frame? g) (h'.frame? g)

namespace LikeHeap

variable {h h' : Heap}

theorem mono (le : P ≤ Q) (alike : P.LikeHeap h h') : Q.LikeHeap h h' := by
  refine ⟨alike.size, fun g => ?_⟩
  rcases rel_cases (alike.frames g) with ⟨none, none'⟩ | ⟨frame, frame', some, some', same⟩
  · rw [none, none']
    exact .none
  · rw [some, some']
    exact .some (same.mono le)

/-- If frames that are alike answer alike, the walk outward does. -/
theorem outward? (alike : P.LikeHeap h h') {α β : Type} {R : α → β → Prop}
    {pick : FrameId → Frame → Option α} {pick' : FrameId → Frame → Option β}
    (answers : ∀ g frame frame', P.LikeFrame frame frame' →
      Option.Rel R (pick g frame) (pick' g frame')) (steps : Nat) (f : FrameId) :
    Option.Rel R (h.outward? pick steps f) (h'.outward? pick' steps f) := by
  induction steps generalizing f with
  | zero => exact .none
  | succ steps ih =>
    rw [Heap.outward?, Heap.outward?]
    rcases rel_cases (alike.frames f) with ⟨none, none'⟩ | ⟨frame, frame', some, some', same⟩
    · rw [none, none']
      exact .none
    rw [some, some']
    dsimp only
    rcases rel_cases (answers f frame frame' same) with ⟨none, none'⟩ | ⟨a, b, some, some', related⟩
    · rw [none, none', same.outer]
      cases frame'.outer with
      | none => exact .none
      | some outer => exact ih outer
    · rw [some, some']
      exact .some related

theorem lookup? (alike : P.LikeHeap h h') (f : FrameId) (x : Symbol) :
    Option.Rel P.Like (h.lookup? f x) (h'.lookup? f x) :=
  alike.outward? (fun _ _ _ same => same.get? x) (f + 1) f

theorem find?_eq (alike : P.LikeHeap h h') (f : FrameId) (x : Symbol) :
    h.find? f x = h'.find? f x := by
  have found : Option.Rel Eq (h.find? f x) (h'.find? f x) := by
    refine alike.outward? (fun g frame frame' same => ?_) (f + 1) f
    rw [same.binds_eq x]
    split
    · exact .some rfl
    · exact .none
  rcases rel_cases found with ⟨none, none'⟩ | ⟨owner, owner', some, some', rfl⟩
  · rw [none, none']
  · rw [some, some']

theorem define (alike : P.LikeHeap h h') (f : FrameId) (x : Symbol) {v v' : Value}
    (same : P.Like v v') : P.LikeHeap (h.define f x v) (h'.define f x v') := by
  refine ⟨by rw [Heap.size_define, Heap.size_define, alike.size], fun g => ?_⟩
  rw [Heap.frame?_define, Heap.frame?_define]
  split
  · rcases rel_cases (alike.frames g) with ⟨none, none'⟩ | ⟨frame, frame', some, some', frames⟩
    · rw [none, none']
      exact .none
    · rw [some, some']
      exact .some (frames.put x same)
  · exact alike.frames g

theorem extend (alike : P.LikeHeap h h') (outer : Option FrameId) :
    P.LikeHeap (h.extend outer) (h'.extend outer) := by
  refine ⟨by rw [Heap.size_extend, Heap.size_extend, alike.size], fun g => ?_⟩
  rw [Heap.frame?_extend, Heap.frame?_extend, alike.size]
  split
  · exact .some ⟨rfl, .nil⟩
  · exact alike.frames g

end LikeHeap

end Pairing

namespace EvalM

/-- A run that comes out like one that ends, ends. -/
theorem Ends.exists_of_both {α β : Type} {R : α → β → Prop} {x : EvalM α} {y : EvalM β}
    {w w' w₁ w₁' : World} {r : Except Error α} {r' : Except Stop β} (ended : x.Ends w r w₁)
    (run : y.runFrom w' = (r', w₁')) (both : Except.Both R (r.mapError Stop.error) r') :
    ∃ result, y.Ends w' result w₁' ∧ Except.Both R r result := by
  cases r with
  | error e =>
    cases both
    exact ⟨.error e, ⟨run, fun same => ended.2 (by cases same; rfl)⟩, .error e⟩
  | ok a =>
    cases both with
    | @ok _ b related => exact ⟨.ok b, ⟨run, nofun⟩, .ok related⟩

end EvalM

/-- The states of two runs, and what is paired in them. -/
structure Joint (slack : Nat) where
  pairing : Pairing slack
  left : World
  right : World

namespace Joint

variable {slack : Nat} {s s' s'' : Joint slack}

/-- The states are alike, and what will be made has been paired with nothing yet. -/
structure Good (s : Joint slack) : Prop where
  heap : s.pairing.LikeHeap s.left.heap s.right.heap
  printed : s.left.printed = s.right.printed
  older : ∀ u u', s.pairing.Pair u u' → (∀ i, u.identity? = some i → i < s.left.fresh) ∧
    ∀ i, u'.identity? = some i → i < s.right.fresh

/-- The states are alike later on, and what was paired still is. -/
structure Later (s s' : Joint slack) : Prop where
  good : s'.Good
  grown : s.pairing ≤ s'.pairing

namespace Later

theorem refl (good : s.Good) : s.Later s := ⟨good, le_refl _⟩

theorem trans (h : s.Later s') (h' : s'.Later s'') : s.Later s'' :=
  ⟨h'.good, le_trans h.grown h'.grown⟩

theorem like (h : s.Later s') {v v' : Value} (alike : s.pairing.Like v v') :
    s'.pairing.Like v v' := alike.mono h.grown

theorem likeAll (h : s.Later s') {vs vs' : List Value} (alike : s.pairing.LikeAll vs vs') :
    s'.pairing.LikeAll vs vs' := alike.imp fun _ _ => h.like

end Later

namespace Good

/-- What both runs make next is paired. -/
theorem exists_pair (good : s.Good) (u u' : Value) (made : u.identity? = some s.left.fresh)
    (made' : u'.identity? = some s.right.fresh) :
    ∃ P, s.Later ⟨P, s.left.advance 1, s.right.advance 1⟩ ∧ P.Pair u u' := by
  have new {v v' : Value} (pair : s.pairing.Pair v v') : v.identity? ≠ u.identity? := by
    intro same
    exact Nat.lt_irrefl _ ((good.older v v' pair).1 _ (same.trans made))
  have new' {v v' : Value} (pair : s.pairing.Pair v v') : v'.identity? ≠ u'.identity? := by
    intro same
    exact Nat.lt_irrefl _ ((good.older v v' pair).2 _ (same.trans made'))
  let P : Pairing slack := {
    Pair := fun v v' => s.pairing.Pair v v' ∨ (v = u ∧ v' = u')
    left := by
      rintro v w ⟨v', pair | ⟨rfl, rfl⟩⟩ ⟨w', pair' | ⟨rfl, rfl⟩⟩ known same
      · exact s.pairing.left v w ⟨v', pair⟩ ⟨w', pair'⟩ known same
      · exact absurd same (new pair)
      · exact absurd same.symm (new pair')
      · rfl
    right := by
      rintro v' w' ⟨v, pair | ⟨rfl, rfl⟩⟩ ⟨w, pair' | ⟨rfl, rfl⟩⟩ known same
      · exact s.pairing.right v' w' ⟨v, pair⟩ ⟨w, pair'⟩ known same
      · exact absurd same (new' pair)
      · exact absurd same.symm (new' pair')
      · rfl
    forward := by
      rintro v v' w' (pair | ⟨rfl, rfl⟩) (pair' | ⟨same, rfl⟩)
      · exact s.pairing.forward pair pair'
      · exact absurd (congrArg Value.identity? same) (new pair)
      · exact absurd rfl (new pair')
      · exact .inl rfl
    backward := by
      rintro v w v' (pair | ⟨rfl, rfl⟩) (pair' | ⟨rfl, same⟩)
      · exact s.pairing.backward pair pair'
      · exact absurd (congrArg Value.identity? same) (new' pair)
      · exact absurd rfl (new' pair')
      · exact .inl rfl }
  have grown : s.pairing ≤ P := fun _ _ => .inl
  refine ⟨P, ⟨⟨good.heap.mono grown, good.printed, ?_⟩, grown⟩, .inr ⟨rfl, rfl⟩⟩
  rintro v v' (pair | ⟨rfl, rfl⟩)
  · obtain ⟨before, before'⟩ := good.older v v' pair
    exact ⟨fun i known => Nat.lt_succ_of_lt (before i known),
      fun i known => Nat.lt_succ_of_lt (before' i known)⟩
  · refine ⟨fun i known => ?_, fun i known => ?_⟩
    · exact Nat.lt_succ_of_le (Nat.le_of_eq (Option.some.inj (known.symm.trans made)))
    · exact Nat.lt_succ_of_le (Nat.le_of_eq (Option.some.inj (known.symm.trans made')))

/-- A new cell on both sides. -/
theorem exists_cell (good : s.Good) {head head' rest rest' : Value}
    (first : s.pairing.Like head head') (others : s.pairing.Like rest rest') :
    ∃ P, s.Later ⟨P, s.left.advance 1, s.right.advance 1⟩ ∧
      P.Like (.cons s.left.fresh head rest) (.cons s.right.fresh head' rest') := by
  obtain ⟨P, later, pair⟩ := good.exists_pair (.cons s.left.fresh head rest)
    (.cons s.right.fresh head' rest') rfl rfl
  exact ⟨P, later, .cons pair (later.like first) (later.like others)⟩

/-- New cells in front of a list on both sides. -/
theorem exists_consAll {items items' : List Value} (good : s.Good)
    (alike : s.pairing.LikeAll items items') {rest rest' : Value}
    (others : s.pairing.Like rest rest') :
    ∃ P, s.Later ⟨P, s.left.advance items.length, s.right.advance items'.length⟩ ∧
      P.Like (Value.consAll s.left.fresh rest items) (Value.consAll s.right.fresh rest' items') := by
  induction items generalizing items' s rest rest' with
  | nil =>
    cases alike
    exact ⟨s.pairing, .refl good, others⟩
  | cons v items ih =>
    cases alike with
    | @cons _ v' _ items' first behind =>
      obtain ⟨P, later, cell⟩ := good.exists_cell first others
      obtain ⟨Q, later', list⟩ := ih later.good (later.likeAll behind) cell
      have count (w : World) (n : Nat) : (w.advance 1).advance n = w.advance (n + 1) := by
        simp [World.advance, Nat.add_assoc, Nat.add_comm 1 n]
      rw [count, count] at later'
      exact ⟨Q, later.trans later', list⟩

/-- The cells of a datum on both sides. -/
theorem exists_load (good : s.Good) (d : Datum) :
    ∃ P, s.Later ⟨P, s.left.advance d.cells, s.right.advance d.cells⟩ ∧
      P.Like (Value.load d s.left.fresh).1 (Value.load d s.right.fresh).1 := by
  induction d generalizing s with
  | nil => exact ⟨s.pairing, .refl good, .nil⟩
  | atom a => exact ⟨s.pairing, .refl good, .atom a⟩
  | cons head rest ihHead ihRest =>
    obtain ⟨P, later, first⟩ := ihHead good
    obtain ⟨Q, later', others⟩ := ihRest later.good
    obtain ⟨R, later'', cell⟩ := later'.good.exists_cell (later'.like first) others
    have count (w : World) : ((w.advance head.cells).advance rest.cells).advance 1 =
        w.advance (Datum.cons head rest).cells := by
      simp [World.advance, Datum.cells, Nat.add_assoc]
    rw [count, count] at later''
    refine ⟨R, (later.trans later').trans later'', ?_⟩
    simp only [Value.load, Value.load_snd]
    exact cell

end Good

/-- The runs come out alike, or, if there is slack, the first is stopped by its bounds. -/
def Mirrors {α β : Type} (s : Joint slack) (x : EvalM α) (y : EvalM β)
    (post : Pairing slack → α → β → Prop) : Prop :=
  (0 < slack ∧ x.Exhausts s.left) ∨
    ∃ r r' s', x.runFrom s.left = (r, s'.left) ∧ y.runFrom s.right = (r', s'.right) ∧ s.Later s' ∧
      Except.Both (post s'.pairing) r r'

namespace Mirrors

variable {α β γ δ : Type} {x : EvalM α} {y : EvalM β} {f : α → EvalM γ} {g : β → EvalM δ}
  {post : Pairing slack → α → β → Prop} {post' : Pairing slack → γ → δ → Prop}

theorem pure (good : s.Good) {a : α} {b : β} (h : post s.pairing a b) :
    s.Mirrors (pure a) (pure b) post :=
  .inr ⟨.ok a, .ok b, s, rfl, rfl, .refl good, .ok h⟩

theorem stop (good : s.Good) (stop : Stop) : s.Mirrors (throw stop) (throw stop) post :=
  .inr ⟨.error stop, .error stop, s, rfl, rfl, .refl good, .error stop⟩

theorem bind (h : s.Mirrors x y post)
    (next : ∀ s' a b, s.Later s' → post s'.pairing a b → s'.Mirrors (f a) (g b) post') :
    s.Mirrors (x >>= f) (y >>= g) post' := by
  rcases h with ⟨loose, stop, w, bound, run⟩ | ⟨r, r', s', run, run', later, both⟩
  · exact .inl ⟨loose, stop, w, bound, EvalM.runFrom_bind_error run f⟩
  cases both with
  | error e =>
    exact .inr ⟨.error e, .error e, s', EvalM.runFrom_bind_error run f,
      EvalM.runFrom_bind_error run' g, later, .error e⟩
  | @ok a b related =>
    have onward := EvalM.runFrom_bind_ok run f
    rcases next s' a b later related with ⟨loose, stop, w, bound, goesOn⟩ |
      ⟨r, r', s'', goesOn, goesOn', later', both⟩
    · exact .inl ⟨loose, stop, w, bound, onward.trans goesOn⟩
    · exact .inr ⟨r, r', s'', onward.trans goesOn, (EvalM.runFrom_bind_ok run' g).trans goesOn',
        later.trans later', both⟩

theorem part_bind {R : α → β → Prop} {part : Except Error α} {part' : Except Error β}
    (good : s.Good) (h : Except.Agree slack R part part')
    (next : ∀ a b, R a b → s.Mirrors (f a) (g b) post') :
    s.Mirrors (EvalM.ofExcept part >>= f) (EvalM.ofExcept part' >>= g) post' := by
  rcases h with ⟨loose, rfl⟩ | both
  · exact .inl ⟨loose, _, s.left, .inl rfl, rfl⟩
  · cases both with
    | error e => exact stop good (.error e)
    | ok related => exact next _ _ related

/-! ### The primitive steps -/

theorem lookup (good : s.Good) (env : FrameId) (x : Symbol) :
    s.Mirrors (EvalM.lookup env x) (EvalM.lookup env x) fun P => P.Like := by
  rcases Pairing.rel_cases (good.heap.lookup? env x) with
    ⟨left, right⟩ | ⟨v, v', left, right, alike⟩
  · exact .inr ⟨_, _, s, EvalM.runFrom_lookup_of_none left, EvalM.runFrom_lookup_of_none right,
      .refl good, .error _⟩
  · exact .inr ⟨_, _, s, EvalM.runFrom_lookup_of_some left, EvalM.runFrom_lookup_of_some right,
      .refl good, .ok alike⟩

theorem define (good : s.Good) (env : FrameId) (x : Symbol) {v v' : Value}
    (alike : s.pairing.Like v v') :
    s.Mirrors (EvalM.define env x v) (EvalM.define env x v') fun _ _ _ => True :=
  .inr ⟨.ok (), .ok (), ⟨s.pairing, s.left.bind env x v, s.right.bind env x v'⟩, rfl, rfl,
    ⟨⟨good.heap.define env x alike, good.printed, good.older⟩, le_refl _⟩, .ok trivial⟩

theorem assign (good : s.Good) (env : FrameId) (x : Symbol) {v v' : Value}
    (alike : s.pairing.Like v v') :
    s.Mirrors (EvalM.assign env x v) (EvalM.assign env x v') fun _ _ _ => True := by
  have same := good.heap.find?_eq env x
  cases found : s.left.heap.find? env x with
  | none =>
    exact .inr ⟨_, _, s, EvalM.runFrom_assign_of_none found v,
      EvalM.runFrom_assign_of_none (same.symm.trans found) v', .refl good, .error _⟩
  | some owner =>
    exact .inr ⟨_, _, ⟨s.pairing, s.left.bind owner x v, s.right.bind owner x v'⟩,
      EvalM.runFrom_assign_of_some found v,
      EvalM.runFrom_assign_of_some (same.symm.trans found) v',
      ⟨⟨good.heap.define owner x alike, good.printed, good.older⟩, le_refl _⟩, .ok trivial⟩

theorem newFrame (good : s.Good) (outer : Option FrameId) :
    s.Mirrors (EvalM.newFrame outer) (EvalM.newFrame outer) fun _ => Eq :=
  .inr ⟨.ok s.left.heap.size, .ok s.right.heap.size,
    ⟨s.pairing, s.left.extend outer, s.right.extend outer⟩, rfl, rfl,
    ⟨⟨good.heap.extend outer, good.printed, good.older⟩, le_refl _⟩, .ok good.heap.size⟩

theorem newClosure (good : s.Good) (params : List Symbol) (env : FrameId) (name : Option Symbol)
    {body body' : Value} (inside : s.pairing.Like body body') :
    s.Mirrors (do return .closure ⟨← EvalM.newId, params, env, name⟩ body)
      (do return .closure ⟨← EvalM.newId, params, env, name⟩ body') fun P => P.Like := by
  obtain ⟨P, later, pair⟩ := good.exists_pair
    (.closure ⟨s.left.fresh, params, env, name⟩ body)
    (.closure ⟨s.right.fresh, params, env, name⟩ body') rfl rfl
  exact .inr ⟨_, _, _, rfl, rfl, later, .ok (.closure pair rfl rfl rfl (later.like inside))⟩

theorem newCell (good : s.Good) {head head' rest rest' : Value}
    (first : s.pairing.Like head head') (others : s.pairing.Like rest rest') :
    s.Mirrors (EvalM.newCell head rest) (EvalM.newCell head' rest') fun P => P.Like := by
  obtain ⟨P, later, cell⟩ := good.exists_cell first others
  exact .inr ⟨_, _, _, rfl, rfl, later, .ok cell⟩

theorem newList (good : s.Good) {items items' : List Value}
    (alike : s.pairing.LikeAll items items') :
    s.Mirrors (EvalM.newList items) (EvalM.newList items') fun P => P.Like := by
  obtain ⟨P, later, list⟩ := good.exists_consAll (List.rel_reverse alike) .nil
  rw [List.length_reverse, List.length_reverse] at later
  exact .inr ⟨_, _, _, rfl, rfl, later, .ok list⟩

theorem load (good : s.Good) (d : Datum) :
    s.Mirrors (EvalM.load d) (EvalM.load d) fun P => P.Like := by
  obtain ⟨P, later, alike⟩ := good.exists_load d
  refine .inr ⟨_, _, ⟨P, s.left.advance d.cells, s.right.advance d.cells⟩, ?_, ?_, later,
    .ok alike⟩
  · exact Prod.ext rfl (congrArg (fun fresh => { s.left with fresh }) (Value.load_snd d _))
  · exact Prod.ext rfl (congrArg (fun fresh => { s.right with fresh }) (Value.load_snd d _))

theorem emit (good : s.Good) (text : String) :
    s.Mirrors (EvalM.emit text) (EvalM.emit text) fun _ _ _ => True :=
  .inr ⟨.ok (), .ok (), ⟨s.pairing, s.left.print text, s.right.print text⟩, rfl, rfl,
    ⟨⟨good.heap, congrArg (·.push text) good.printed, good.older⟩, le_refl _⟩, .ok trivial⟩

end Mirrors

end Joint

end SmallLisp
