import Mathlib.Data.List.Chain
import SmallLisp.Eval.Rules
import SmallLisp.Proofs.Failure

/-!
# Equality looks at nothing but the shape

Comparing two lists stops at a cell that they share, and looks at the elements otherwise. Where an
identity belongs to one cell or function only, as identities do, and no float occurs, both ways come
to the same: two values are equal just when they have the same shape and the same leaves. Main
statements: what a comparison answers (`equal_eq_true_iff`), that it answers (`exists_equal`), and
so for a row of values, of which neighbours are compared (`equality_structural`).
-/

namespace SmallLisp

namespace Value

/-- Two cells are the same if their heads and their rests are, whatever their identities. Everything
else is the same as itself only. -/
def Same : Value → Value → Prop
  | cons _ head rest, cons _ head' rest' => head.Same head' ∧ rest.Same rest'
  | a, b => a = b

/-- No float occurs in the value. What is inside of functions does not count. -/
def FloatFree : Value → Prop
  | atom (.number (.float _)) => False
  | cons _ head rest => head.FloatFree ∧ rest.FloatFree
  | _ => True

/-- How many lists stand inside one another. -/
def nesting : Value → Nat
  | cons _ head rest => max (head.nesting + 1) rest.nesting
  | _ => 0

/-- The identity of a cell or a function made by the program. -/
def identity? : Value → Option Nat
  | cons id _ _ => some id
  | closure header _ => some header.id
  | _ => none

/-- The value and all that occurs in it, as an element of a list or in the body of a function. -/
def parts : Value → List Value
  | cons id head rest => cons id head rest :: (head.parts ++ rest.parts)
  | closure header body => closure header body :: body.parts
  | v => [v]

/-- The values of a row and all that occurs in them. -/
def partsOf (vs : List Value) : List Value := vs.flatMap parts

/-- An identity belongs to one cell or one function only. -/
def Identified (among : Value → Prop) : Prop :=
  ∀ u u', among u → among u' → u.identity?.isSome → u.identity? = u'.identity? → u = u'

instance (vs : List Value) : Decidable (Identified (· ∈ vs)) :=
  decidable_of_iff
    (∀ u ∈ vs, ∀ u' ∈ vs, u.identity?.isSome → u.identity? = u'.identity? → u = u')
    ⟨fun h u u' here here' => h u here u' here', fun h u here u' here' => h u u' here here'⟩

/-! ## Parts -/

@[simp] theorem self_mem_parts (v : Value) : v ∈ v.parts := by
  cases v <;> simp [parts]

theorem mem_parts_trans {t u v : Value} (first : t ∈ u.parts) (second : u ∈ v.parts) :
    t ∈ v.parts := by
  induction v with
  | cons id head rest ihHead ihRest =>
    rw [parts, List.mem_cons, List.mem_append] at second
    rcases second with rfl | inHead | inRest
    · exact first
    · simp [parts, ihHead inHead]
    · simp [parts, ihRest inRest]
  | closure header body ih =>
    rw [parts, List.mem_cons] at second
    rcases second with rfl | inBody
    · exact first
    · simp [parts, ih inBody]
  | _ => cases List.mem_singleton.1 second; exact first

theorem mem_partsOf {vs : List Value} {u : Value} : u ∈ partsOf vs ↔ ∃ v ∈ vs, u ∈ v.parts :=
  List.mem_flatMap

theorem mem_partsOf_of_mem {vs : List Value} {v : Value} (member : v ∈ vs) : v ∈ partsOf vs :=
  mem_partsOf.2 ⟨v, member, self_mem_parts v⟩

theorem partsOf_closed {vs : List Value} (id : Nat) (head rest : Value)
    (h : cons id head rest ∈ partsOf vs) : head ∈ partsOf vs ∧ rest ∈ partsOf vs := by
  obtain ⟨v, member, inside⟩ := mem_partsOf.1 h
  have inHead : head ∈ (cons id head rest).parts := by simp [parts]
  have inRest : rest ∈ (cons id head rest).parts := by simp [parts]
  exact ⟨mem_partsOf.2 ⟨v, member, mem_parts_trans inHead inside⟩,
    mem_partsOf.2 ⟨v, member, mem_parts_trans inRest inside⟩⟩

/-! ## Sameness -/

@[refl] theorem Same.refl (v : Value) : v.Same v := by
  induction v with
  | cons id head rest ihHead ihRest => exact ⟨ihHead, ihRest⟩
  | _ => rfl

theorem Same.symm {a b : Value} (h : a.Same b) : b.Same a := by
  induction a generalizing b with
  | cons id head rest ihHead ihRest =>
    cases b with
    | cons => exact ⟨ihHead h.1, ihRest h.2⟩
    | _ => cases h
  | _ => cases h; rfl

theorem Same.trans {a b c : Value} (h : a.Same b) (h' : b.Same c) : a.Same c := by
  induction a generalizing b c with
  | cons id head rest ihHead ihRest =>
    cases b with
    | cons =>
      cases c with
      | cons => exact ⟨ihHead h.1 h'.1, ihRest h.2 h'.2⟩
      | _ => cases h'
    | _ => cases h
  | _ => cases h; exact h'

theorem same_equivalence : Equivalence Same := ⟨Same.refl, Same.symm, Same.trans⟩

instance : Trans Same Same Same := ⟨Same.trans⟩

theorem Same.floatFree {a b : Value} (h : a.Same b) (free : a.FloatFree) : b.FloatFree := by
  induction a generalizing b with
  | cons id head rest ihHead ihRest =>
    cases b with
    | cons => exact ⟨ihHead h.1 free.1, ihRest h.2 free.2⟩
    | _ => trivial
  | _ => cases h; exact free

end Value

/-! ## Comparing -/

/-- Without floats, atoms are equal as they are. -/
theorem Atom.same_eq_true_iff {a b : Atom} (free : (Value.atom a).FloatFree)
    (free' : (Value.atom b).FloatFree) : a.same b = true ↔ a = b := by
  cases a with
  | number n =>
    cases n with
    | float => cases free
    | int n =>
      cases b with
      | number k =>
        cases k with
        | float => cases free'
        | int k => simp [same, Number.same_int]
      | _ => simp [same]
  | _ => cases b <;> simp [same]

namespace Value

variable {among : Value → Prop} {levels : Nat} {a b : Value}

theorem sameLeaf_eq_true_iff (identified : Identified among) (hereA : among a) (hereB : among b)
    (freeA : a.FloatFree) (freeB : b.FloatFree)
    (notCells : ∀ i head rest j head' rest', ¬ (a = cons i head rest ∧ b = cons j head' rest')) :
    a.sameLeaf b = true ↔ a.Same b := by
  cases a with
  | atom x =>
    cases b with
    | atom y => simpa [sameLeaf, Same] using Atom.same_eq_true_iff freeA freeB
    | _ => simp [sameLeaf, Same]
  | cons i head rest =>
    cases b with
    | cons j head' rest' => exact absurd ⟨rfl, rfl⟩ (notCells i head rest j head' rest')
    | _ => simp [sameLeaf, Same]
  | closure header body =>
    cases b with
    | closure header' body' =>
      show (header.id == header'.id) = true ↔ closure header body = closure header' body'
      rw [beq_iff_eq]
      constructor
      · intro same
        exact identified _ _ hereA hereB rfl (congrArg some same)
      · intro same
        cases same
        rfl
    | _ => simp [sameLeaf, Same]
  | nil => cases b <;> simp [sameLeaf, Same]
  | builtin op => cases b <;> simp [sameLeaf, Same]

/-- If a comparison answers, then as the shapes and leaves say: where it stops at a cell that both
sides have, their elements are the same anyway. -/
theorem equal_eq_true_iff (identified : Identified among)
    (closed : ∀ i head rest, among (cons i head rest) → among head ∧ among rest)
    (hereA : among a) (hereB : among b) (freeA : a.FloatFree) (freeB : b.FloatFree) {r : Bool}
    (h : a.equal levels b = .ok r) : r = true ↔ a.Same b := by
  induction levels generalizing a b r with
  | zero => cases h
  | succ levels ihLevels =>
    rw [equal] at h
    -- along the two lists, whose heads are compared with one level less
    induction a generalizing b r with
    | cons i head rest _ ih =>
      cases b with
      | cons j head' rest' =>
        rw [equalLists] at h
        split at h
        · cases h
          have shared : cons i head rest = cons j head' rest' :=
            identified _ _ hereA hereB rfl (congrArg some ‹i = j›)
          exact iff_of_true rfl (shared ▸ Same.refl _)
        · obtain ⟨hereHead, hereRest⟩ := closed _ _ _ hereA
          obtain ⟨hereHead', hereRest'⟩ := closed _ _ _ hereB
          obtain ⟨same, first, others⟩ := Except.bind_eq_ok.1 h
          have heads := ihLevels hereHead hereHead' freeA.1 freeB.1 first
          cases same with
          | false =>
            cases others
            exact iff_of_false Bool.false_ne_true fun both => by cases heads.2 both.1
          | true =>
            have rests := ih hereRest hereRest' freeA.2 freeB.2 others
            exact rests.trans ⟨fun same => ⟨heads.1 rfl, same⟩, And.right⟩
      | _ =>
        cases h
        refine sameLeaf_eq_true_iff identified hereA hereB freeA freeB ?_
        rintro _ _ _ _ _ _ ⟨-, other⟩
        cases other
    | _ =>
      cases h
      refine sameLeaf_eq_true_iff identified hereA hereB freeA freeB ?_
      rintro _ _ _ _ _ _ ⟨other, -⟩
      cases other

theorem sameLeaf_self {v : Value} (free : v.FloatFree)
    (notCell : ∀ i head rest, v ≠ cons i head rest) : v.sameLeaf v = true := by
  cases v with
  | atom a => exact (Atom.same_eq_true_iff free free).2 rfl
  | cons i head rest => exact absurd rfl (notCell i head rest)
  | _ => simp [sameLeaf]

/-- Values of the same shape and with the same leaves are equal, unless the levels run out. -/
theorem equal_le_of_same (same : a.Same b) (free : a.FloatFree) (levels : Nat) :
    a.equal levels b ≤ .ok true := by
  induction levels generalizing a b with
  | zero => exact Except.stackExhausted_le _
  | succ levels ihLevels =>
    rw [equal]
    induction a generalizing b with
    | cons i head rest _ ih =>
      cases b with
      | cons j head' rest' =>
        rw [equalLists]
        split
        · exact le_refl _
        · rcases ihLevels same.1 free.1 with exhausted | heads
          · rw [exhausted]
            exact Except.stackExhausted_le _
          · rw [heads]
            exact ih same.2 free.2
      | _ => cases same
    | _ =>
      cases same
      refine .inr (congrArg _ (sameLeaf_self free fun _ _ _ other => ?_))
      cases other

/-- A comparison answers if it may go down as deep as the lists of one side stand inside one
another. -/
theorem exists_equal (b : Value) (enough : a.nesting < levels) : ∃ r, a.equal levels b = .ok r := by
  induction levels generalizing a b with
  | zero => cases enough
  | succ levels ihLevels =>
    rw [equal]
    induction a generalizing b with
    | cons i head rest _ ih =>
      cases b with
      | cons j head' rest' =>
        rw [equalLists]
        split
        · exact ⟨true, rfl⟩
        · rw [nesting] at enough
          obtain ⟨same, first⟩ := ihLevels (a := head) head' (by omega)
          obtain ⟨r, others⟩ := ih rest' (by omega)
          refine ⟨if same then r else false, Except.bind_eq_ok.2 ⟨same, first, ?_⟩⟩
          cases same with
          | false => rfl
          | true => exact others
      | _ => exact ⟨_, rfl⟩
    | _ => exact ⟨_, rfl⟩

end Value

namespace Builtin

open Value (Same Identified)

variable {levels : Nat} {args : List Value}

/-- Equality of neighbours all along a row is equality of any two of it. -/
theorem equalAll_eq_true_iff {among : Value → Prop} (identified : Identified among)
    (closed : ∀ i head rest, among (.cons i head rest) → among head ∧ among rest)
    (here : ∀ v ∈ args, among v) (free : ∀ v ∈ args, v.FloatFree) {r : Bool}
    (h : equalAll levels args = .ok r) : r = true ↔ args.Pairwise Same := by
  rw [← List.isChain_iff_pairwise]
  induction args generalizing r with
  | nil =>
    cases h
    simp
  | cons a args ih =>
    cases args with
    | nil =>
      cases h
      simp
    | cons b rest =>
      obtain ⟨same, first, others⟩ := Except.bind_eq_ok.1 h
      have pair : same = true ↔ a.Same b :=
        Value.equal_eq_true_iff identified closed (here a (by simp)) (here b (by simp))
          (free a (by simp)) (free b (by simp)) first
      rw [List.isChain_cons_cons]
      cases same with
      | false =>
        cases others
        exact iff_of_false Bool.false_ne_true fun both => by cases pair.2 both.1
      | true =>
        have behind := ih (fun v member => here v (List.mem_cons_of_mem a member))
          (fun v member => free v (List.mem_cons_of_mem a member)) others
        exact behind.trans ⟨fun chain => ⟨pair.1 rfl, chain⟩, And.right⟩

theorem exists_equalAll (enough : ∀ v ∈ args, v.nesting < levels) :
    ∃ r, equalAll levels args = .ok r := by
  induction args with
  | nil => exact ⟨true, rfl⟩
  | cons a args ih =>
    cases args with
    | nil => exact ⟨true, rfl⟩
    | cons b rest =>
      obtain ⟨same, first⟩ := Value.exists_equal b (enough a (by simp))
      obtain ⟨r, others⟩ := ih fun v member => enough v (List.mem_cons_of_mem a member)
      refine ⟨if same then r else false, Except.bind_eq_ok.2 ⟨same, first, ?_⟩⟩
      cases same with
      | false => rfl
      | true => exact others

end Builtin

namespace Value

/-- Without floats, equality is sameness of shape and leaves, whatever cells are shared. Two values
that have as many levels as they need are compared, and whenever a comparison answers, it answers
whether they are the same, so that values of the same shapes with other identities get the same
answer. Sameness is an equivalence, and what is no cell is the same as itself only. The operation on
a row compares neighbours, and answers whether any two of the row are the same. -/
theorem equality_structural :
    (∀ a b : Value, a.FloatFree → b.FloatFree → Identified (· ∈ partsOf [a, b]) →
      (∀ levels, a.nesting < levels → ∃ r, a.equal levels b = .ok r) ∧
      (∀ levels r, a.equal levels b = .ok r → (r = true ↔ a.Same b)) ∧
      ∀ a' b' : Value, a.Same a' → b.Same b' → Identified (· ∈ partsOf [a', b']) →
        ∀ levels levels' r r', a.equal levels b = .ok r → a'.equal levels' b' = .ok r' → r = r') ∧
    Equivalence Same ∧
    (∀ a b : Value, (∀ i head rest, a ≠ cons i head rest) → (a.Same b ↔ a = b)) ∧
    ∀ (m : Machine) (caller : FrameId) (args : List Value) (w : World),
      (∀ v ∈ args, v.FloatFree) → Identified (· ∈ partsOf args) →
      ((∀ v ∈ args, v.nesting < m.levels) → ∃ r,
        (m.runBuiltin caller .equals args).runFrom w = (.ok (.bool r), w)) ∧
      ∀ v w', (m.runBuiltin caller .equals args).runFrom w = (.ok v, w') →
        w' = w ∧ ∃ r, v = .bool r ∧ (r = true ↔ args.Pairwise Same) := by
  have compares (a b : Value) (freeA : a.FloatFree) (freeB : b.FloatFree)
      (identified : Identified (· ∈ partsOf [a, b])) (levels : Nat) (r : Bool)
      (answers : a.equal levels b = .ok r) : r = true ↔ a.Same b :=
    equal_eq_true_iff identified partsOf_closed (mem_partsOf_of_mem (by simp))
      (mem_partsOf_of_mem (by simp)) freeA freeB answers
  refine ⟨fun a b freeA freeB identified => ⟨fun levels => exists_equal b, ?_, ?_⟩,
    same_equivalence, ?_, ?_⟩
  · exact compares a b freeA freeB identified
  · intro a' b' sameA sameB identified' levels levels' r r' answers answers'
    have first := compares a b freeA freeB identified levels r answers
    have second := compares a' b' (sameA.floatFree freeA) (sameB.floatFree freeB) identified' levels'
      r' answers'
    have shapes : a.Same b ↔ a'.Same b' :=
      ⟨fun same => sameA.symm.trans (same.trans sameB),
        fun same => sameA.trans (same.trans sameB.symm)⟩
    exact Bool.eq_iff_iff.2 (first.trans (shapes.trans second.symm))
  · intro a b leaf
    cases a with
    | cons i head rest => exact absurd rfl (leaf i head rest)
    | _ => cases b <;> rfl
  · intro m caller args w free identified
    have runs {x : Except Error Bool} (computed : Builtin.equalAll m.levels args = x) :
        (m.runBuiltin caller .equals args).runFrom w =
          ((x.mapError Stop.error).map bool, w) := by
      show (EvalM.ofExcept _).runFrom w = _
      rw [computed]
      cases x <;> rfl
    constructor
    · intro enough
      obtain ⟨r, computed⟩ := Builtin.exists_equalAll enough
      exact ⟨r, runs computed⟩
    · intro v w' run
      rw [runs rfl] at run
      obtain ⟨given, rfl⟩ := Prod.mk.inj run
      cases computed : Builtin.equalAll m.levels args with
      | error e => rw [computed] at given; cases given
      | ok r =>
        rw [computed] at given
        cases given
        refine ⟨rfl, r, rfl, ?_⟩
        exact Builtin.equalAll_eq_true_iff identified partsOf_closed (fun _ => mem_partsOf_of_mem)
          free computed

/-- Two lists that share a list as their first element and go on with lists of the same shape, and
a third with `1` where they have `#t`. -/
theorem equality_structural_shared :
    let tail := cons 0 (.bool true) nil
    let a := cons 1 tail tail
    let b := cons 2 tail (cons 3 (.bool true) nil)
    let c := cons 4 (cons 5 (.number (.int 1)) nil) tail
    let m := (Limits.mk 3 1).machine
    let row (args : List Value) := (m.runBuiltin 0 .equals args).runFrom World.initial
    (∀ v ∈ [a, b, c], v.FloatFree) ∧ Identified (· ∈ partsOf [a, b, c]) ∧
      (∀ v ∈ [a, b, a], v.nesting < m.levels) ∧ a.Same b ∧ ¬ b.Same c ∧
      b.equal 3 c = .ok false ∧ row [a, b, a] = (.ok (.bool true), World.initial) := by
  intro tail a b c m row
  have free : ∀ v ∈ [a, b, c], v.FloatFree := by simp [a, b, c, tail, FloatFree, bool, number]
  have identified : Identified (· ∈ partsOf [a, b, c]) := by decide +kernel
  have same : a.Same b := ⟨.refl tail, .refl tail⟩
  have apart : ¬ b.Same c := by simp [b, c, tail, Same, bool, number]
  have freeRow : ∀ v ∈ [a, b, a], v.FloatFree := fun v member => free v (by grind)
  obtain ⟨compares, -, -, compareRow⟩ := equality_structural
  have identifiedBC : Identified (· ∈ partsOf [b, c]) :=
    fun u u' here here' => identified u u' (by grind [mem_partsOf]) (by grind [mem_partsOf])
  have identifiedRow : Identified (· ∈ partsOf [a, b, a]) :=
    fun u u' here here' => identified u u' (by grind [mem_partsOf]) (by grind [mem_partsOf])
  have shallow : ∀ v ∈ [a, b, a], v.nesting < m.levels := by decide
  refine ⟨free, identified, shallow, same, apart, ?_, ?_⟩
  · have compared := compares b c (free b (by simp)) (free c (by simp)) identifiedBC
    obtain ⟨r, answers⟩ := compared.1 3 (by decide)
    have wrong := (compared.2.1 3 r answers).not.2 apart
    rw [answers, Bool.eq_false_iff.2 wrong]
  · have answered := compareRow m 0 [a, b, a] World.initial freeRow identifiedRow
    obtain ⟨r, answers⟩ := answered.1 shallow
    obtain ⟨-, r', given, truth⟩ := answered.2 _ _ answers
    have all : [a, b, a].Pairwise Same := by simp [same, same.symm, Same.refl a]
    cases given
    exact answers.trans (by rw [truth.2 all])

end Value

end SmallLisp
