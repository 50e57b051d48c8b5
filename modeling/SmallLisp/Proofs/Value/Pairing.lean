import Mathlib.Data.List.Forall2
import SmallLisp.Proofs.Eval.Levels
import SmallLisp.Proofs.Value.Equality

/-!
# Values of two runs that stand for one another

Two runs that do the same thing make cells and functions with other identities. A pairing says which
cells and functions of the one run stand for which of the other. It is one to one, except that cells
of plain data may stand for any cells of the same shape. The second run may have more levels than the
first by some slack, which is enough to compare plain data element by element where the first run
comes upon a cell that is shared. Main statements: values that are alike are written alike
(`Like.text_eq`), and comparing them gives the same answer (`Like.equal`), and so all that operands
and arguments are checked for comes out alike (`Like.part` and so on).
-/

namespace SmallLisp

namespace Except

/-- Both computations fail with the same error, or both give results that are related. -/
inductive Both {ε α β : Type} (R : α → β → Prop) : Except ε α → Except ε β → Prop
  | error (e : ε) : Both R (.error e) (.error e)
  | ok {a : α} {b : β} (related : R a b) : Both R (.ok a) (.ok b)

theorem Both.swap {ε α β : Type} {R : α → β → Prop} {x : Except ε α} {y : Except ε β}
    (h : Both R x y) : Both (fun b a => R a b) y x := by
  cases h with
  | error e => exact .error e
  | ok related => exact .ok related

/-- Computations come out alike, or, if there is slack, the first runs out of levels. -/
def Agree {α β : Type} (slack : Nat) (R : α → β → Prop) (x : Except Error α)
    (y : Except Error β) : Prop :=
  (0 < slack ∧ x = .error .stackExhausted) ∨ Both R x y

namespace Agree

variable {α β γ δ : Type} {slack : Nat} {R : α → β → Prop} {S : γ → δ → Prop}
  {x : Except Error α} {y : Except Error β}

theorem ok {a : α} {b : β} (related : R a b) : Agree slack R (.ok a) (.ok b) := .inr (.ok related)

theorem error (e : Error) : Agree slack R (.error e) (.error e) := .inr (.error e)

theorem bind {f : α → Except Error γ} {g : β → Except Error δ} (h : Agree slack R x y)
    (next : ∀ a b, R a b → Agree slack S (f a) (g b)) : Agree slack S (x >>= f) (y >>= g) := by
  rcases h with ⟨loose, rfl⟩ | both
  · exact .inl ⟨loose, rfl⟩
  · cases both with
    | error e => exact error e
    | ok related => exact next _ _ related

theorem imp {R' : α → β → Prop} (h : Agree slack R x y) (le : ∀ a b, R a b → R' a b) :
    Agree slack R' x y := by
  rcases h with exhausted | both
  · exact .inl exhausted
  · cases both with
    | error e => exact error e
    | ok related => exact ok (le _ _ related)

theorem same (x : Except Error α) : Agree slack Eq x x := by
  cases x with
  | error e => exact error e
  | ok a => exact ok rfl

/-- The same computation with more levels. -/
theorem of_monotone {part : Nat → Except Error α} (mono : Monotone part) (levels : Nat) :
    Agree slack Eq (part levels) (part (levels + slack)) := by
  cases slack with
  | zero => exact same _
  | succ slack =>
    rcases mono (Nat.le_add_right levels (slack + 1)) with exhausted | equal
    · exact .inl ⟨Nat.succ_pos slack, exhausted⟩
    · exact equal ▸ same _

theorem mapM {f : α → Except Error γ} {g : β → Except Error δ} {items : List α} {items' : List β}
    (related : List.Forall₂ R items items') (h : ∀ a b, R a b → Agree slack S (f a) (g b)) :
    Agree slack (List.Forall₂ S) (items.mapM f) (items'.mapM g) := by
  induction related with
  | nil => exact ok .nil
  | cons first _ ih =>
    rw [List.mapM_cons, List.mapM_cons]
    exact (h _ _ first).bind fun c d head => ih.bind fun cs ds others => ok (.cons head others)

end Agree

theorem mapM_congr {α β γ : Type} {f : α → Except Error γ} {g : β → Except Error γ} {items : List α}
    {items' : List β} (h : List.Forall₂ (fun a b => f a = g b) items items') :
    items.mapM f = items'.mapM g := by
  induction h with
  | nil => rfl
  | cons first _ ih => rw [List.mapM_cons, List.mapM_cons, first, ih]

end Except

namespace Value

/-- The value is data: it is made of nothing but constants, integers, strings, symbols, operations
and lists of these. -/
def IsData : Value → Prop
  | atom (.number (.float _)) | closure .. => False
  | cons _ head rest => head.IsData ∧ rest.IsData
  | _ => True

/-- The value is data, and few enough lists stand inside one another to look at all of it within the
slack. -/
structure Plain (slack : Nat) (v : Value) : Prop where
  data : v.IsData
  shallow : v.nesting < slack

theorem IsData.floatFree {v : Value} (h : v.IsData) : v.FloatFree := by
  induction v with
  | cons id head rest ihHead ihRest => exact ⟨ihHead h.1, ihRest h.2⟩
  | atom a =>
    cases a with
    | number n => cases n <;> exact h
    | _ => trivial
  | _ => trivial

theorem Same.nesting_eq {a b : Value} (h : a.Same b) : a.nesting = b.nesting := by
  induction a generalizing b with
  | cons id head rest ihHead ihRest =>
    cases b with
    | cons => rw [nesting, nesting, ihHead h.1, ihRest h.2]
    | _ => cases h
  | _ => cases h; rfl

theorem Plain.parts {slack i : Nat} {head rest : Value}
    (h : (cons i head rest).Plain slack) : head.Plain slack ∧ rest.Plain slack := by
  have shallow := h.shallow
  rw [nesting, Nat.max_lt] at shallow
  exact ⟨⟨h.data.1, Nat.lt_of_succ_lt shallow.1⟩, h.data.2, shallow.2⟩

theorem Plain.of_same {slack : Nat} {v v' : Value} (h : v.Plain slack) (same : v.Same v') :
    v'.Plain slack := by
  refine ⟨?_, same.nesting_eq ▸ h.shallow⟩
  have data := h.data
  clear h
  induction v generalizing v' with
  | cons i head rest ihHead ihRest =>
    cases v' with
    | cons => exact ⟨ihHead same.1 data.1, ihRest same.2 data.2⟩
    | _ => trivial
  | _ => cases same; exact data

/-- Plain data of the same shape are equal on as many levels as the slack has. -/
theorem Plain.equal_of_same {slack levels : Nat} {a b : Value} (plain : a.Plain slack)
    (same : a.Same b) (enough : slack ≤ levels) : a.equal levels b = .ok true := by
  rcases equal_le_of_same same plain.data.floatFree levels with exhausted | equal
  · obtain ⟨r, answers⟩ := exists_equal b (Nat.lt_of_lt_of_le plain.shallow enough)
    rw [exhausted] at answers
    cases answers
  · exact equal

end Value

/-- Which cells and functions of two runs stand for one another. -/
structure Pairing (slack : Nat) where
  Pair : Value → Value → Prop
  /-- In each of the runs an identity belongs to one cell or function only. -/
  left : Value.Identified fun u => ∃ u', Pair u u'
  right : Value.Identified fun u' => ∃ u, Pair u u'
  /-- Each has one counterpart, unless it is plain. -/
  forward : ∀ {u u' v'}, Pair u u' → Pair u v' → u' = v' ∨ u.Plain slack
  backward : ∀ {u v u'}, Pair u u' → Pair v u' → u = v ∨ u'.Plain slack

namespace Pairing

variable {slack : Nat} {P Q : Pairing slack}

instance : Preorder (Pairing slack) where
  le P Q := ∀ u u', P.Pair u u' → Q.Pair u u'
  le_refl _ _ _ pair := pair
  le_trans _ _ _ first second u u' pair := second u u' (first u u' pair)

/-- The values are alike but for identities, and their cells and functions are paired. -/
inductive Like (P : Pairing slack) : Value → Value → Prop
  | nil : Like P .nil .nil
  | atom (a : Atom) : Like P (.atom a) (.atom a)
  | builtin (op : Builtin) : Like P (.builtin op) (.builtin op)
  | cons {i i' : Nat} {head head' rest rest' : Value}
      (pair : P.Pair (.cons i head rest) (.cons i' head' rest')) (first : Like P head head')
      (others : Like P rest rest') : Like P (.cons i head rest) (.cons i' head' rest')
  | closure {header header' : ClosureHeader} {body body' : Value}
      (pair : P.Pair (.closure header body) (.closure header' body'))
      (params : header.params = header'.params) (env : header.env = header'.env)
      (name : header.name = header'.name) (inside : Like P body body') :
      Like P (.closure header body) (.closure header' body')

/-- Rows of values are alike. -/
abbrev LikeAll (P : Pairing slack) : List Value → List Value → Prop := List.Forall₂ P.Like

namespace Like

variable {v v' : Value} {levels : Nat}

theorem mono (le : P ≤ Q) (h : P.Like v v') : Q.Like v v' := by
  induction h with
  | nil => exact .nil
  | atom a => exact .atom a
  | builtin op => exact .builtin op
  | cons pair _ _ ihFirst ihOthers => exact .cons (le _ _ pair) ihFirst ihOthers
  | closure pair params env name _ ih => exact .closure (le _ _ pair) params env name ih

theorem isList_eq (h : P.Like v v') : v.isList = v'.isList := by
  cases h <;> rfl

theorem isTrue_eq (h : P.Like v v') : v.isTrue = v'.isTrue := by
  cases h <;> rfl

theorem toList (h : P.Like v v') : P.LikeAll v.toList v'.toList := by
  induction h with
  | cons pair first others _ ih =>
    rw [Value.toList_cons, Value.toList_cons]
    exact .cons first ih
  | _ => exact .nil

theorem isData_iff (h : P.Like v v') : v.IsData ↔ v'.IsData := by
  induction h with
  | cons pair _ _ ihFirst ihOthers => exact and_congr ihFirst ihOthers
  | _ => exact Iff.rfl

/-- Data that are alike have the same shape. -/
theorem same (h : P.Like v v') (data : v.IsData) : v.Same v' := by
  induction h with
  | cons pair _ _ ihFirst ihOthers => exact ⟨ihFirst data.1, ihOthers data.2⟩
  | closure => exact data.elim
  | _ => rfl

/-- Values that are alike are written alike. -/
theorem text_eq (h : P.Like v v') (levels : Nat) : v.text levels = v'.text levels := by
  induction levels generalizing v v' with
  | zero => rfl
  | succ levels ih =>
    have row {vs vs' : List Value} (alike : P.LikeAll vs vs') :
        vs.mapM (Value.text levels) = vs'.mapM (Value.text levels) :=
      Except.mapM_congr (alike.imp fun _ _ h => ih h)
    cases h with
    | cons pair first others => rw [Value.text, Value.text, row (.cons first others.toList)]
    | closure pair params _ _ inside => rw [Value.text, Value.text, row inside.toList, params]
    | _ => rfl

theorem text (h : P.Like v v') (levels : Nat) :
    Except.Agree slack Eq (v.text levels) (v'.text (levels + slack)) := by
  rw [h.text_eq]
  exact .of_monotone v'.text_mono levels

/-- Cells that the first run shares are the same cell in the second, or plain data of the same shape
there. -/
theorem shared_left {u u' v v' : Value} (h : P.Like u u') (h' : P.Like v v') (pair : P.Pair u u')
    (pair' : P.Pair v v') (known : u.identity?.isSome) (shared : u.identity? = v.identity?) :
    u' = v' ∨ u'.Plain slack ∧ u'.Same v' := by
  obtain rfl := P.left u v ⟨u', pair⟩ ⟨v', pair'⟩ known shared
  refine (P.forward pair pair').imp_right fun plain => ?_
  have same := h.same plain.data
  exact ⟨plain.of_same same, same.symm.trans (h'.same plain.data)⟩

theorem shared_right {u u' v v' : Value} (h : P.Like u u') (h' : P.Like v v') (pair : P.Pair u u')
    (pair' : P.Pair v v') (known : u'.identity?.isSome) (shared : u'.identity? = v'.identity?) :
    u = v ∨ u.Plain slack ∧ u.Same v := by
  obtain rfl := P.right u' v' ⟨u, pair⟩ ⟨v, pair'⟩ known shared
  refine (P.backward pair pair').imp_right fun plain => ?_
  have same := h.same (h.isData_iff.2 plain.data)
  exact ⟨plain.of_same same.symm, same.trans (h'.same (h'.isData_iff.2 plain.data)).symm⟩

theorem sameLeaf_eq {a a' b b' : Value} (h : P.Like a a') (h' : P.Like b b') :
    a.sameLeaf b = a'.sameLeaf b' := by
  cases h with
  | @closure header header' body body' pair params env name inside =>
    cases h' with
    | @closure other other' inner inner' pair' params' env' name' inside' =>
      have alike := Like.closure pair params env name inside
      have alike' := Like.closure pair' params' env' name' inside'
      -- functions are no data, so each has one counterpart
      have one : header.id = other.id ↔ header'.id = other'.id := by
        constructor
        · intro shared
          rcases alike.shared_left alike' pair pair' rfl (congrArg some shared) with
            same | ⟨plain, -⟩
          · cases same
            rfl
          · exact plain.data.elim
        · intro shared
          rcases alike.shared_right alike' pair pair' rfl (congrArg some shared) with
            same | ⟨plain, -⟩
          · cases same
            rfl
          · exact plain.data.elim
      rw [Value.sameLeaf, Value.sameLeaf, Bool.eq_iff_iff, beq_iff_eq, beq_iff_eq, one]
    | _ => rfl
  | _ => cases h' <;> rfl

/-- Comparing values that are alike gives the same answer. Where one of the runs comes upon a shared
cell and the other does not, the cells are plain data of the same shape, and looking at their
elements gives the same answer. -/
theorem equal {a a' b b' : Value} (h : P.Like a a') (h' : P.Like b b') (levels : Nat) :
    Except.Agree slack Eq (a.equal levels b) (a'.equal (levels + slack) b') := by
  induction levels generalizing a a' b b' with
  | zero =>
    cases slack with
    | zero => exact .error _
    | succ slack => exact .inl ⟨Nat.succ_pos slack, rfl⟩
  | succ levels ihLevels =>
    rw [Nat.succ_add]
    induction h generalizing b b' with
    | @cons i i' head head' rest rest' pair first others _ ih =>
      cases h' with
      | @cons j j' head₂ head₂' rest₂ rest₂' pair₂ first₂ others₂ =>
        have alike := Like.cons pair first others
        have alike₂ := Like.cons pair₂ first₂ others₂
        by_cases shared : i = j
        · have left : Value.equal (levels + 1) (.cons i head rest) (.cons j head₂ rest₂) =
              .ok true := by
            rw [Value.equal, Value.equalLists, if_pos shared]
          have right : Value.equal (levels + slack + 1) (.cons i' head' rest')
              (.cons j' head₂' rest₂') = .ok true := by
            rcases alike.shared_left alike₂ pair pair₂ rfl (congrArg some shared) with
              same | ⟨plain, same⟩
            · cases same
              exact Value.equal_cons_self ..
            · exact plain.equal_of_same same (by omega)
          rw [left, right]
          exact .ok rfl
        by_cases shared' : i' = j'
        · rcases alike.shared_right alike₂ pair pair₂ rfl (congrArg some shared') with
            same | ⟨plain, same⟩
          · cases same
            exact absurd rfl shared
          have right : Value.equal (levels + slack + 1) (.cons i' head' rest')
              (.cons j' head₂' rest₂') = .ok true := by
            rw [Value.equal, Value.equalLists, if_pos shared']
          rw [right]
          rcases Value.equal_le_of_same same plain.data.floatFree (levels + 1) with
            exhausted | left
          · exact .inl ⟨Nat.zero_lt_of_lt plain.shallow, exhausted⟩
          · rw [left]
            exact .ok rfl
        · rw [Value.equal, Value.equal, Value.equalLists, Value.equalLists, if_neg shared,
            if_neg shared']
          refine (ihLevels first first₂).bind fun same _ same' => ?_
          subst same'
          cases same with
          | false => exact .ok rfl
          | true => exact ih others₂
      | _ => exact .ok rfl
    | closure pair params env name inside _ =>
      exact .ok (sameLeaf_eq (.closure pair params env name inside) h')
    | _ => cases h' <;> exact .ok rfl

end Like

/-! ## Operands and arguments -/

section Checks

variable {v v' : Value} {args args' : List Value}

/-- What is found wrong is shown alike. -/
theorem Like.refused {α β : Type} {R : α → β → Prop} (h : P.Like v v') (levels : Nat)
    (e : String → Error) : Except.Agree slack R (v.text levels >>= fun shown => .error (e shown))
      (v'.text (levels + slack) >>= fun shown => .error (e shown)) :=
  (h.text levels).bind fun _ _ same => same ▸ .error _

/-- A part of a list. -/
theorem Like.part (h : P.Like v v') (p : ListPart) (levels : Nat) :
    Except.Agree slack P.Like (v.part levels p) (v'.part (levels + slack) p) := by
  have refused := h.refused (R := P.Like) levels (.notList p.operation)
  cases h with
  | nil => cases p <;> exact .error _
  | cons pair first others =>
    cases p
    · exact .ok first
    · exact .ok others
  | _ => cases p <;> exact refused

theorem Like.listArgument (h : P.Like v v') (op : Builtin) (levels : Nat) :
    Except.Agree slack P.Like (op.listArgument levels v) (op.listArgument (levels + slack) v') := by
  rw [Builtin.listArgument, Builtin.listArgument, h.isList_eq]
  split
  · exact .ok h
  · exact h.refused levels _

theorem Like.numberArgument (h : P.Like v v') (op : Builtin) (levels : Nat) :
    Except.Agree slack Eq (op.numberArgument levels v) (op.numberArgument (levels + slack) v') := by
  have refused := h.refused (R := @Eq Number) levels (.notNumber op)
  cases h with
  | atom a =>
    cases a with
    | number n => exact .ok rfl
    | _ => exact refused
  | _ => exact refused

theorem Like.printedText (h : P.Like v v') (levels : Nat) :
    Except.Agree slack Eq (Builtin.printedText levels v)
      (Builtin.printedText (levels + slack) v') := by
  have written := h.text levels
  cases h with
  | atom a =>
    cases a with
    | str s => exact .ok rfl
    | _ => exact written
  | _ => exact written

namespace LikeAll

variable (h : P.LikeAll args args') (op : Builtin) (levels : Nat)

include h

theorem one : Except.Agree slack P.Like (op.one args) (op.one args') := by
  have count := h.length_eq
  rcases h with _ | ⟨first, _ | ⟨second, others⟩⟩
  · exact .error _
  · exact .ok first
  · rw [Builtin.one, Builtin.one, count]
    · exact .error _
    · simp
    · simp

theorem two : Except.Agree slack (fun pair pair' => P.Like pair.1 pair'.1 ∧ P.Like pair.2 pair'.2)
    (op.two args) (op.two args') := by
  have count := h.length_eq
  rcases h with _ | ⟨first, _ | ⟨second, _ | ⟨third, others⟩⟩⟩
  · exact .error _
  · exact .error _
  · exact .ok ⟨first, second⟩
  · rw [Builtin.two, Builtin.two, count]
    · exact .error _
    · simp
    · simp

theorem numbers :
    Except.Agree slack Eq (op.numbers levels args) (op.numbers (levels + slack) args') :=
  (Except.Agree.mapM h fun _ _ alike => alike.numberArgument op levels).imp
    fun _ _ same => List.forall₂_eq_eq_eq ▸ same

theorem equalAll : Except.Agree slack Eq (Builtin.equalAll levels args)
    (Builtin.equalAll (levels + slack) args') := by
  induction h with
  | nil => exact .ok rfl
  | cons first others ih =>
    cases others with
    | nil => exact .ok rfl
    | cons second others =>
      rw [Builtin.equalAll, Builtin.equalAll]
      refine (first.equal second levels).bind fun same _ same' => ?_
      subst same'
      cases same with
      | false => exact .ok rfl
      | true => exact ih

theorem compareAll (relation : Number → Number → Bool) :
    Except.Agree slack P.Like (Builtin.compareAll op relation levels args)
      (Builtin.compareAll op relation (levels + slack) args') :=
  (numbers h op levels).bind fun _ _ same => same ▸ .ok (.atom _)

theorem remainder : Except.Agree slack Eq (Builtin.remainder levels args)
    (Builtin.remainder (levels + slack) args') := by
  have count := h.length_eq
  refine (two h .mod).bind fun pair pair' alike => ?_
  have both : P.LikeAll [pair.1, pair.2] [pair'.1, pair'.2] := .cons alike.1 (.cons alike.2 .nil)
  refine (numbers both .mod levels).bind fun ns _ same => ?_
  subst same
  rw [count]
  exact .same _

theorem line :
    Except.Agree slack Eq (Builtin.line levels args) (Builtin.line (levels + slack) args') := by
  refine (Except.Agree.mapM h fun _ _ alike => alike.printedText levels).bind fun texts _ same => ?_
  rw [List.forall₂_eq_eq_eq] at same
  exact same ▸ .ok rfl

theorem consArguments :
    Except.Agree slack (fun pair pair' => P.Like pair.1 pair'.1 ∧ P.Like pair.2 pair'.2)
      (Machine.consArguments levels args) (Machine.consArguments (levels + slack) args') :=
  (two h .cons).bind fun _ _ alike => (alike.2.listArgument .cons levels).bind
    fun _ _ list => .ok ⟨alike.1, list⟩

theorem applyArguments :
    Except.Agree slack (fun pair pair' => P.Like pair.1 pair'.1 ∧ P.LikeAll pair.2 pair'.2)
      (Machine.applyArguments levels args) (Machine.applyArguments (levels + slack) args') :=
  (two h .apply).bind fun _ _ alike => (alike.2.listArgument .apply levels).bind
    fun _ _ list => .ok ⟨alike.1, list.toList⟩

theorem symbolsFrom (index : Nat) :
    Except.Agree slack Eq (Machine.symbolsFrom index args) (Machine.symbolsFrom index args') := by
  induction h generalizing index with
  | nil => exact .ok rfl
  | cons first _ ih =>
    cases first with
    | atom a =>
      cases a with
      | symbol s =>
        refine (ih (index + 1)).bind (f := fun rest => .ok (s :: rest))
          (g := fun rest => .ok (s :: rest)) fun rest _ same => same ▸ .ok rfl
      | _ => exact .error _
    | _ => exact .error _

end LikeAll

variable {m m' : Machine} (levels : m'.levels = m.levels + slack)

include levels

theorem Like.first (h : P.Like v v') : Except.Agree slack P.Like (m.first v) (m'.first v') := by
  rw [Machine.first, Machine.first, levels]
  exact h.part .head m.levels

theorem Like.others (h : P.Like v v') : Except.Agree slack P.Like (m.others v) (m'.others v') := by
  rw [Machine.others, Machine.others, levels]
  exact h.part .rest m.levels

theorem Like.second (h : P.Like v v') : Except.Agree slack P.Like (m.second v) (m'.second v') :=
  (h.others levels).bind fun _ _ rest => rest.first levels

theorem Like.two (h : P.Like v v') : Except.Agree slack
    (fun pair pair' => P.Like pair.1 pair'.1 ∧ P.Like pair.2 pair'.2) (m.two v) (m'.two v') :=
  (h.first levels).bind fun _ _ a => (h.second levels).bind fun _ _ b => .ok ⟨a, b⟩

theorem Like.nameAt (h : P.Like v v') (place : NamePlace) :
    Except.Agree slack Eq (m.nameAt place v) (m'.nameAt place v') := by
  have refused := h.refused (R := @Eq Symbol) m.levels (.nameRequired place · v.typeName)
  rw [← levels] at refused
  cases h with
  | atom a =>
    cases a with
    | symbol s => exact .ok rfl
    | _ => exact refused
  | _ => exact refused

theorem Like.parameters (h : P.Like v v') :
    Except.Agree slack Eq (m.parameters v) (m'.parameters v') := by
  rw [Machine.parameters, Machine.parameters, h.isList_eq, levels]
  split
  · exact LikeAll.symbolsFrom h.toList 0
  · exact h.refused m.levels _

end Checks

end Pairing

end SmallLisp
