import Mathlib.Data.Nat.Basic
import SmallLisp.Eval.Rules
import SmallLisp.Proofs.Eval.Bounds

/-!
# What more levels change

Writing a value, comparing two, and the checks of operands and arguments go down a number of levels
and take nothing else from the machine. Main statement: within more levels they give what they gave
before, unless they ran out (`text_mono`, `equal_mono`, and `ByLevels` for all that is built of
them).
-/

namespace SmallLisp

namespace Value

theorem text_mono (v : Value) : Monotone fun levels => v.text levels := by
  intro n m le
  induction n generalizing m v with
  | zero => exact Except.stackExhausted_le _
  | succ n ih =>
    obtain ⟨m, rfl⟩ : ∃ k, m = k + 1 := ⟨m - 1, by omega⟩
    have texts (vs : List Value) : vs.mapM (text n) ≤ vs.mapM (text m) :=
      Except.boundOrder.mapM (fun v => ih v (Nat.le_of_succ_le_succ le)) vs
    cases v with
    | nil => exact le_refl _
    | atom a => exact le_refl _
    | cons id head rest => exact Except.boundOrder.bind (texts _) fun _ => le_refl _
    | closure header body => exact Except.boundOrder.bind (texts _) fun _ => le_refl _
    | builtin op => exact le_refl _

theorem equalLists_mono {f g : Value → Value → Except Error Bool} (h : ∀ a b, f a b ≤ g a b)
    (a b : Value) : equalLists f a b ≤ equalLists g a b := by
  induction a generalizing b with
  | cons i a as _ ih =>
    cases b with
    | cons j b bs =>
      rw [equalLists, equalLists]
      split
      · exact le_refl _
      · refine Except.boundOrder.bind (h a b) fun same => ?_
        cases same
        · exact le_refl _
        · exact ih bs
    | _ => exact le_refl _
  | _ => exact le_refl _

theorem equal_mono (a b : Value) : Monotone fun levels => a.equal levels b := by
  intro n m le
  induction n generalizing m a b with
  | zero => exact Except.stackExhausted_le _
  | succ n ih =>
    obtain ⟨m, rfl⟩ : ∃ k, m = k + 1 := ⟨m - 1, by omega⟩
    exact equalLists_mono (fun a b => ih a b (Nat.le_of_succ_le_succ le)) a b

theorem part_mono (p : ListPart) (v : Value) : Monotone fun levels => v.part levels p := by
  intro n m le
  show v.part n p ≤ v.part m p
  unfold part
  split
  · exact le_refl _
  · exact le_refl _
  · exact Except.boundOrder.bind (text_mono _ le) fun _ => le_refl _

end Value

namespace Machine

/-- The computation takes nothing from the machine but the number of its levels, and gives within
more of them what it gave before. -/
def ByLevels {α : Type} (part : Machine → Except Error α) : Prop :=
  ∀ ⦃m m' : Machine⦄, m.levels ≤ m'.levels → part m ≤ part m'

namespace ByLevels

variable {α β : Type}

theorem of_monotone {part : Nat → Except Error α} (h : Monotone part) :
    ByLevels fun m => part m.levels := fun _ _ le => h le

theorem eq_of_levels {part : Machine → Except Error α} (h : ByLevels part) {m m' : Machine}
    (same : m.levels = m'.levels) : part m = part m' := by
  rcases h same.le with bound | equal
  · rcases h same.ge with bound' | equal
    · exact bound.trans bound'.symm
    · exact equal.symm
  · exact equal

theorem const (x : Except Error α) : ByLevels fun _ => x := fun _ _ _ => le_refl x

theorem bind {x : Machine → Except Error α} {f : Machine → α → Except Error β} (hx : ByLevels x)
    (hf : ∀ a, ByLevels fun m => f m a) : ByLevels fun m => x m >>= f m := fun _ _ le =>
  Except.boundOrder.bind (hx le) fun a => hf a le

/-- What is computed from the result without the machine changes nothing. -/
theorem andThen {x : Machine → Except Error α} (hx : ByLevels x) (f : α → Except Error β) :
    ByLevels fun m => x m >>= f :=
  hx.bind fun a => const (f a)

theorem mapM {f : Machine → α → Except Error β} (h : ∀ a, ByLevels fun m => f m a)
    (items : List α) : ByLevels fun m => items.mapM (f m) := fun _ _ le =>
  Except.boundOrder.mapM (fun a => h a le) items

theorem text (v : Value) : ByLevels fun m => v.text m.levels := of_monotone v.text_mono

theorem first (operands : Value) : ByLevels fun m => m.first operands :=
  of_monotone (operands.part_mono .head)

theorem others (operands : Value) : ByLevels fun m => m.others operands :=
  of_monotone (operands.part_mono .rest)

theorem second (operands : Value) : ByLevels fun m => m.second operands :=
  (others operands).bind first

theorem two (operands : Value) : ByLevels fun m => m.two operands :=
  (first operands).bind fun a => (second operands).andThen fun b => pure (a, b)

theorem nameAt (place : NamePlace) (v : Value) : ByLevels fun m => m.nameAt place v := by
  unfold Machine.nameAt
  split
  · exact const _
  · exact (text _).andThen _

theorem parameters (params : Value) : ByLevels fun m => m.parameters params := by
  unfold Machine.parameters
  split
  · exact const _
  · exact (text _).andThen _

theorem numbers (op : Builtin) (args : List Value) :
    ByLevels fun m => op.numbers m.levels args := by
  refine mapM (fun a => ?_) args
  unfold Builtin.numberArgument
  split
  · exact const _
  · exact (text _).andThen _

theorem listArgument (op : Builtin) (v : Value) :
    ByLevels fun m => op.listArgument m.levels v := by
  unfold Builtin.listArgument
  split
  · exact const _
  · exact (text _).andThen _

theorem length (args : List Value) :
    ByLevels fun m => do
      let list ← Builtin.length.listArgument m.levels (← Builtin.length.one args)
      return Value.number (.int list.toList.length) := by
  apply (const (Builtin.length.one args)).bind
  intro v
  exact (listArgument .length v).andThen _

theorem equalAll (args : List Value) : ByLevels fun m => Builtin.equalAll m.levels args := by
  induction args with
  | nil => exact const _
  | cons a args ih =>
    cases args with
    | nil => exact const _
    | cons b rest =>
      simp only [Builtin.equalAll]
      refine (of_monotone (a.equal_mono b)).bind fun same => ?_
      cases same
      · exact const _
      · exact ih

theorem compareAll (op : Builtin) (relation : Number → Number → Bool) (args : List Value) :
    ByLevels fun m => Builtin.compareAll op relation m.levels args :=
  (numbers op args).andThen _

theorem remainder (args : List Value) : ByLevels fun m => Builtin.remainder m.levels args := by
  refine (const (Builtin.mod.two args)).bind fun (a, b) => ?_
  exact (numbers .mod [a, b]).andThen _

theorem line (args : List Value) : ByLevels fun m => Builtin.line m.levels args := by
  refine (mapM (fun v => ?_) args).andThen _
  unfold Builtin.printedText
  split
  · exact const _
  · exact text v

theorem consArguments (args : List Value) : ByLevels fun m => consArguments m.levels args :=
  (const (Builtin.cons.two args)).bind fun (_, rest) => (listArgument .cons rest).andThen _

theorem applyArguments (args : List Value) : ByLevels fun m => applyArguments m.levels args :=
  (const (Builtin.apply.two args)).bind fun (_, items) => (listArgument .apply items).andThen _

end ByLevels

end Machine

end SmallLisp
