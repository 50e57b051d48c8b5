import SmallLisp.Eval.Rules
import SmallLisp.Proofs.Failure

/-!
# Operands and arguments that are accepted

Forms and operations check what they are given before they use it. Each lemma says what was given if
the check succeeds.
-/

namespace SmallLisp

/-- The operator of a special form. -/
def SpecialForm.operator (form : SpecialForm) : Value := .symbol ⟨form.keyword⟩

theorem SpecialForm.symbol_eq_operator {keyword : Symbol} {form : SpecialForm}
    (h : ofSymbol? keyword = some form) : Value.symbol keyword = form.operator :=
  congrArg (fun name => Value.symbol ⟨name⟩) (ofSymbol?_eq_some_iff.1 h)

theorem Machine.formOf?_operator (form : SpecialForm) : formOf? form.operator = some form :=
  SpecialForm.ofSymbol?_eq_some_iff.2 rfl

/-- Only a cell has parts. -/
theorem Value.eq_cons_of_part {v part : Value} {levels : Nat} {p : ListPart}
    (found : v.part levels p = .ok part) :
    ∃ id head rest, v = .cons id head rest ∧
      part = match p with
        | .head => head
        | .rest => rest := by
  cases v with
  | cons id head rest =>
    refine ⟨id, head, rest, rfl, ?_⟩
    cases p <;> cases found <;> rfl
  | nil => cases p <;> cases found
  | atom | closure | builtin =>
    cases p
    · exact absurd found Except.bind_error_ne_ok
    · exact absurd found Except.bind_error_ne_ok

namespace Builtin

theorem one_eq_ok {op : Builtin} {args : List Value} {a : Value} (h : op.one args = .ok a) :
    args = [a] := by
  unfold one at h
  split at h
  · cases h
    rfl
  · cases h

theorem two_eq_ok {op : Builtin} {args : List Value} {a b : Value}
    (h : op.two args = .ok (a, b)) : args = [a, b] := by
  unfold two at h
  split at h
  · cases h
    rfl
  · cases h

theorem listArgument_eq_ok {op : Builtin} {levels : Nat} {v list : Value}
    (h : op.listArgument levels v = .ok list) : list = v ∧ v.isList = true := by
  unfold listArgument at h
  split at h
  · cases h
    exact ⟨rfl, ‹_›⟩
  · exact absurd h Except.bind_error_ne_ok

end Builtin

namespace Machine

variable {m : Machine}

theorem nameAt_eq_ok {place : NamePlace} {v : Value} {x : Symbol}
    (h : m.nameAt place v = .ok x) : v = .symbol x := by
  unfold nameAt at h
  split at h
  · cases h
    rfl
  · exact absurd h Except.bind_error_ne_ok

theorem two_eq_ok {operands a b : Value} (h : m.two operands = .ok (a, b)) :
    m.first operands = .ok a ∧ m.second operands = .ok b := by
  obtain ⟨a', first, h⟩ := Except.bind_eq_ok.1 h
  obtain ⟨b', second, same⟩ := Except.bind_eq_ok.1 h
  cases same
  exact ⟨first, second⟩

theorem symbolsFrom_eq_ok {index : Nat} {params : List Value} {xs : List Symbol}
    (h : symbolsFrom index params = .ok xs) : params = xs.map Value.symbol := by
  fun_induction symbolsFrom index params generalizing xs with
  | case1 => cases h; rfl
  | case2 index x rest ih =>
    obtain ⟨ys, more, rfl⟩ := Except.map_eq_ok.1 h
    rw [ih more]
    rfl
  | case3 => cases h

theorem parameters_eq_ok {params : Value} {xs : List Symbol}
    (h : m.parameters params = .ok xs) : params.toList = xs.map Value.symbol := by
  unfold parameters at h
  split at h
  · exact symbolsFrom_eq_ok h
  · exact absurd h Except.bind_error_ne_ok

theorem consArguments_eq_ok {levels : Nat} {args : List Value} {head rest : Value}
    (h : consArguments levels args = .ok (head, rest)) :
    args = [head, rest] ∧ rest.isList = true := by
  obtain ⟨⟨a, b⟩, two, h⟩ := Except.bind_eq_ok.1 h
  obtain ⟨list, checked, same⟩ := Except.bind_eq_ok.1 h
  obtain ⟨rfl, isList⟩ := Builtin.listArgument_eq_ok checked
  cases same
  exact ⟨Builtin.two_eq_ok two, isList⟩

theorem applyArguments_eq_ok {levels : Nat} {args items : List Value} {fn : Value}
    (h : applyArguments levels args = .ok (fn, items)) :
    ∃ list, args = [fn, list] ∧ items = list.toList := by
  obtain ⟨⟨a, b⟩, two, h⟩ := Except.bind_eq_ok.1 h
  obtain ⟨list, checked, same⟩ := Except.bind_eq_ok.1 h
  obtain ⟨rfl, -⟩ := Builtin.listArgument_eq_ok checked
  cases same
  exact ⟨list, Builtin.two_eq_ok two, rfl⟩

end Machine

end SmallLisp
