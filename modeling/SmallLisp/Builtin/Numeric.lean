import SmallLisp.Builtin.Arguments
import SmallLisp.Number.Arithmetic
import SmallLisp.Number.Order

/-!
# Operations on numbers

Sums and products start from the integers zero and one and take their arguments from left to
right. Comparisons look at all arguments first and then at neighbours. Main statement: a sum of
integers is the integer sum (`sum_map_int`).
-/

namespace SmallLisp.Builtin

/-- The sum of numbers, from left to right. -/
def sum (ns : List Number) : Except Error Number := ns.foldlM Number.add (.int 0)

/-- The product of numbers, from left to right. -/
def product (ns : List Number) : Except Error Number := ns.foldlM Number.mul (.int 1)

/-- The first number less all others. A single number is negated. -/
def difference : List Number → Except Error Number
  | [] => .error (.noArguments .sub)
  | [n] => .ok n.neg
  | n :: rest => rest.foldlM Number.sub n

/-- The first number divided by all others. A single number divides one. -/
def quotient : List Number → Except Error Number
  | [] => .error (.noArguments .div)
  | [n] => Number.div (.int 1) n
  | n :: rest => rest.foldlM Number.div n

/-- The remainder of exactly two numbers. -/
def remainder (levels : Nat) (args : List Value) : Except Error Number := do
  let (a, b) ← mod.two args
  match ← mod.numbers levels [a, b] with
  | [a, b] => a.mod b
  | _ => throw (.wrongCount .mod 2 args.length)

/-- A relation holds between all neighbours. -/
def isChain (relation : Number → Number → Bool) : List Number → Bool
  | a :: b :: rest => relation a b && isChain relation (b :: rest)
  | _ => true

/-- A comparison of all neighbours among numbers. -/
def compareAll (op : Builtin) (relation : Number → Number → Bool) (levels : Nat)
    (args : List Value) : Except Error Value := do
  return .bool (isChain relation (← op.numbers levels args))

theorem sum_map_int (ns : List Int) :
    sum (ns.map Number.int) = .ok (.int (ns.foldl (· + ·) 0)) := by
  have step : ∀ (ns : List Int) (start : Int),
      (ns.map Number.int).foldlM Number.add (.int start) = .ok (.int (ns.foldl (· + ·) start)) := by
    intro ns
    induction ns with
    | nil => intro start; rfl
    | cons n ns ih =>
      intro start
      rw [List.map_cons, List.foldlM_cons, Number.add_int]
      exact ih (start + n)
  exact step ns 0

end SmallLisp.Builtin
