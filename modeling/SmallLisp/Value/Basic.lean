import SmallLisp.Datum.Basic
import SmallLisp.Error

/-!
# Values

What evaluation works on and gives. An expression is itself a value, a list of the forms in it.
The cells of lists and the functions made by the program have an identity, a number that no other
cell or function of the run has. Main statements: a list built from its elements gives them back
(`toList_ofList`), and loading a datum keeps its shape (`erase_load`).
-/

namespace SmallLisp

/-- The place of a frame in the heap. -/
abbrev FrameId := Nat

/-- What a function made by the program is, its body aside. -/
structure ClosureHeader where
  /-- The identity of the function. -/
  id : Nat
  params : List Symbol
  /-- The frame in which the function was made. -/
  env : FrameId
  /-- The name under which it was defined. -/
  name : Option Symbol
  deriving DecidableEq, Repr

/-- The values of the language. The rest of a cell is a list again in everything that a run builds.
-/
inductive Value where
  | nil
  | atom (a : Atom)
  | cons (id : Nat) (head rest : Value)
  | closure (header : ClosureHeader) (body : Value)
  | builtin (op : Builtin)
  deriving DecidableEq

namespace Value

/-- The symbol of a name, as an expression. -/
def symbol (s : Symbol) : Value := atom (.symbol s)

def bool (b : Bool) : Value := atom (.bool b)

def number (n : Number) : Value := atom (.number n)

/-- The empty list or a cell. -/
def isList : Value → Bool
  | nil | cons .. => true
  | _ => false

/-- All values but the empty list and `#f` count as true. -/
def isTrue : Value → Bool
  | nil | atom (.bool false) => false
  | _ => true

/-- Puts the elements of a list in front of those found before, the latest first. -/
def toListOnto (latestFirst : List Value) : Value → List Value
  | cons _ head rest => rest.toListOnto (head :: latestFirst)
  | _ => latestFirst.reverse

/-- The elements of a list. -/
def toList (v : Value) : List Value := v.toListOnto []

/-- Puts elements in front of a list, the last of them outermost, the identities counted from `id`.
-/
def consAll (id : Nat) (rest : Value) : List Value → Value
  | [] => rest
  | v :: latestFirst => consAll (id + 1) (cons id v rest) latestFirst

/-- The list of some values, whose cells take their identities from `id` on. -/
def ofList (id : Nat) (items : List Value) : Value := consAll id nil items.reverse

/-- Makes a value of a datum, its cells taking their identities from `id` on, and gives the next
free identity. -/
def load : Datum → Nat → Value × Nat
  | .nil, id => (nil, id)
  | .atom a, id => (atom a, id)
  | .cons head rest, id =>
    let (head, id) := load head id
    let (rest, id) := load rest id
    (cons id head rest, id + 1)

/-- The datum that a value shows when identities are forgotten. A function shows as the empty list.
-/
def erase : Value → Datum
  | nil => .nil
  | atom a => .atom a
  | cons _ head rest => .cons head.erase rest.erase
  | closure .. | builtin _ => .nil

/-- How messages name the type of a value. -/
def typeName : Value → String
  | nil => "NilType"
  | atom (.bool _) => "bool"
  | atom (.number (.int _)) => "int"
  | atom (.number (.float _)) => "float"
  | atom (.str _) => "str"
  | atom (.symbol _) => "Symbol"
  | cons .. => "Cons"
  | closure .. => "Closure"
  | builtin _ => "function"

theorem toListOnto_eq (latestFirst : List Value) (v : Value) :
    v.toListOnto latestFirst = latestFirst.reverse ++ v.toList := by
  induction v generalizing latestFirst with
  | cons id head rest _ ih =>
    rw [toList, toListOnto, toListOnto, ih, ih [head]]
    simp
  | _ => simp [toList, toListOnto]

@[simp] theorem toList_nil : nil.toList = [] := rfl

@[simp] theorem toList_cons (id : Nat) (head rest : Value) :
    (cons id head rest).toList = head :: rest.toList := by
  rw [toList, toListOnto, toListOnto_eq]
  rfl

theorem toList_consAll (id : Nat) (rest : Value) (latestFirst : List Value) :
    (consAll id rest latestFirst).toList = latestFirst.reverse ++ rest.toList := by
  induction latestFirst generalizing id rest with
  | nil => rfl
  | cons v latestFirst ih => simp [consAll, ih]

@[simp] theorem toList_ofList (id : Nat) (items : List Value) :
    (ofList id items).toList = items := by
  simp [ofList, toList_consAll]

@[simp] theorem erase_load (d : Datum) (id : Nat) : (load d id).1.erase = d := by
  induction d generalizing id with
  | cons head rest ihHead ihRest => simp [load, erase, ihHead, ihRest]
  | _ => rfl

end Value

end SmallLisp
