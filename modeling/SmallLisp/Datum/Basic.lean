import SmallLisp.Number.Basic
import SmallLisp.Symbol

/-!
# Data as the reader gives it

An expression that has been read and not evaluated: a tree of atoms and proper lists. Main
statements: `ofList` and `toList` are inverse on lists (`toList_ofList`).
-/

namespace SmallLisp

/-- The indivisible data. -/
inductive Atom where
  | bool (b : Bool)
  | number (n : Number)
  | str (s : String)
  | symbol (s : Symbol)
  deriving DecidableEq

/-- An expression. The rest of a list is a list again in everything that the reader builds. -/
inductive Datum where
  | nil
  | atom (a : Atom)
  | cons (head rest : Datum)
  deriving DecidableEq

namespace Datum

/-- The symbol of a name. -/
def symbol (s : Symbol) : Datum := atom (.symbol s)

/-- Puts data in front of a list, the last of them outermost. -/
def consAll (rest : Datum) (latestFirst : List Datum) : Datum :=
  latestFirst.foldl (fun list d => cons d list) rest

/-- The list of some data. -/
def ofList (items : List Datum) : Datum := consAll nil items.reverse

/-- The elements of a list. -/
def toList : Datum → List Datum
  | cons head rest => head :: rest.toList
  | _ => []

/-- The list `(quote d)`. -/
def quoted (d : Datum) : Datum := cons (symbol .quote) (cons d nil)

/-- Quotes a datum a number of times. -/
def quotedTimes : Nat → Datum → Datum
  | 0, d => d
  | n + 1, d => quotedTimes n d.quoted

@[simp] theorem ofList_nil : ofList [] = nil := rfl

@[simp] theorem ofList_cons (d : Datum) (items : List Datum) :
    ofList (d :: items) = cons d (ofList items) := by
  simp [ofList, consAll]

@[simp] theorem toList_ofList (items : List Datum) : (ofList items).toList = items := by
  induction items with
  | nil => rfl
  | cons d items ih => simp [toList, ih]

end Datum

end SmallLisp
