/-!
# Symbols

A symbol is its name: two symbols are the same when their names are.
-/

namespace SmallLisp

/-- An identifier of the language. -/
structure Symbol where
  name : String
  deriving DecidableEq, Repr, Hashable

namespace Symbol

/-- The operator that `'e` stands for. -/
def quote : Symbol := ⟨"quote"⟩

/-- The parameter that collects all arguments from its place on. -/
def ellipsis : Symbol := ⟨"..."⟩

end Symbol

end SmallLisp
