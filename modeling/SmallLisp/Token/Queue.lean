import SmallLisp.Error
import SmallLisp.Token.Lexeme

/-!
# Queues of tokens

A source gives its tokens in order, and fails behind them if it holds a double quote without a
partner. Main statement: there is no failure exactly when the whole source is cut into pieces
(`failure_ofSource_eq_none_iff`).
-/

namespace SmallLisp

/-- Tokens to come, and the error that waits behind them. -/
structure TokenQueue where
  tokens : List Token
  failure : Option Error
  deriving DecidableEq, Repr

namespace TokenQueue

/-- A queue without a failure. -/
def ofTokens (tokens : List Token) : TokenQueue := ⟨tokens, none⟩

/-- The tokens of a source. Positions count characters from zero. -/
def ofSource (source : String) : TokenQueue :=
  let s := source.toList
  let (pieces, left) := Lexeme.scan s
  { tokens := pieces.filterMap Lexeme.token?
    failure := left.head?.map fun c => .unexpectedChar (s.length - left.length) c }

theorem failure_ofSource_eq_none_iff (source : String) :
    (ofSource source).failure = none ↔
      (Lexeme.scan source.toList).1.flatMap Lexeme.chars = source.toList := by
  have whole := Lexeme.scan_append source.toList
  simp only [ofSource, Option.map_eq_none_iff, List.head?_eq_none_iff]
  constructor
  · intro empty
    simpa [empty] using whole
  · intro eq
    rw [eq] at whole
    simpa using whole

end TokenQueue

end SmallLisp
