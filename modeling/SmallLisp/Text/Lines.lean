/-!
# Line endings

A file may end its lines in three ways. Its text is read with every end of line as one newline.
Main statement: the result holds no carriage return (`not_mem_unifyLines`).
-/

namespace SmallLisp.Text

/-- Both a carriage return with a newline and a carriage return alone become one newline. -/
def unifyLines : List Char → List Char
  | [] => []
  | '\r' :: '\n' :: rest => '\n' :: unifyLines rest
  | c :: rest => (if c = '\r' then '\n' else c) :: unifyLines rest

theorem not_mem_unifyLines (s : List Char) : '\r' ∉ unifyLines s := by
  fun_induction unifyLines s with
  | case1 => simp
  | case2 rest ih => simpa using ih
  | case3 c rest _ ih =>
    by_cases hc : c = '\r'
    · simpa [hc] using ih
    · simp [hc, ih, Ne.symm hc]

end SmallLisp.Text
