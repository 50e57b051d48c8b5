import SmallLisp.Proofs.Eval.Bounds
import SmallLisp.Proofs.Reader.Seam
import SmallLisp.Session

/-!
# Sessions in pieces

A session may be cut between any two expressions of its sources. Main statements: a row of
expressions is run like its beginning and then its end (`runProgram_append`), and so are two sources
with a newline between them, a prelude and the sources behind it (`sessions_cut`).
-/

namespace SmallLisp.Session

variable (m : Machine) (root : FrameId)

theorem runAll_append {ds es : List Datum} (begins : ds ≠ []) (ends : es ≠ []) :
    runAll m root (ds ++ es) = runAll m root ds >>= fun _ => runAll m root es := by
  induction ds with
  | nil => exact absurd rfl begins
  | cons d ds ih =>
    cases ds with
    | nil =>
      cases es with
      | nil => exact absurd rfl ends
      | cons e es => rfl
    | cons d' ds =>
      show runDatum m root d >>= (fun _ => runAll m root (d' :: ds ++ es)) =
        (runDatum m root d >>= fun _ => runAll m root (d' :: ds)) >>= fun _ => runAll m root es
      rw [ih (List.cons_ne_nil d' ds), bind_assoc]

/-- The value is that of the last expression, wherever the row is cut. -/
theorem runProgram_append (ds es : List Datum) :
    runProgram m root (ds ++ es) = do
      let v ← runProgram m root ds
      let u ← runProgram m root es
      return if es.isEmpty then v else u := by
  cases ds with
  | nil => cases es <;> simp [runProgram]
  | cons d ds =>
    cases es with
    | nil => simp [runProgram]
    | cons e es =>
      have whole := runAll_append m root (List.cons_ne_nil d ds) (List.cons_ne_nil e es)
      simpa [runProgram] using whole

theorem runSource_of_ok {source : String} {ds : List Datum} (h : Datum.readAll source = .ok ds) :
    runSource m root source = runProgram m root ds := by
  rw [runSource, h]
  rfl

theorem runProgram_singleton (d : Datum) : runProgram m root [d] = runDatum m root d := rfl

/-- What fails ends the row: what has been done before is kept, and nothing behind is run. -/
theorem runFrom_runProgram_of_error {before after : List Datum} {d : Datum} {v : Value}
    {w w₁ w₂ : World} {stop : Stop} (done : (runProgram m root before).runFrom w = (.ok v, w₁))
    (failed : (runDatum m root d).runFrom w₁ = (.error stop, w₂)) :
    (runProgram m root (before ++ d :: after)).runFrom w = (.error stop, w₂) := by
  rw [runProgram_append, EvalM.runFrom_bind_ok done, ← List.singleton_append, runProgram_append,
    runProgram_singleton]
  exact EvalM.runFrom_bind_error (EvalM.runFrom_bind_error failed _) _

/-- A prelude that is given as text is run like a first source. -/
theorem start_inline {p : String} (nonempty : p ≠ "") (notAutomatic : p ≠ Prelude.automatic)
    (content : Option String) :
    start m (Prelude.choose (some p) content) = do
      let root ← start m (Prelude.choose none content)
      let _ ← runSource m root p
      return root := by
  have chosen : Prelude.choose (some p) content = .inline p := by
    simp [Prelude.choose, nonempty, notAutomatic]
  rw [chosen]
  simp only [start, Prelude.choose, Prelude.source?, bind_assoc, pure_bind]

/-- A session can be cut between any two expressions. Two sources that can be read are read one
after the other if a newline stands between them, whatever the first ends with, and the joined
source is run like the first and then, unless that fails, the second: from every state, with the
same error, the same state behind it, and the value of the last expression of all. What fails in a
source leaves what has been done before it, and nothing behind it is run. A prelude that is given as
text is run like a first source. A source that cannot be read changes nothing. -/
theorem sessions_cut :
    (∀ (first second : String) (ds es : List Datum), Datum.readAll first = .ok ds →
      Datum.readAll second = .ok es →
      Datum.readAll (first ++ "\n" ++ second) = .ok (ds ++ es) ∧
      runSource m root (first ++ "\n" ++ second) = do
        let v ← runSource m root first
        let u ← runSource m root second
        return if es.isEmpty then v else u) ∧
    (∀ (source : String) (before after : List Datum) (d : Datum),
      Datum.readAll source = .ok (before ++ d :: after) → ∀ v w w₁ w₂ stop,
      (runProgram m root before).runFrom w = (.ok v, w₁) →
      (runDatum m root d).runFrom w₁ = (.error stop, w₂) →
      (runSource m root source).runFrom w = (.error stop, w₂)) ∧
    (∀ (p : String) (content : Option String), p ≠ "" → p ≠ Prelude.automatic →
      start m (Prelude.choose (some p) content) = do
        let root ← start m (Prelude.choose none content)
        let _ ← runSource m root p
        return root) ∧
    ∀ (source : String) (e : Error), Datum.readAll source = .error e →
      ∀ w, (runSource m root source).runFrom w = (.error (.error e), w) := by
  refine ⟨?_, ?_, ?_, fun source e rejected w => runSource_of_error rejected m root w⟩
  · intro first second ds es read read'
    have joined := Datum.readAll_newline read read'
    refine ⟨joined, ?_⟩
    rw [runSource_of_ok m root joined, runSource_of_ok m root read, runSource_of_ok m root read']
    exact runProgram_append m root ds es
  · intro source before after d read v w w₁ w₂ stop done failed
    rw [runSource_of_ok m root read]
    exact runFrom_runProgram_of_error m root done failed
  · intro p content nonempty notAutomatic
    exact start_inline m nonempty notAutomatic content

/-- A source that ends in a comment, and one that fails in the middle. The first is also used as a
prelude, and a source with a parenthesis too many is refused. -/
theorem sessions_cut_comment :
    let m := (Limits.mk 4 2).machine
    let x := Datum.symbol ⟨"x"⟩
    let bind (n : Int) := Datum.ofList [Datum.symbol ⟨"define"⟩, x, .atom (.number (.int n))]
    let failing := Datum.ofList [Datum.symbol ⟨"car"⟩, x]
    let first := "(define x 1) x ; note"
    let second := "(car x) (define x 2)"
    let w : World := ⟨⟨#[⟨none, [(⟨"car"⟩, .builtin .car)]⟩]⟩, 0, #[]⟩
    let w' : World :=
      ⟨⟨#[⟨none, [(⟨"car"⟩, .builtin .car), (⟨"x"⟩, .number (.int 1))]⟩]⟩, 5, #[]⟩
    Datum.readAll (first ++ "\n" ++ second) = .ok [bind 1, x, failing, bind 2] ∧
      (runSource m 0 (first ++ "\n" ++ second)).runFrom w =
        (.error (.error (.notList .car "1")), w') ∧
      start m (Prelude.choose (some first) none) = (do
        let root ← start m (Prelude.choose none none)
        let _ ← runSource m root first
        return root) ∧
      (runSource m 0 "(define x 1) )").runFrom w =
        (.error (.error (.unexpectedToken ")")), w) := by
  intro m x bind failing first second w w'
  have cut := sessions_cut m 0
  have read : Datum.readAll first = .ok [bind 1, x] := by decide +kernel
  have read' : Datum.readAll second = .ok [failing, bind 2] := by decide +kernel
  have joined : Datum.readAll (first ++ "\n" ++ second) =
      .ok ([bind 1, x] ++ failing :: [bind 2]) :=
    (cut.1 first second _ _ read read').1
  have done : (runProgram m 0 [bind 1, x]).runFrom w =
      (.ok (.number (.int 1)), { w' with fresh := 3 }) := by
    decide +kernel
  have failed : (runDatum m 0 failing).runFrom { w' with fresh := 3 } =
      (.error (.error (.notList .car "1")), w') := by
    decide +kernel
  refine ⟨joined, cut.2.1 _ _ _ _ joined _ _ _ _ _ done failed, ?_, ?_⟩
  · exact cut.2.2.1 first none (by decide) (by decide)
  · exact cut.2.2.2 "(define x 1) )" _ (by decide +kernel) w

end SmallLisp.Session
