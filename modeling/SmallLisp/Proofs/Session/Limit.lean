import Mathlib.Order.Bounds.Defs
import SmallLisp.Opening
import SmallLisp.Proofs.Session.Setting
import SmallLisp.Proofs.State.Sessions

/-!
# The limit of the host

Opening a session raises the limit of the host to what the settings ask for, or leaves it alone. So
it never goes down, and what it is in the end does not depend on the order in which the sessions
were opened. Main statements: the three ways that an opening can go (`openWith_cases`), that it makes
the limit the greatest of what it was and what is asked for (`openWith_isGreatest`), and that any
openings do (`limit_raised_to_greatest_request`).
-/

namespace SmallLisp

namespace LevelLimit

/-- The limit is left alone, or raised if the setting asks for more, or the setting is refused. -/
theorem raise_cases (l : LevelLimit) (raw : Option String) :
    Settings.content raw = [] ∧ l.raise raw = .ok l ∨
      (∃ n, Settings.Asks raw n ∧ l.raise raw = .ok (if l.current < n then l.set n else l)) ∨
      Settings.Invalid raw ∧ ∃ e, l.raise raw = .error e ∧ e.kind = .invalidValue := by
  unfold raise Settings.raisedLimit
  rcases Settings.positive_cases Settings.recursionLimit raw with
    ⟨empty, given⟩ | ⟨n, asks, given⟩ | ⟨invalid, e, fails, kind⟩
  · rw [given]
    exact .inl ⟨empty, rfl⟩
  · rw [given]
    refine .inr (.inl ⟨n, asks, ?_⟩)
    by_cases more : l.current < n
    · simp only [Except.map, Option.filter_some, more, decide_true, ↓reduceIte]
      rfl
    · simp only [Except.map, Option.filter_some, more, decide_false, ↓reduceIte]
      rfl
  · rw [fails]
    exact .inr (.inr ⟨invalid, e, rfl, kind⟩)

end LevelLimit

namespace Session

/-- The setting for the limit. -/
abbrev limitSetting (host : Host) : Option String := host.setting? Settings.recursionLimit

/-! ### Starting a session -/

theorem size_bindAll (root : FrameId) (ops : List Builtin) (w : World) :
    (bindAll root ops w).heap.size = w.heap.size := by
  induction ops generalizing w with
  | nil => rfl
  | cons op ops ih => exact (ih _).trans (Heap.size_define ..)

/-- A session without a prelude always starts. -/
theorem exists_startWith_none (m : Machine) (host : Host) (w : World) :
    ∃ w', (startWith m host none).runFrom w = (.ok w.heap.size, w') := by
  have same : startWith m host none = newRoot := bind_pure newRoot
  exact ⟨_, same ▸ runFrom_newRoot_at w⟩

/-- A session that is started has its root frame, however the start ends. -/
theorem size_lt_startWith {m : Machine} (respects : m.Respects namesDiscipline) (host : Host)
    (request : Option String) (w : World) :
    w.heap.size < ((startWith m host request).runFrom w).2.heap.size := by
  have rooted : w.heap.size < (bindAll w.heap.size Builtin.all (w.extend none)).heap.size :=
    Nat.lt_of_lt_of_eq (w.size_lt_extend none) (size_bindAll ..).symm
  unfold startWith
  split
  · unfold start
    rw [EvalM.runFrom_bind_ok (runFrom_newRoot_at w)]
    split
    · rename_i source _
      have kept := (runSource_extends respects w.heap.size source
        (bindAll w.heap.size Builtin.all (w.extend none))).lt_size rooted
      generalize bindAll w.heap.size Builtin.all (w.extend none) = w₁ at kept
      rcases run : (runSource m w.heap.size source).runFrom w₁ with ⟨s | v, w'⟩
      · rw [run] at kept
        rwa [EvalM.runFrom_bind_error run]
      · rw [run] at kept
        rwa [EvalM.runFrom_bind_ok run]
    · exact rooted
  · rw [EvalM.runFrom_bind_ok (runFrom_newRoot_at w)]
    exact rooted

/-! ### Opening sessions -/

/-- How an opening goes, by what the setting is. Only the limit differs between the first two. -/
theorem openWith_cases (bounds : Nat → Limits) (host : Host) (request : Option String)
    (l : LevelLimit) (w : World) :
    let opened := openWith bounds host request l w
    let started (limit : LevelLimit) :=
      let run := (startWith (bounds limit.current).machine host request).runFrom w
      (run.1, limit, run.2)
    Settings.content (limitSetting host) = [] ∧ opened = started l ∨
      (∃ n, Settings.Asks (limitSetting host) n ∧
        opened = started (if l.current < n then l.set n else l)) ∨
      Settings.Invalid (limitSetting host) ∧
        ∃ e, opened = (.error (.error e), l, w) ∧ e.kind = .invalidValue := by
  rcases l.raise_cases (limitSetting host) with
    ⟨empty, given⟩ | ⟨n, asks, given⟩ | ⟨invalid, e, fails, kind⟩
  · exact .inl ⟨empty, openWith_of_raised given bounds request w⟩
  · exact .inr (.inl ⟨n, asks, openWith_of_raised given bounds request w⟩)
  · exact .inr (.inr ⟨invalid, e, openWith_of_refused fails bounds request w, kind⟩)

variable {bounds : Nat → Limits} {host : Host} {request : Option String} {l : LevelLimit}
  {w : World}

/-- One opening makes the limit the greatest of what it was and what is asked for. -/
theorem openWith_isGreatest : IsGreatest {n | n = l.current ∨ Settings.Asks (limitSetting host) n}
    (openWith bounds host request l w).2.1.current := by
  rcases openWith_cases bounds host request l w with
    ⟨empty, given⟩ | ⟨n, asks, given⟩ | ⟨invalid, e, given, -⟩
  · rw [given]
    refine ⟨.inl rfl, ?_⟩
    rintro n (rfl | asks)
    · exact Nat.le_refl _
    · exact absurd empty asks.content_ne_nil
  · rw [given]
    by_cases more : l.current < n
    · rw [if_pos more]
      refine ⟨.inr asks, ?_⟩
      rintro n' (rfl | asks')
      · exact Nat.le_of_lt more
      · exact Nat.le_of_eq (asks'.unique asks)
    · rw [if_neg more]
      refine ⟨.inl rfl, ?_⟩
      rintro n' (rfl | asks')
      · exact Nat.le_refl _
      · exact asks'.unique asks ▸ Nat.le_of_not_lt more
  · rw [given]
    refine ⟨.inl rfl, ?_⟩
    rintro n (rfl | asks)
    · exact Nat.le_refl _
    · exact absurd invalid asks.not_invalid

/-- The limit after any openings is the greatest of what it was and what has been asked for. -/
theorem openAll_isGreatest (openings : List (Host × Option String)) : IsGreatest
    {n | n = l.current ∨ ∃ o ∈ openings, Settings.Asks (limitSetting o.1) n}
    (openAll bounds openings l w).1.current := by
  induction openings generalizing l w with
  | nil => simp [openAll]
  | cons o openings ih =>
    obtain ⟨host, request⟩ := o
    obtain ⟨reached, bound⟩ := @openWith_isGreatest bounds host request l w
    obtain ⟨reachedLater, boundLater⟩ :=
      @ih (openWith bounds host request l w).2.1 (openWith bounds host request l w).2.2
    -- The other sessions are opened where the first has left the limit.
    have step : (openWith bounds host request l w).2.1.current ≤
        (openAll bounds ((host, request) :: openings) l w).1.current := boundLater (.inl rfl)
    refine ⟨?_, ?_⟩
    · rcases reachedLater with same | ⟨o, member, asks⟩
      · rcases reached with kept | asks
        · exact .inl (same.trans kept)
        · refine .inr ⟨(host, request), List.mem_cons_self, ?_⟩
          rw [openAll, same]
          exact asks
      · exact .inr ⟨o, List.mem_cons_of_mem _ member, asks⟩
    · rintro n (rfl | ⟨o, member, asks⟩)
      · exact (bound (.inl rfl)).trans step
      · rcases List.mem_cons.1 member with rfl | member
        · exact (bound (.inr asks)).trans step
        · exact boundLater (.inr ⟨o, member, asks⟩)

/-- The limit of the host only goes up, to the greatest request, whatever bounds the limit leaves to
evaluation. An opening fails before anything has been done if and only if the setting has a text
that spells no positive integer, and without a prelude it fails for no other reason. The limit is
left alone if the setting has no text. If it asks for an integer, the host is told to set the limit
to this once if it is more than the limit, and not at all otherwise. What comes of an opening that
is not refused is what comes of starting the session. So after any openings the limit is the
greatest of what it was at first and of all that was asked for. On words of an optional sign and
digits, the integer of the setting is the one that the reader gives. -/
theorem limit_raised_to_greatest_request (bounds : Nat → Limits) :
    (∀ host request l w,
      let opened := openWith bounds host request l w
      let raw := limitSetting host
      ((∃ e, opened = (.error (.error e), l, w) ∧ e.kind = .invalidValue) ↔
        Settings.Invalid raw) ∧
      (request = none → ((∃ e, opened.1 = .error (.error e)) ↔ Settings.Invalid raw)) ∧
      (Settings.content raw = [] → opened.2.1 = l) ∧
      (∀ n, Settings.Asks raw n →
        opened.2.1 = if l.current < n then ⟨n, l.calls ++ [n]⟩ else l) ∧
      (¬ Settings.Invalid raw → (opened.1, opened.2.2) =
        (startWith (bounds opened.2.1.current).machine host request).runFrom w)) ∧
    (∀ openings l w, IsGreatest
      {n | n = l.current ∨ ∃ o ∈ openings, Settings.Asks (limitSetting o.1) n}
      (openAll bounds openings l w).1.current) ∧
    ∀ word negative digits, Numeral.Spelling word.toList (.int negative digits) → ∀ n,
      Settings.integer? (Settings.content (some word)) = some n ↔
        Datum.ofWord word = .ok (.atom (.number (.int n))) := by
  refine ⟨fun host request l w => ?_, fun openings l w => openAll_isGreatest openings,
    fun word negative digits spelled => Settings.integer?_eq_some_iff_ofWord spelled⟩
  intro opened raw
  have ways := openWith_cases bounds host request l w
  have refused (invalid : Settings.Invalid raw) :
      ∃ e, opened = (.error (.error e), l, w) ∧ e.kind = .invalidValue := by
    rcases ways with ⟨empty, -⟩ | ⟨n, asks, -⟩ | ⟨-, given⟩
    · exact absurd empty invalid.1
    · exact absurd invalid asks.not_invalid
    · exact given
  have started (valid : ¬ Settings.Invalid raw) : (opened.1, opened.2.2) =
      (startWith (bounds opened.2.1.current).machine host request).runFrom w := by
    rcases ways with ⟨-, given⟩ | ⟨n, -, given⟩ | ⟨invalid, -⟩
    · rw [show opened = _ from given]
    · rw [show opened = _ from given]
    · exact absurd invalid valid
  refine ⟨⟨?_, refused⟩, fun plain => ⟨?_, fun invalid => ?_⟩, fun empty => ?_, fun n asks => ?_,
    started⟩
  · rintro ⟨e, whole, -⟩
    by_contra valid
    have grown := size_lt_startWith (Machine.respects_machine namesDiscipline
      (bounds opened.2.1.current).bounces (bounds opened.2.1.current).depth) host request w
    have ends : w = _ := (congrArg (fun o => o.2.2) whole).symm.trans
      (congrArg Prod.snd (started valid))
    exact absurd (congrArg (fun w => w.heap.size) ends) (Nat.ne_of_lt grown)
  · rintro ⟨e, failed⟩
    by_contra valid
    subst plain
    obtain ⟨w', starts⟩ := exists_startWith_none (bounds opened.2.1.current).machine host w
    have ends := congrArg Prod.fst ((started valid).trans starts)
    rw [show opened.1 = _ from failed] at ends
    cases ends
  · obtain ⟨e, whole, -⟩ := refused invalid
    exact ⟨e, congrArg Prod.fst whole⟩
  · rcases ways with ⟨-, given⟩ | ⟨n, asks, -⟩ | ⟨invalid, -⟩
    · rw [show opened = _ from given]
    · exact absurd empty asks.content_ne_nil
    · exact absurd empty invalid.1
  · rcases ways with ⟨empty, -⟩ | ⟨n', asks', given⟩ | ⟨invalid, -⟩
    · exact absurd empty asks.content_ne_nil
    · rw [show opened = _ from given, asks.unique asks']
      rfl
    · exact absurd invalid asks.not_invalid

/-- A text that is no integer is refused. Groups of digits and digits of another script are taken,
and of two such requests the greater stays. -/
theorem limit_raised_to_greatest_request_grouped :
    let bounds (limit : Nat) : Limits := ⟨limit, 1⟩
    let host (text : String) : Host := ⟨fun _ => some text, fun _ => none⟩
    let start : LevelLimit := ⟨1000, []⟩
    let openings := ["1__5", " 2_500 ", "٢٠٠٠"].map fun text => (host text, none)
    Settings.Invalid (some "1__5") ∧ Settings.Asks (some " 2_500 ") 2500 ∧
    Settings.Asks (some "٢٠٠٠") 2000 ∧
    (∃ e, openWith bounds (host "1__5") none start World.initial =
      (.error (.error e), start, World.initial) ∧ e.kind = .invalidValue) ∧
    (openWith bounds (host " 2_500 ") none start World.initial).2.1 = ⟨2500, [2500]⟩ ∧
    (openAll bounds openings start World.initial).1.current = 2500 ∧
    Numeral.Spelling "+042".toList (.int false [0, 4, 2]) ∧
    Datum.ofWord "+042" = .ok (.atom (.number (.int 42))) := by
  intro bounds host start openings
  have none_spelled : Settings.integer? (Settings.content (some "1__5")) = none := by decide
  have invalid : Settings.Invalid (some "1__5") := by
    refine ⟨by decide, fun n asks => ?_⟩
    rw [Settings.integer?_eq_some_iff.2 asks.2] at none_spelled
    cases none_spelled
  have grouped : Settings.Asks (some " 2_500 ") 2500 :=
    ⟨by decide, Settings.integer?_eq_some_iff.1 (by decide)⟩
  have foreign : Settings.Asks (some "٢٠٠٠") 2000 :=
    ⟨by decide, Settings.integer?_eq_some_iff.1 (by decide)⟩
  have word : Numeral.Spelling "+042".toList (.int false [0, 4, 2]) :=
    Numeral.ofChars?_eq_int_iff.1 (by decide)
  have member : (host " 2_500 ", none) ∈ openings := .tail _ (.head _)
  obtain ⟨one, all, reads⟩ := limit_raised_to_greatest_request bounds
  obtain ⟨refused, -⟩ := one (host "1__5") none start World.initial
  obtain ⟨-, -, -, raised, -⟩ := one (host " 2_500 ") none start World.initial
  obtain ⟨reached, bound⟩ := all openings start World.initial
  have within : (openAll bounds openings start World.initial).1.current ≤ 2500 := by
    rcases reached with same | ⟨o, member, asks⟩
    · exact Nat.le_trans (Nat.le_of_eq same) (by decide)
    · obtain ⟨text, known, rfl⟩ := List.mem_map.1 member
      simp only [List.mem_cons, List.not_mem_nil, or_false] at known
      rcases known with rfl | rfl | rfl
      · exact absurd invalid asks.not_invalid
      · exact Nat.le_of_eq (asks.unique grouped)
      · exact Nat.le_trans (Nat.le_of_eq (asks.unique foreign)) (by decide)
  exact ⟨invalid, grouped, foreign, refused.2 invalid, raised 2500 grouped,
    Nat.le_antisymm within (bound (.inr ⟨(host " 2_500 ", none), member, grouped⟩)), word,
    (reads "+042" false [0, 4, 2] word 42).1 (by decide)⟩

end Session

end SmallLisp
