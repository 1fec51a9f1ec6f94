import IgnoredPaths.Proofs.Session
import Mathlib.Data.List.Destutter

/-!
# What a watch reports

A watch refreshes its session again and again and reports what has changed. What it does can be
said by the answers that the refreshes give one after another: it refreshes and sleeps in turn,
until the refreshes are done or one of them is given up, and it reports each result that differs
from the result before, where a refresh that was dropped has no result.

Nothing is said about how long a sleep lasts. The file tree may change in any way while the watch
sleeps, and stays as it is while it refreshes.

- `viewsOf`: the file trees that refreshes see if changes are made during the sleeps.
- `Session.refreshEach`, `results`: the answers of refreshes, and the results among them.
- `watchEvery_steps`, `watchEvery_changes`, `watchEvery_failure`: what a watch does.
- `watch_reports_changes`: the three together, with and without a failure.
-/

namespace IgnoredPaths

/-! ## Refreshes one after another -/

/-- The file tree after some sleeps, if each comes with a change. -/
def treeAfter (change : Nat → FileTree → FileTree) (t : FileTree) : Nat → FileTree
  | 0 => t
  | n + 1 => change n (treeAfter change t n)

/-- The file trees that refreshes see, if each sleep between two of them comes with a change. -/
def viewsOf (change : Nat → FileTree → FileTree) (t : FileTree) (n : Nat) : List FileTree :=
  (List.range n).map (treeAfter change t)

/-- What a refresh answers. -/
abbrev Answer := Except RefreshError (Option Collection)

/-- The answers of refreshes one after another, whatever they are. -/
def Session.refreshEach : List FileTree → Session → List Answer
  | [], _ => []
  | t :: later, s => (s.refresh t false).answer :: refreshEach later (s.refresh t false).session

theorem Session.length_refreshEach (views : List FileTree) (s : Session) :
    (s.refreshEach views).length = views.length := by
  induction views generalizing s with
  | nil => rfl
  | cons t later ih => exact congrArg (· + 1) (ih _)

namespace Answer

/-- The result of a refresh. One that was dropped or given up has none. -/
def result? : Answer → Option Collection
  | .ok r => r
  | .error _ => none

/-- Why a refresh was given up. -/
def failure? : Answer → Option RefreshError
  | .ok _ => none
  | .error e => some e

/-- The results among some answers. -/
def results (answers : List Answer) : List Collection := answers.filterMap result?

/-- Some answers up to the first failure. -/
def upToFailure : List Answer → List Answer
  | [] => []
  | .ok r :: rest => .ok r :: upToFailure rest
  | .error e :: _ => [.error e]

theorem exists_upToFailure_cons (a : Answer) (rest : List Answer) :
    ∃ more, upToFailure (a :: rest) = a :: more := by
  cases a with
  | ok r => exact ⟨_, rfl⟩
  | error e => exact ⟨_, rfl⟩

theorem upToFailure_append {before : List Answer} (h : ∀ a ∈ before, failure? a = none)
    (rest : List Answer) : upToFailure (before ++ rest) = before ++ upToFailure rest := by
  induction before with
  | nil => rfl
  | cons a before ih =>
    cases a with
    | ok r => exact congrArg (.ok r :: ·) (ih fun b hb => h b (List.mem_cons_of_mem _ hb))
    | error e => cases h _ List.mem_cons_self

theorem upToFailure_eq_self {answers : List Answer} (h : ∀ a ∈ answers, failure? a = none) :
    upToFailure answers = answers := by
  have happend := upToFailure_append h []
  rwa [upToFailure, List.append_nil] at happend

end Answer

/-! ## One watch -/

/-- The refreshes and the sleeps of a watch, without the reports. -/
def Watch.steps (w : Watch) : List WatchEvent := w.events.filter fun e => e.change?.isNone

section

variable (interval : Float) (report : Collection → List Message) {t : FileTree} {s : Session}

theorem watchEvery_of_error {e : RefreshError} (h : (s.refresh t false).answer = .error e)
    (previous : Option Collection) (later : List FileTree) :
    watchEvery interval report previous (t :: later) s =
      ⟨[.refreshed (.error e)], some e, (s.refresh t false).session,
        (s.refresh t false).messages⟩ := by
  simp only [watchEvery, h]

/-- A refresh that is completed or dropped is followed by a report if its result is new, by a sleep
unless it is the last one, and by the rest of the watch. -/
theorem watchEvery_of_ok {r : Option Collection} (h : (s.refresh t false).answer = .ok r)
    (previous : Option Collection) (later : List FileTree) :
    let changed := r.filter fun c => some c ≠ previous
    let w := watchEvery interval report (changed.or previous) later (s.refresh t false).session
    (watchEvery interval report previous (t :: later) s).events =
        .refreshed (.ok r) :: changed.toList.map .reported ++
          (if later = [] then [] else [.slept interval]) ++ w.events ∧
      (watchEvery interval report previous (t :: later) s).failure = w.failure := by
  simp only [watchEvery, h, and_self]

/-- A watch refreshes and sleeps in turn, up to the first failure. -/
theorem watchEvery_steps (previous : Option Collection) (views : List FileTree) (s : Session) :
    (watchEvery interval report previous views s).steps =
      ((Answer.upToFailure (s.refreshEach views)).map .refreshed).intersperse
        (.slept interval) := by
  induction views generalizing previous s with
  | nil => rfl
  | cons t later ih =>
    rw [Session.refreshEach]
    cases hanswer : (s.refresh t false).answer with
    | error e =>
      rw [watchEvery_of_error interval report hanswer]
      rfl
    | ok r =>
      obtain ⟨hevents, -⟩ := watchEvery_of_ok interval report hanswer previous later
      have hreports : ∀ l : List Collection,
          (l.map WatchEvent.reported).filter (fun e => e.change?.isNone) = [] := by
        intro l
        simp [WatchEvent.change?]
      rw [Watch.steps, hevents, List.filter_append, List.filter_append,
        List.filter_cons_of_pos rfl, hreports, Answer.upToFailure, List.map_cons]
      -- only between two refreshes there is a sleep
      cases later with
      | nil => rfl
      | cons t' later =>
        have hrest := ih ((r.filter fun c => some c ≠ previous).or previous)
          (s.refresh t false).session
        rw [Session.refreshEach] at hrest ⊢
        obtain ⟨more, hmore⟩ := Answer.exists_upToFailure_cons
          ((s.refresh t false).session.refresh t' false).answer
          (Session.refreshEach later ((s.refresh t false).session.refresh t' false).session)
        rw [hmore, List.map_cons] at hrest ⊢
        rw [List.intersperse_cons_cons, ← hrest]
        rfl

/-- A refresh that is completed or dropped adds its result to the reports if it is new. -/
theorem changes_watchEvery_of_ok {r : Option Collection} (h : (s.refresh t false).answer = .ok r)
    (previous : Option Collection) (later : List FileTree) :
    let changed := r.filter fun c => some c ≠ previous
    (watchEvery interval report previous (t :: later) s).changes = changed.toList ++
      (watchEvery interval report (changed.or previous) later (s.refresh t false).session).changes
      := by
  intro changed
  have hreports : ∀ l : List Collection,
      (l.map WatchEvent.reported).filterMap WatchEvent.change? = l := by
    intro l
    simp [List.filterMap_map, Function.comp_def, WatchEvent.change?]
  have hpause : (if later = [] then [] else [WatchEvent.slept interval]).filterMap
      WatchEvent.change? = [] := by
    split <;> rfl
  rw [Watch.changes, (watchEvery_of_ok interval report h previous later).1, List.filterMap_append,
    List.filterMap_append, List.filterMap_cons_none rfl, hreports, hpause, List.append_nil]
  rfl

/-- A watch reports each result that differs from the one before, up to the first failure. -/
theorem watchEvery_changes (previous : Option Collection) (views : List FileTree) (s : Session) :
    previous.toList ++ (watchEvery interval report previous views s).changes =
      (previous.toList ++ Answer.results (Answer.upToFailure (s.refreshEach views))).destutter
        (· ≠ ·) := by
  induction views generalizing previous s with
  | nil => cases previous <;> rfl
  | cons t later ih =>
    rw [Session.refreshEach]
    cases hanswer : (s.refresh t false).answer with
    | error e =>
      rw [watchEvery_of_error interval report hanswer]
      cases previous <;> rfl
    | ok r =>
      rw [changes_watchEvery_of_ok interval report hanswer]
      cases r with
      | none => exact ih previous (s.refresh t false).session
      | some c =>
        have hrest := ih (some c) (s.refresh t false).session
        have hresults : ∀ rest, Answer.results (Answer.upToFailure (.ok (some c) :: rest)) =
            c :: Answer.results (Answer.upToFailure rest) := fun _ => rfl
        rw [hresults]
        -- a result that equals the one before is passed over, and the one before stays
        by_cases hsame : some c = previous
        · subst hsame
          have hnone : (some c).filter (fun d => some d ≠ some c) = none := by simp
          rw [hnone]
          exact hrest.trans (List.destutter'_cons_neg _ (not_not.mpr rfl)).symm
        · have hsome : (some c).filter (fun d => some d ≠ previous) = some c := by simp [hsame]
          rw [hsome]
          cases previous with
          | none => exact hrest
          | some p =>
            have hne : p ≠ c := fun heq => hsame (congrArg some heq.symm)
            refine Eq.trans ?_ (List.destutter'_cons_pos _ hne).symm
            exact congrArg (p :: ·) hrest

/-- What ends a watch is the first failure. -/
theorem watchEvery_failure (previous : Option Collection) (views : List FileTree) (s : Session) :
    (watchEvery interval report previous views s).failure =
      (s.refreshEach views).findSome? Answer.failure? := by
  induction views generalizing previous s with
  | nil => rfl
  | cons t later ih =>
    rw [Session.refreshEach, List.findSome?_cons]
    cases hanswer : (s.refresh t false).answer with
    | error e =>
      rw [watchEvery_of_error interval report hanswer]
      rfl
    | ok r =>
      obtain ⟨-, hfailure⟩ := watchEvery_of_ok interval report hanswer previous later
      rw [hfailure, ih]
      rfl

/-- A watch sleeps between any two refreshes. -/
theorem countP_isSleep_intersperse (answers : List Answer) :
    ((answers.map .refreshed).intersperse (.slept interval)).countP WatchEvent.isSleep =
      answers.length - 1 := by
  induction answers with
  | nil => rfl
  | cons a rest ih =>
    cases rest with
    | nil => rfl
    | cons b rest =>
      rw [List.map_cons, List.map_cons, List.intersperse_cons_cons,
        List.countP_cons_of_neg (by simp [WatchEvent.isSleep]), List.countP_cons_of_pos rfl,
        ← List.map_cons, ih]
      rfl

end

theorem Watch.sleeps_eq (w : Watch) : w.sleeps = w.steps.countP WatchEvent.isSleep := by
  rw [sleeps, steps, List.countP_filter]
  refine List.countP_congr fun e _ => ?_
  cases e <;> simp [WatchEvent.isSleep, WatchEvent.change?]

/-- The first of some results is never one that equals the one before. -/
theorem head?_destutter (l : List Collection) : (l.destutter (· ≠ ·)).head? = l.head? := by
  cases l with
  | nil => rfl
  | cons c l =>
    rw [List.destutter_cons', List.head?_cons]
    induction l with
    | nil => rfl
    | cons d l ih =>
      rw [List.destutter'_cons]
      split
      · rfl
      · exact ih

/-- **A watch reports exactly the changes.** Take any session, any number of refreshes and any
changes of the file tree during the sleeps, and let the refreshes give their answers one after
another.

If none of them fails, the watch does just these refreshes and one sleep of the given interval
between any two of them, and it reports the results without those that equal the one before: the
first result is reported even if it is empty, and no two reports in a row are equal. Dropped
refreshes have no result. If one fails, the watch ends with it, after the reports that the
refreshes before it call for. -/
theorem watch_reports_changes (report : Collection → List Message) (s : Session) (t : FileTree)
    (change : Nat → FileTree → FileTree) (n : Nat) (interval : Float) :
    let answers := s.refreshEach (viewsOf change t n)
    let w := watch report none (viewsOf change t n) s interval
    answers.length = n ∧
    ((∀ a ∈ answers, Answer.failure? a = none) →
      w.failure = none ∧
      w.steps = (answers.map .refreshed).intersperse (.slept interval) ∧ w.sleeps = n - 1 ∧
      w.changes = (Answer.results answers).destutter (· ≠ ·) ∧
      w.changes.head? = (Answer.results answers).head? ∧ w.changes.IsChain (· ≠ ·)) ∧
    ∀ before e after, answers = before ++ .error e :: after →
      (∀ a ∈ before, Answer.failure? a = none) →
      w.failure = some e ∧
      w.steps = ((before ++ [.error e]).map .refreshed).intersperse (.slept interval) ∧
      w.changes = (Answer.results before).destutter (· ≠ ·) := by
  intro answers w
  have hsteps : w.steps =
      ((Answer.upToFailure answers).map .refreshed).intersperse (.slept interval) :=
    watchEvery_steps interval report none (viewsOf change t n) s
  have hchanges : w.changes = (Answer.results (Answer.upToFailure answers)).destutter (· ≠ ·) :=
    watchEvery_changes interval report none (viewsOf change t n) s
  have hfailure : w.failure = answers.findSome? Answer.failure? :=
    watchEvery_failure interval report none (viewsOf change t n) s
  have hlength : answers.length = n := by
    rw [Session.length_refreshEach, viewsOf, List.length_map, List.length_range]
  refine ⟨hlength, fun hok => ?_, fun before e after hsplit hbefore => ?_⟩
  · rw [Answer.upToFailure_eq_self hok] at hsteps hchanges
    rw [Watch.sleeps_eq, hsteps, hchanges, hfailure, countP_isSleep_intersperse, hlength]
    refine ⟨List.findSome?_eq_none_iff.mpr hok, rfl, rfl, rfl, ?_, List.isChain_destutter _ _⟩
    exact head?_destutter _
  · have hupTo : Answer.upToFailure answers = before ++ [.error e] := by
      rw [hsplit, Answer.upToFailure_append hbefore]
      rfl
    -- the refresh that failed has no result
    have hresults : Answer.results (before ++ [.error e]) = Answer.results before := by
      rw [Answer.results, List.filterMap_append]
      exact List.append_nil _
    rw [hupTo] at hsteps hchanges
    rw [hresults] at hchanges
    refine ⟨?_, hsteps, hchanges⟩
    rw [hfailure, hsplit, List.findSome?_append, List.findSome?_eq_none_iff.mpr hbefore]
    rfl

/-- A session in a project with a rule file, whose index fails at one of its calls. -/
def failingSession (call : Nat) : Session :=
  .new (.initial (.ofText ['/'])) (some fun n =>
    ⟨[], ["Assets/b.txt".toList], if n = call then some "gone".toList else none⟩)

/-- Three refreshes, with a new rule file before the last one: where none fails, the two different
results are reported; where the second one fails, the first result is all. -/
theorem watch_reports_new_rules :
    let t := Session.onlyRules "b.txt" 1
    let change := fun n t => if n = 1 then Session.onlyRules "c.txt" 2 else t
    let whole := watch (fun _ => []) none (viewsOf change t 3) (failingSession 3) 0.25
    let cut := watch (fun _ => []) none (viewsOf change t 3) (failingSession 1) 0.25
    whole.changes = [⟨["Assets/b.txt".toList], []⟩, .empty] ∧ whole.sleeps = 2 ∧
      cut.changes = [⟨["Assets/b.txt".toList], []⟩] ∧
        cut.failure = some (.index "gone".toList) := by
  intro t change whole cut
  have hwhole : (failingSession 3).refreshEach (viewsOf change t 3) =
      [.ok (some ⟨["Assets/b.txt".toList], []⟩), .ok (some ⟨["Assets/b.txt".toList], []⟩),
        .ok (some .empty)] := by
    decide +kernel
  have hcut : (failingSession 1).refreshEach (viewsOf change t 3) =
      [.ok (some ⟨["Assets/b.txt".toList], []⟩)] ++ .error (.index "gone".toList) ::
        [.ok (some .empty)] := by
    decide +kernel
  obtain ⟨-, hreports, -⟩ :=
    watch_reports_changes (fun _ => []) (failingSession 3) t change 3 0.25
  obtain ⟨-, -, hstops⟩ := watch_reports_changes (fun _ => []) (failingSession 1) t change 3 0.25
  rw [hwhole] at hreports
  obtain ⟨-, -, hsleeps, hchanges, -⟩ := hreports (by decide)
  obtain ⟨hfailure, -, hbefore⟩ := hstops _ _ _ hcut (by decide)
  exact ⟨hchanges, hsleeps, hbefore, hfailure⟩

end IgnoredPaths
