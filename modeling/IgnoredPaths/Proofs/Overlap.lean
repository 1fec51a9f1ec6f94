import IgnoredPaths.Proofs.Session

/-!
# Refreshes that overlap

While a refresh calls the index of its session, the index may ask the session for further
refreshes. These meet a session that is being refreshed, so nothing comes of them: each has no
result and leaves the session as it is, and the refresh goes on as if it had not been asked. When
it is over, whether it was completed or given up, the session takes refreshes again.

A refresh is given up before its pass if the path of the rule file holds a barred character, and
this happens at each refresh that has to load the rules.

- `Session.refresh_reentrant`: the requests of an index may as well be served by refreshes.
- `Session.refreshWith_of_ok`: a refresh, with what the pass leaves and reports.
- `Session.indexCalled?`, `Session.met`: what the requests of an index meet and what they get.
- `Session.refresh_unasked`: a refresh without the requests.
- `Session.RunsPass`: what it is that a refresh runs a pass.
- `Session.overlapping_refreshes_dropped`: the four statements together.
- `Session.refresh_runs_no_pass`: a session whose refreshes never run a pass.
-/

namespace IgnoredPaths

/-- The same call of an index, except that it asks for nothing. -/
def IndexCall.unasking (call : IndexCall) : IndexCall := { call with requests := [] }

namespace Session

variable {nested : Bool → Session → Attempt} {s m : Session} {t : FileTree} {force : Bool}

/-! ## Requests to a busy session -/

theorem refresh_of_busy (h : s.busy = true) (t : FileTree) (force : Bool) :
    s.refresh t force = drop force s := by
  rw [refresh, refreshWith, if_pos h]

/-- What some requests of an index report if all of them are dropped: that they are, and what the
index makes of it. -/
def droppedMessages (requests : List Request) : List Message :=
  requests.flatMap fun r =>
    .info [.text "Refresh already in progress - skipping".toList] :: r.reply none

/-- Requests to a busy session are dropped one by one. -/
theorem serve_of_busy (hnested : ∀ force s, s.busy = true → nested force s = drop force s)
    (h : s.busy = true) (requests : List Request) :
    serve nested requests s = (none, s, droppedMessages requests) := by
  induction requests with
  | nil => rfl
  | cons r rest ih =>
    simp only [serve, hnested r.force s h, drop, ih]
    rfl

/-- What some requests meet and what they get, one after another. A request that is given up is
the last one. -/
def met (nested : Bool → Session → Attempt) : List Request → Session → List (Session × Attempt)
  | [], _ => []
  | r :: rest, s =>
    let a := nested r.force s
    (s, a) ::
      match a.answer with
      | .error _ => []
      | .ok _ => met nested rest a.session

/-- All requests to a busy session meet it as it is. -/
theorem met_of_busy (hnested : ∀ force s, s.busy = true → nested force s = drop force s)
    (h : s.busy = true) (requests : List Request) :
    met nested requests s = requests.map fun r => (s, drop r.force s) := by
  induction requests with
  | nil => rfl
  | cons r rest ih =>
    simp only [met, hnested r.force s h, drop, List.map_cons]
    exact congrArg _ ih

/-! ## One refresh -/

/-- Loading changes the matcher and what belongs to it. -/
theorem prepare_eq_ok {loaded : Session} {loading : List Message}
    (h : s.prepare t force = .ok (loaded, loading)) :
    ∃ matcher built stamp,
      loaded = { s with matcher := matcher, built := built, stamp := stamp } := by
  rw [prepare] at h
  split at h
  · rw [rebuild] at h
    split at h
    · cases h
    · cases h
      exact ⟨_, _, _, rfl⟩
  · cases h
    exact ⟨_, s.built, s.stamp, rfl⟩

/-- Only a path that holds a barred character cannot be loaded from. -/
theorem exists_prepare (h : s.settings.rulesFile.holdsBarred = false) (t : FileTree)
    (force : Bool) : ∃ loaded loading, s.prepare t force = .ok (loaded, loading) := by
  rw [prepare, rebuild, h]
  split
  · exact ⟨_, _, rfl⟩
  · exact ⟨_, _, rfl⟩

/-- What the index does in the pass of a session. Without rules it is not called. -/
def callMade? (s : Session) : Option IndexCall := s.matcher.bind fun _ => s.nextCall

/-- What the pass of a session reports: the extra roots that are refused, if the index does not
fail before they come up. -/
def passMessages (s : Session) : List Message :=
  if s.matcher.isSome ∧ s.callMade?.bind IndexCall.failure = none then
    s.settings.acceptedExtraRoots.2
  else []

/-- The pass of a session whose requests are dropped: its answer, what the session keeps of it, and
what is reported about the requests and after them. -/
theorem runPass_of_busy (hnested : ∀ force s, s.busy = true → nested force s = drop force s)
    (h : s.busy = true) (t : FileTree) :
    let pass := passWith t s.settings s.matcher s.nextCall
    runPass nested s t =
      ⟨pass.1.map some,
        { s with
          matcher := pass.2
          lastResult := pass.1.toOption.or s.lastResult
          calls := s.calls + if s.callMade?.isSome then 1 else 0 },
        droppedMessages (s.callMade?.elim [] IndexCall.requests) ++ s.passMessages⟩ := by
  obtain ⟨settings, index, matcher, lastResult, built, stamp, busy, calls⟩ := s
  cases matcher with
  | none => rfl
  | some m =>
    cases index with
    | none => rfl
    | some index =>
      have hserve := serve_of_busy hnested
        (s := ⟨settings, some index, some m, lastResult, built, stamp, busy, calls + 1⟩) h
        (index calls).requests
      rw [runPass, callIndex, passMessages, callMade?, nextCall]
      simp only [hserve, Option.map_some, Option.bind_some, passWith]
      cases (index calls).failure with
      | none => rfl
      | some reason =>
        simp only [Option.map_some, reduceCtorEq, and_false, if_false, List.append_nil]
        rfl

/-- A refresh of a session whose rule file cannot be loaded. -/
theorem refreshWith_of_error (hidle : s.busy = false) {e : RefreshError}
    (h : { s with busy := true }.prepare t force = .error e) :
    refreshWith nested t force s = ⟨.error e, s, []⟩ := by
  rw [refreshWith, hidle, h]
  rfl

/-- Any other refresh loads the rules, if it has to, and runs a pass. -/
theorem refreshWith_of_ok (hnested : ∀ force s, s.busy = true → nested force s = drop force s)
    (hidle : s.busy = false) {loaded : Session} {loading : List Message}
    (h : { s with busy := true }.prepare t force = .ok (loaded, loading)) :
    let pass := passWith t s.settings loaded.matcher s.nextCall
    refreshWith nested t force s =
      ⟨pass.1.map some,
        { loaded with
          matcher := pass.2
          lastResult := pass.1.toOption.or s.lastResult
          busy := false
          calls := s.calls + if loaded.callMade?.isSome then 1 else 0 },
        loading ++ (droppedMessages (loaded.callMade?.elim [] IndexCall.requests) ++
          loaded.passMessages)⟩ := by
  obtain ⟨matcher, built, stamp, rfl⟩ := prepare_eq_ok h
  rw [refreshWith, hidle, h]
  simp only [Bool.false_eq_true, if_false]
  rw [runPass_of_busy hnested rfl]
  rfl

/-- The requests of an index may as well be served by refreshes, which is what an index asks for:
they all meet a session that is being refreshed. -/
theorem refresh_reentrant (s : Session) (t : FileTree) (force : Bool) :
    s.refresh t force = refreshWith (fun force s => s.refresh t force) t force s := by
  cases hidle : s.busy with
  | true => rw [refresh_of_busy hidle, refreshWith, if_pos hidle]
  | false =>
    rw [refresh]
    cases h : { s with busy := true }.prepare t force with
    | error e => rw [refreshWith_of_error hidle h, refreshWith_of_error hidle h]
    | ok found =>
      rw [refreshWith_of_ok (fun _ _ _ => rfl) hidle h,
        refreshWith_of_ok (fun force _ hbusy => refresh_of_busy hbusy t force) hidle h]

/-! ## Without requests -/

/-- The session with an index that lists and fails as before but asks for nothing. -/
def unasked (s : Session) : Session :=
  { s with index := s.index.map fun index n => (index n).unasking }

theorem nextCall_unasked (s : Session) :
    s.unasked.nextCall = s.nextCall.map IndexCall.unasking := by
  obtain ⟨_, index, _⟩ := s
  cases index <;> rfl

theorem callMade?_unasked (s : Session) :
    s.unasked.callMade? = s.callMade?.map IndexCall.unasking := by
  rw [callMade?, callMade?, nextCall_unasked]
  show (s.matcher.bind fun _ => _) = _
  cases s.matcher <;> rfl

theorem passMessages_unasked (s : Session) : s.unasked.passMessages = s.passMessages := by
  rw [passMessages, passMessages, callMade?_unasked]
  cases s.callMade? <;> rfl

/-- A pass does not depend on what the index asks for. -/
theorem passWith_unasking (t : FileTree) (settings : Settings) (m : Option Matcher)
    (call : Option IndexCall) :
    passWith t settings m (call.map IndexCall.unasking) = passWith t settings m call := by
  cases m <;> cases call <;> rfl

theorem prepare_unasked (s : Session) (t : FileTree) (force : Bool) :
    s.unasked.prepare t force = (s.prepare t force).map fun p => (p.1.unasked, p.2) := by
  rw [prepare, prepare, rebuild, rebuild]
  show (if force || s.rulesChanged t then _ else _) = _
  split
  · show (if s.settings.rulesFile.holdsBarred then _ else _) = _
    split <;> rfl
  · rfl

/-- What the requests of the index meet in a refresh, and what the index does there. A refresh that
is given up before its pass, and one without rules or without an index of its own, calls none. -/
def indexCalled? (s : Session) (t : FileTree) (force : Bool) : Option (Session × IndexCall) :=
  match { s with busy := true }.prepare t force with
  | .error _ => none
  | .ok (loaded, _) =>
    loaded.callMade?.map fun call => ({ loaded with calls := loaded.calls + 1 }, call)

/-- The requests that the index makes in a refresh. -/
def requestsMade (s : Session) (t : FileTree) (force : Bool) : List Request :=
  (s.indexCalled? t force).elim [] fun called => called.2.requests

theorem requestsMade_of_ok {loaded : Session} {loading : List Message}
    (h : { s with busy := true }.prepare t force = .ok (loaded, loading)) :
    s.requestsMade t force = loaded.callMade?.elim [] IndexCall.requests := by
  rw [requestsMade, indexCalled?, h]
  cases hcall : loaded.callMade? <;> simp only [hcall] <;> rfl

theorem busy_of_indexCalled {call : IndexCall} (h : s.indexCalled? t force = some (m, call)) :
    m.busy = true := by
  rw [indexCalled?] at h
  split at h
  · cases h
  · next loaded loading hprepare =>
    obtain ⟨matcher, built, stamp, rfl⟩ := prepare_eq_ok hprepare
    obtain ⟨_, -, heq⟩ := Option.map_eq_some_iff.mp h
    cases heq
    rfl

/-- Without its requests, an index leads to the same answer and the same session, and only what is
reported about the requests is missing. -/
theorem refresh_unasked (hidle : s.busy = false) (t : FileTree) (force : Bool) :
    ∃ before after,
      s.unasked.refresh t force =
        ⟨(s.refresh t force).answer, (s.refresh t force).session.unasked, before ++ after⟩ ∧
      (s.refresh t force).messages =
        before ++ droppedMessages (s.requestsMade t force) ++ after := by
  have hunasked := prepare_unasked { s with busy := true } t force
  have hdrop : ∀ force s, s.busy = true → drop force s = drop force s := fun _ _ _ => rfl
  rw [refresh, refresh]
  cases h : { s with busy := true }.prepare t force with
  | error e =>
    rw [h] at hunasked
    rw [refreshWith_of_error hidle h, refreshWith_of_error hidle (s := s.unasked) hunasked]
    refine ⟨[], [], rfl, ?_⟩
    rw [requestsMade, indexCalled?, h]
    rfl
  | ok found =>
    obtain ⟨loaded, loading⟩ := found
    have hunasked : { s.unasked with busy := true }.prepare t force =
        .ok (loaded.unasked, loading) := by
      rw [h] at hunasked
      exact hunasked
    have hpass : passWith t s.unasked.settings loaded.unasked.matcher s.unasked.nextCall =
        passWith t s.settings loaded.matcher s.nextCall := by
      rw [nextCall_unasked]
      exact passWith_unasking t s.settings loaded.matcher s.nextCall
    rw [refreshWith_of_ok hdrop hidle h, refreshWith_of_ok (s := s.unasked) hdrop hidle hunasked]
    refine ⟨loading, loaded.passMessages, ?_, ?_⟩
    · rw [hpass, callMade?_unasked, passMessages_unasked]
      cases loaded.callMade? <;> rfl
    · rw [requestsMade_of_ok h, List.append_assoc]

/-! ## Refreshes one after another -/

/-- A session after some refreshes, each with the file tree that it sees. -/
def refreshAll (past : List (FileTree × Bool)) (s : Session) : Session :=
  past.foldl (fun s p => (s.refresh p.1 p.2).session) s

/-- A refresh runs a pass: over the rules that it has loaded or kept, with the answer and the
matcher of that pass. -/
def RunsPass (s : Session) (t : FileTree) (force : Bool) : Prop :=
  ∃ loaded loading, { s with busy := true }.prepare t force = .ok (loaded, loading) ∧
    let a := s.refresh t force
    let pass := passWith t s.settings loaded.matcher s.nextCall
    a.answer = pass.1.map some ∧ a.session.matcher = pass.2 ∧
      a.session.lastResult = pass.1.toOption.or s.lastResult

/-- A refresh of a session that is not being refreshed leaves it so, with its settings. -/
theorem refresh_idle (hidle : s.busy = false) (t : FileTree) (force : Bool) :
    (s.refresh t force).session.busy = false ∧
      (s.refresh t force).session.settings = s.settings := by
  rw [refresh]
  cases h : { s with busy := true }.prepare t force with
  | error e =>
    rw [refreshWith_of_error hidle h]
    exact ⟨hidle, rfl⟩
  | ok found =>
    obtain ⟨matcher, built, stamp, hloaded⟩ := prepare_eq_ok h
    rw [refreshWith_of_ok (fun _ _ _ => rfl) hidle h]
    refine ⟨rfl, ?_⟩
    show found.1.settings = s.settings
    rw [hloaded]

theorem refreshAll_idle (hidle : s.busy = false) (past : List (FileTree × Bool)) :
    (s.refreshAll past).busy = false ∧ (s.refreshAll past).settings = s.settings := by
  induction past generalizing s with
  | nil => exact ⟨hidle, rfl⟩
  | cons p rest ih =>
    obtain ⟨hidle', hsettings⟩ := refresh_idle hidle p.1 p.2
    exact ⟨(ih hidle').1, (ih hidle').2.trans hsettings⟩

/-- A refresh of a session that is not being refreshed is not dropped. -/
theorem answer_refresh_ne_none (hidle : s.busy = false) (t : FileTree) (force : Bool) :
    (s.refresh t force).answer ≠ .ok none := by
  rw [refresh]
  cases h : { s with busy := true }.prepare t force with
  | error e =>
    rw [refreshWith_of_error hidle h]
    intro hnone
    cases hnone
  | ok found =>
    rw [refreshWith_of_ok (fun _ _ _ => rfl) hidle h]
    generalize (passWith _ _ _ _).1 = answer
    intro hnone
    cases answer <;> cases hnone

/-- A refresh that can load the rules runs a pass. -/
theorem runsPass_of_holdsBarred (hidle : s.busy = false)
    (hbarred : s.settings.rulesFile.holdsBarred = false) (t : FileTree) (force : Bool) :
    s.RunsPass t force := by
  obtain ⟨loaded, loading, h⟩ := exists_prepare (s := { s with busy := true }) hbarred t force
  refine ⟨loaded, loading, h, ?_⟩
  rw [refresh, refreshWith_of_ok (fun _ _ _ => rfl) hidle h]
  exact ⟨rfl, rfl, rfl⟩

/-- **Refreshes that overlap are dropped.** Take a refresh of any session that is not being
refreshed, and let the index ask for refreshes of the session while it is called, which are
refreshes like any other.

Each of them meets the session as the refresh has prepared it, has no result and leaves the session
as it is. The refresh has the same answer, and leaves the same session but for the index itself, as
if the index had listed and failed without asking. Only what is reported about the requests comes
on top. And after any refreshes one after another, completed or given up, a refresh is not dropped,
and it runs a pass unless the path of the rule file holds a barred character. -/
theorem overlapping_refreshes_dropped (s : Session) (hidle : s.busy = false) (t : FileTree)
    (force : Bool) :
    let a := s.refresh t force
    a = refreshWith (fun force s => s.refresh t force) t force s ∧
    (∀ m call, s.indexCalled? t force = some (m, call) →
      met (fun force s => s.refresh t force) call.requests m = call.requests.map fun _ =>
        (m, ⟨.ok none, m, [.info [.text "Refresh already in progress - skipping".toList]]⟩)) ∧
    (∃ before after,
      s.unasked.refresh t force = ⟨a.answer, a.session.unasked, before ++ after⟩ ∧
      a.messages = before ++ droppedMessages (s.requestsMade t force) ++ after) ∧
    ∀ past : List (FileTree × Bool),
      ((s.refreshAll past).refresh t force).answer ≠ .ok none ∧
      (s.settings.rulesFile.holdsBarred = false → (s.refreshAll past).RunsPass t force) := by
  intro a
  refine ⟨s.refresh_reentrant t force, fun m call h => ?_, refresh_unasked hidle t force,
    fun past => ?_⟩
  · exact met_of_busy (fun force _ hbusy => refresh_of_busy hbusy t force)
      (busy_of_indexCalled h) call.requests
  · obtain ⟨hidle', hsettings⟩ := refreshAll_idle hidle past
    refine ⟨answer_refresh_ne_none hidle' t force, fun hbarred => ?_⟩
    exact runsPass_of_holdsBarred hidle' (hsettings ▸ hbarred) t force

/-- A session in a project with a rule file, whose index asks for two refreshes at each call and
fails at the first one. -/
def askingSession : Session :=
  .new (.initial (.ofText ['/'])) (some fun n =>
    ⟨[⟨false, fun _ => []⟩, ⟨true, fun _ => []⟩], ["Assets/b.txt".toList],
      if n = 0 then some "gone".toList else none⟩)

/-- The first refresh fails as it would have without the requests, and the next one runs a pass. -/
theorem askingSession_overlapping :
    let s := askingSession
    let t := onlyRules "b.txt" 1
    s.busy = false ∧ s.settings.rulesFile.holdsBarred = false ∧
      (s.requestsMade t false).length = 2 ∧
      (s.unasked.refresh t false).answer = .error (.index "gone".toList) ∧
      (s.refreshAll [(t, false)]).RunsPass t false := by
  intro s t
  obtain ⟨-, -, ⟨before, after, hunasked, -⟩, hlater⟩ :=
    overlapping_refreshes_dropped s rfl t false
  refine ⟨rfl, rfl, by decide +kernel, ?_, (hlater [(t, false)]).2 rfl⟩
  rw [hunasked]
  show (askingSession.refresh (onlyRules "b.txt" 1) false).answer = _
  decide +kernel

/-- The NUL character is barred, so that a path that holds it cannot be loaded from. The refreshes of
a session with such a rule file are given up before their pass, one after another. -/
theorem refresh_runs_no_pass :
    let settings := { Settings.initial (.ofText ['/']) with rulesFile := .ofText "/a\x00b".toList }
    let s := new settings none
    s.busy = false ∧ ¬ (s.refreshAll [(.empty, false)]).RunsPass .empty true := by
  intro settings s
  refine ⟨rfl, ?_⟩
  rintro ⟨loaded, loading, hprepare, -⟩
  cases hprepare

end Session

end IgnoredPaths
