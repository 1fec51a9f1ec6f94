import IgnoredPaths.Proofs.Collect
import IgnoredPaths.Session

/-!
# A long-lived session is as good as a new one

A session keeps its matcher between refreshes, with the stamp of the rule file that the matcher
was loaded from. As long as stamps tell what rule files hold, this does not show: whatever
happened before, a refresh answers like a pass that loads the rules anew, and leaves a matcher
that keeps as many answers as that of a new session.

Nothing is said about what is reported meanwhile, nor about a file tree that changes while a
refresh runs.

- `loadOutcome`: all that a matcher depends on in a rule file.
- `History`: a session, the file trees it has met and the results it has answered; `History.step`
  is one event and `History.run` a run of events.
- `Session.Loaded`: what the session keeps belongs to a file tree that it has met. Every event
  preserves this (`History.Sound.step`).
- `Session.Loaded.refresh`: a refresh of such a session, said without what it keeps.
-/

namespace IgnoredPaths

/-! ## Loading -/

/-- What is found at the path of a rule file. -/
inductive LoadOutcome where
  /-- No file is there. -/
  | absent
  /-- A file is there whose text cannot be had. -/
  | unreadable
  /-- A file with a text is there. -/
  | text (s : Text)
  deriving DecidableEq

/-- What a file tree holds at the path of a rule file. -/
def loadOutcome (t : FileTree) (p : Path) : LoadOutcome :=
  if t.isFile p then
    match t.read p with
    | .error _ => .unreadable
    | .ok (content, _) =>
      match decodeMarked? content with
      | none => .unreadable
      | some s => .text s
  else .absent

/-- The matcher that an outcome gives. -/
def LoadOutcome.matcher? : LoadOutcome → Option Matcher
  | .text s => some (Matcher.ofLines (Text.lines s))
  | _ => none

theorem loadMatcher_fst (t : FileTree) (p : Path) :
    (loadMatcher t p).1 = (loadOutcome t p).matcher? := by
  simp only [loadMatcher, loadOutcome, readRuleLines]
  split
  · cases t.read p with
    | error f => rfl
    | ok found =>
      simp only
      cases decodeMarked? found.1 <;> rfl
  · rfl

/-- A matcher that was just loaded keeps no answers. -/
theorem known_loadMatcher {t : FileTree} {p : Path} {m : Matcher}
    (h : (loadMatcher t p).1 = some m) : m.known = [] := by
  rw [loadMatcher_fst] at h
  cases hout : loadOutcome t p with
  | absent | unreadable =>
    rw [hout] at h
    cases h
  | text s =>
    rw [hout] at h
    cases h
    rfl

namespace Matcher

theorem forget_eq_self {m : Matcher} (h : m.known = []) : m.forget = m := by
  cases m
  cases h
  rfl

/-- A matcher that keeps no answers is sound. -/
theorem sound_of_known {m : Matcher} (h : m.known = []) : m.Sound :=
  forget_eq_self h ▸ m.sound_forget

end Matcher

/-! ## A pass without a session -/

/-- What a refresh answers, were there no session: a pass over what the index lists in this call,
or over the default listing, by the rules that are there now. -/
def collectNow (t : FileTree) (settings : Settings) (call : Option IndexCall) :
    Except RefreshError Collection :=
  if settings.rulesFile.holdsBarred then .error .barredCharacter
  else
    match (loadMatcher t settings.rulesFile).1, call with
    | m, none => .ok (collect t settings m)
    | none, some _ => .ok .empty
    | some m, some call =>
      match call.failure with
      | some reason => .error (.index reason)
      | none => .ok (collectListing t settings m call.entries).result

/-- A pass by some rules, if there are any: its answer, and the matcher after it. -/
def passWith (t : FileTree) (settings : Settings) :
    Option Matcher → Option IndexCall → Except RefreshError Collection × Option Matcher
  | none, _ => (.ok .empty, none)
  | some m, none =>
    let p := collectListing t settings m (defaultListing t settings)
    (.ok p.result, some p.matcher)
  | some m, some call =>
    match call.failure with
    | some reason => (.error (.index reason), some (startPass t settings m call.entries).matcher)
    | none =>
      let p := collectListing t settings m call.entries
      (.ok p.result, some p.matcher)

theorem collectNow_eq {settings : Settings} (h : settings.rulesFile.holdsBarred = false)
    (t : FileTree) (call : Option IndexCall) :
    collectNow t settings call =
      (passWith t settings (loadMatcher t settings.rulesFile).1 call).1 := by
  simp only [collectNow, h, Bool.false_eq_true, if_false]
  cases (loadMatcher t settings.rulesFile).1 with
  | none => cases call <;> rfl
  | some m =>
    cases call with
    | none => rfl
    | some call =>
      simp only [passWith]
      cases call.failure <;> rfl

/-- A pass by rules that were just loaded leaves them as they are. -/
theorem forget_passWith (t : FileTree) (settings : Settings) (call : Option IndexCall) :
    (passWith t settings (loadMatcher t settings.rulesFile).1 call).2.map Matcher.forget =
      (loadMatcher t settings.rulesFile).1 := by
  cases hm : (loadMatcher t settings.rulesFile).1 with
  | none => rfl
  | some m =>
    have hknown : m.known = [] := known_loadMatcher hm
    have hsound := Matcher.sound_of_known hknown
    have hrules : ∀ m' : Matcher, m'.rules = m.rules → some m'.forget = some m := by
      intro m' hm'
      rw [← Matcher.forget_eq_self hknown, Matcher.forget, Matcher.forget, hm']
    cases call with
    | none => exact hrules _ (collectListing_spec hsound _).1
    | some call =>
      rw [passWith]
      split
      · exact hrules _ (congrArg Pass.Terms.rules (startPass_joins hsound call.entries).terms)
      · exact hrules _ (collectListing_spec hsound _).1

namespace Session

/-! ## What the parts of a refresh do -/

/-- A session after the rule file is loaded. -/
def loaded (s : Session) (t : FileTree) : Session :=
  { s with
    stamp := stampOf t s.settings.rulesFile
    matcher := (loadMatcher t s.settings.rulesFile).1
    built := true }

/-- What the index does when it is called next. -/
def nextCall (s : Session) : Option IndexCall := s.index.map fun index => index s.calls

/-- Requests that meet a busy session change nothing. -/
theorem serve_drop (requests : List Request) (s : Session) :
    ∃ messages, serve drop requests s = (none, s, messages) := by
  induction requests with
  | nil => exact ⟨[], rfl⟩
  | cons r rest ih =>
    obtain ⟨messages, h⟩ := ih
    refine ⟨(drop r.force s).messages ++ r.reply none ++ messages, ?_⟩
    simp only [serve, drop, h]

/-- A pass of a session keeps its result, if it has one. -/
theorem runPass_drop (s : Session) (t : FileTree) :
    ∃ calls messages, runPass drop s t =
      ⟨(passWith t s.settings s.matcher s.nextCall).1.map some,
        { s with
          matcher := (passWith t s.settings s.matcher s.nextCall).2
          lastResult := (passWith t s.settings s.matcher s.nextCall).1.toOption.or s.lastResult
          calls := calls }, messages⟩ := by
  obtain ⟨settings, index, matcher, lastResult, built, stamp, busy, calls⟩ := s
  cases matcher with
  | none => exact ⟨calls, [], rfl⟩
  | some m =>
    cases index with
    | none => exact ⟨calls, settings.acceptedExtraRoots.2, rfl⟩
    | some index =>
      obtain ⟨messages, hserve⟩ := serve_drop (index calls).requests
        ⟨settings, some index, some m, lastResult, built, stamp, busy, calls + 1⟩
      rw [runPass, callIndex, nextCall]
      simp only [hserve, Option.map_some, passWith]
      cases (index calls).failure with
      | none => exact ⟨calls + 1, messages ++ settings.acceptedExtraRoots.2, rfl⟩
      | some reason => exact ⟨calls + 1, messages, rfl⟩

/-! ## What a session keeps -/

/-- What a session keeps belongs to a file tree that it has met: its stamp, and its matcher apart
from the answers kept there. Before anything is loaded it keeps nothing. -/
structure Loaded (trees : List FileTree) (s : Session) : Prop where
  unbuilt : s.built = false → s.matcher = none
  built : s.built = true → s.settings.rulesFile.holdsBarred = false ∧ ∃ t ∈ trees,
    s.stamp = stampOf t s.settings.rulesFile ∧
      s.matcher.map Matcher.forget = (loadMatcher t s.settings.rulesFile).1

theorem loaded_new (settings : Settings) (index : Option (Nat → IndexCall))
    (trees : List FileTree) : (new settings index).Loaded trees :=
  ⟨fun _ => rfl, fun h => absurd h Bool.false_ne_true⟩

theorem Loaded.mono {s : Session} {trees trees' : List FileTree} (h : s.Loaded trees)
    (hsub : trees ⊆ trees') : s.Loaded trees' := by
  refine ⟨h.unbuilt, fun hbuilt => ?_⟩
  obtain ⟨hbarred, t, ht, hkept⟩ := h.built hbuilt
  exact ⟨hbarred, t, hsub ht, hkept⟩

/-- A session that was just loaded belongs to the file tree it was loaded from. -/
theorem loaded_loaded (s : Session) {t : FileTree} {trees : List FileTree} (ht : t ∈ trees)
    (hbarred : s.settings.rulesFile.holdsBarred = false) : (s.loaded t).Loaded trees := by
  refine ⟨fun h => absurd h Bool.true_eq_false.mp, fun _ => ⟨hbarred, t, ht, rfl, ?_⟩⟩
  show (loadMatcher t s.settings.rulesFile).1.map Matcher.forget =
    (loadMatcher t s.settings.rulesFile).1
  cases hm : (loadMatcher t s.settings.rulesFile).1 with
  | none => rfl
  | some m => exact congrArg some (Matcher.forget_eq_self (known_loadMatcher hm))

/-- A session whose path of the rule file holds a barred character never loaded anything. -/
theorem Loaded.built_of_barred {s : Session} {trees : List FileTree} (h : s.Loaded trees)
    (hbarred : s.settings.rulesFile.holdsBarred = true) : s.built = false := by
  refine Bool.eq_false_iff.mpr fun hbuilt => ?_
  have hfalse := (h.built hbuilt).1
  rw [hbarred] at hfalse
  exact Bool.false_ne_true hfalse.symm

end Session

/-- Among some file trees, rule files with the same stamp hold the same. -/
def StampsTell (p : Path) (trees : List FileTree) : Prop :=
  ∀ t₁ ∈ trees, ∀ t₂ ∈ trees,
    stampOf t₁ p = stampOf t₂ p → loadOutcome t₁ p = loadOutcome t₂ p

theorem StampsTell.mono {p : Path} {trees trees' : List FileTree} (h : StampsTell p trees')
    (hsub : trees ⊆ trees') : StampsTell p trees :=
  fun t₁ h₁ t₂ h₂ => h t₁ (hsub h₁) t₂ (hsub h₂)

namespace Session

variable {s : Session} {t : FileTree} {trees : List FileTree}

/-- A path that holds a barred character is never loaded from. -/
theorem Loaded.prepare_of_barred (h : s.Loaded trees)
    (hbarred : s.settings.rulesFile.holdsBarred = true) (t : FileTree) (force : Bool) :
    s.prepare t force = .error .barredCharacter := by
  rw [prepare, rulesChanged, h.built_of_barred hbarred, rebuild, hbarred]
  simp

/-- Whether the rules are loaded or the old ones are kept, the session is then the same. -/
theorem Loaded.prepare (h : s.Loaded trees) (ht : t ∈ trees)
    (hstamps : StampsTell s.settings.rulesFile trees)
    (hbarred : s.settings.rulesFile.holdsBarred = false) (force : Bool) :
    ∃ messages, s.prepare t force = .ok (s.loaded t, messages) := by
  rw [Session.prepare]
  split
  · rw [rebuild, hbarred]
    exact ⟨(loadMatcher t s.settings.rulesFile).2, rfl⟩
  · next hkept =>
    obtain ⟨-, hbuilt, hstamp⟩ : force = false ∧ s.built = true ∧
        stampOf t s.settings.rulesFile = s.stamp := by
      simpa [rulesChanged] using hkept
    obtain ⟨-, t₀, ht₀, hstamp₀, hmatcher⟩ := h.built hbuilt
    -- the rule file has the stamp it had when it was loaded, so it holds what it held
    have hout := hstamps t₀ ht₀ t ht (hstamp₀.symm.trans hstamp.symm)
    rw [loadMatcher_fst, hout, ← loadMatcher_fst] at hmatcher
    refine ⟨[], ?_⟩
    rw [hmatcher, loaded, hstamp, ← hbuilt]

/-- A refresh that is not loaded for. -/
theorem Loaded.refresh_of_barred (h : s.Loaded trees) (hidle : s.busy = false)
    (hbarred : s.settings.rulesFile.holdsBarred = true) (t : FileTree) (force : Bool) :
    s.refresh t force = ⟨.error .barredCharacter, s, []⟩ := by
  have hbusy : ({ s with busy := true } : Session).Loaded trees := ⟨h.unbuilt, h.built⟩
  rw [refresh, refreshWith, hidle, hbusy.prepare_of_barred hbarred]
  rfl

/-- What a refresh does, said without the matcher and the stamp that the session keeps. -/
theorem Loaded.refresh (h : s.Loaded trees) (hidle : s.busy = false) (ht : t ∈ trees)
    (hstamps : StampsTell s.settings.rulesFile trees)
    (hbarred : s.settings.rulesFile.holdsBarred = false) (force : Bool) :
    ∃ calls messages, s.refresh t force =
      let pass := passWith t s.settings (loadMatcher t s.settings.rulesFile).1 s.nextCall
      ⟨pass.1.map some,
        { s.loaded t with
          matcher := pass.2
          lastResult := pass.1.toOption.or s.lastResult
          calls := calls }, messages⟩ := by
  have hbusy : ({ s with busy := true } : Session).Loaded trees := ⟨h.unbuilt, h.built⟩
  obtain ⟨loading, hprepare⟩ := hbusy.prepare ht hstamps hbarred force
  obtain ⟨calls, messages, hpass⟩ := runPass_drop (({ s with busy := true } : Session).loaded t) t
  refine ⟨calls, loading ++ messages, ?_⟩
  rw [Session.refresh, refreshWith, hidle, hprepare]
  simp only [Bool.false_eq_true, if_false, hpass]
  rw [← hidle]
  rfl

end Session

/-! ## Runs -/

namespace Session

/-- What can happen to a session and around it. -/
inductive Event where
  /-- The file tree becomes another one. -/
  | change (t : FileTree)
  /-- A refresh. -/
  | refresh (force : Bool)
  /-- The rule file is loaded. -/
  | rebuild
  /-- It is asked whether the rule file changed. -/
  | rulesChanged

end Session

/-- A session with what it went through. -/
structure History where
  /-- The file tree as it is now. -/
  tree : FileTree
  session : Session
  /-- The file trees so far, the present one among them. -/
  trees : List FileTree
  /-- The results of the refreshes that were completed, the latest first. -/
  results : List Collection

namespace History

/-- A new session on a file tree. -/
def start (settings : Settings) (index : Option (Nat → IndexCall)) (t : FileTree) : History :=
  ⟨t, .new settings index, [t], []⟩

/-- A history after one more event. A rule file that cannot be loaded leaves the session as it
is. -/
def step (h : History) : Session.Event → History
  | .change t => { h with tree := t, trees := t :: h.trees }
  | .refresh force =>
    let a := h.session.refresh h.tree force
    { h with session := a.session, results := a.answer.toOption.join.toList ++ h.results }
  | .rebuild =>
    match h.session.rebuild h.tree with
    | .ok (s, _) => { h with session := s }
    | .error _ => h
  | .rulesChanged => h

/-- A history after some more events. -/
def run (h : History) (events : List Session.Event) : History := events.foldl step h

/-- What holds of a session that is not being refreshed, in a run that began with a new one. -/
structure Sound (settings : Settings) (index : Option (Nat → IndexCall)) (h : History) : Prop where
  settings : h.session.settings = settings
  index : h.session.index = index
  idle : h.session.busy = false
  present : h.tree ∈ h.trees
  loaded : h.session.Loaded h.trees
  last : h.session.lastResult = h.results.head?

variable {settings : Settings} {index : Option (Nat → IndexCall)} {h : History}

theorem sound_start (settings : Settings) (index : Option (Nat → IndexCall)) (t : FileTree) :
    (start settings index t).Sound settings index where
  settings := rfl
  index := rfl
  idle := rfl
  present := List.mem_singleton_self t
  loaded := Session.loaded_new settings index [t]
  last := rfl

theorem trees_step (h : History) (e : Session.Event) : h.trees ⊆ (h.step e).trees := by
  cases e with
  | change t => exact List.subset_cons_self t h.trees
  | refresh force => exact List.Subset.refl h.trees
  | rebuild =>
    rw [step]
    split <;> exact List.Subset.refl h.trees
  | rulesChanged => exact List.Subset.refl h.trees

theorem trees_run : ∀ (events : List Session.Event) (h : History),
    h.trees ⊆ (h.run events).trees
  | [], h => List.Subset.refl h.trees
  | e :: events, h => List.Subset.trans (h.trees_step e) (trees_run events (h.step e))

/-- Every event leaves a sound history sound. -/
theorem Sound.step (hs : h.Sound settings index) (hstamps : StampsTell settings.rulesFile h.trees)
    (e : Session.Event) : (h.step e).Sound settings index := by
  obtain ⟨rfl, rfl, hidle, hpresent, hloaded, hlast⟩ := hs
  cases e with
  | change t =>
    exact ⟨rfl, rfl, hidle, List.mem_cons_self, hloaded.mono (List.subset_cons_self t h.trees),
      hlast⟩
  | refresh force =>
    rw [History.step]
    cases hbarred : h.session.settings.rulesFile.holdsBarred with
    | true =>
      rw [hloaded.refresh_of_barred hidle hbarred]
      exact ⟨rfl, rfl, hidle, hpresent, hloaded, hlast⟩
    | false =>
      obtain ⟨calls, messages, hrefresh⟩ :=
        hloaded.refresh hidle hpresent hstamps hbarred force
      rw [hrefresh]
      have hkept := forget_passWith h.tree h.session.settings h.session.nextCall
      refine ⟨rfl, rfl, hidle, hpresent, ⟨fun hbuilt => ?_, fun _ => ?_⟩, ?_⟩
      · exact absurd hbuilt Bool.true_eq_false.mp
      · exact ⟨hbarred, h.tree, hpresent, rfl, hkept⟩
      · -- a refresh that fails adds no result, and the session keeps its last one
        show (Except.toOption _).or h.session.lastResult =
          ((Except.map some _).toOption.join.toList ++ h.results).head?
        rw [List.head?_append, ← hlast]
        generalize (passWith _ _ _ _).1 = answer
        cases answer <;> rfl
  | rebuild =>
    rw [History.step, Session.rebuild]
    cases hbarred : h.session.settings.rulesFile.holdsBarred with
    | true => exact ⟨rfl, rfl, hidle, hpresent, hloaded, hlast⟩
    | false =>
      exact ⟨rfl, rfl, hidle, hpresent, h.session.loaded_loaded hpresent hbarred, hlast⟩
  | rulesChanged => exact ⟨rfl, rfl, hidle, hpresent, hloaded, hlast⟩

/-- A run leaves a sound history sound. -/
theorem Sound.run : ∀ {h : History} (events : List Session.Event), h.Sound settings index →
    StampsTell settings.rulesFile (h.run events).trees → (h.run events).Sound settings index
  | _, [], hs, _ => hs
  | h, e :: events, hs, hstamps => by
    -- stamps tell among all file trees of the run, so among those so far
    have hall : h.trees ⊆ ((h.step e).run events).trees :=
      List.Subset.trans (h.trees_step e) (trees_run events (h.step e))
    exact (hs.step (hstamps.mono hall) e).run events hstamps

end History

namespace Session

/-- **A long-lived session does not show.** After any run of changes of the file tree, refreshes,
reloads and questions, in which stamps tell what the rule file holds, a refresh answers like a
pass that loads the rules anew, its matcher keeps as many answers as that of a new session, and
the session's last result is that of the latest refresh that was completed. -/
theorem refresh_after_run_eq_new (settings : Settings) (index : Option (Nat → IndexCall))
    (t : FileTree) (events : List Event) (force : Bool)
    (hstamps : StampsTell settings.rulesFile ((History.start settings index t).run events).trees) :
    let h := (History.start settings index t).run events
    let a := h.session.refresh h.tree force
    let fresh := new settings (index.map fun index n => index (h.session.calls + n))
    a.answer = (collectNow h.tree settings (index.map (· h.session.calls))).map some ∧
      a.session.matcher.map Matcher.knownCount =
        (fresh.refresh h.tree force).session.matcher.map Matcher.knownCount ∧
      h.session.lastResult = h.results.head? := by
  have hs := (History.sound_start settings index t).run events hstamps
  revert hs
  generalize (History.start settings index t).run events = h at hstamps
  intro hs h' a fresh
  have hcall : h.session.nextCall = index.map (· h.session.calls) := by
    rw [nextCall, hs.index]
  have hfreshCall : fresh.nextCall = index.map (· h.session.calls) := by
    show (index.map fun index n => index (h.session.calls + n)).map (fun index => index 0) = _
    rw [Option.map_map]
    rfl
  have hfresh : fresh.Loaded h.trees := loaded_new _ _ _
  obtain ⟨rfl, -, hidle, hpresent, hloaded, hlast⟩ := hs
  cases hbarred : h.session.settings.rulesFile.holdsBarred with
  | true =>
    have hold : a = ⟨.error .barredCharacter, h.session, []⟩ :=
      hloaded.refresh_of_barred hidle hbarred h.tree force
    have hnew : fresh.refresh h.tree force = ⟨.error .barredCharacter, fresh, []⟩ :=
      hfresh.refresh_of_barred rfl hbarred h.tree force
    have hnone : h.session.matcher = none := hloaded.unbuilt (hloaded.built_of_barred hbarred)
    refine ⟨?_, ?_, hlast⟩
    · simp only [hold, collectNow, hbarred, if_true]
      rfl
    · rw [hold, hnew, hnone]
      rfl
  | false =>
    obtain ⟨_, _, hold⟩ := hloaded.refresh hidle hpresent hstamps hbarred force
    obtain ⟨_, _, hnew⟩ := hfresh.refresh rfl hpresent hstamps hbarred force
    refine ⟨?_, ?_, hlast⟩
    · show (h.session.refresh h.tree force).answer = _
      rw [hold, collectNow_eq hbarred, hcall]
    · show (h.session.refresh h.tree force).session.matcher.map _ = _
      rw [hold, hnew, hcall, hfreshCall]
      rfl

/-- A file tree that holds a rule file in its root directory and nothing else. -/
def onlyRules (content : String) (mtime : Int) : FileTree :=
  FileTree.empty.insert [] defaultRulesFile (.file content.toUTF8 mtime)

/-- A rule file that is removed and written again: the next refresh goes by what it holds then. -/
theorem refresh_after_rewriting :
    let settings := Settings.initial (.ofText ['/'])
    let index := some fun _ => IndexCall.mk [] ["Assets/b.txt".toList] none
    let events := [.refresh false, .change .empty, .refresh true, .rebuild,
      .change (onlyRules "b.txt" 2), .rulesChanged]
    let h := (History.start settings index (onlyRules "a.txt" 1)).run events
    StampsTell settings.rulesFile h.trees ∧
      (h.session.refresh h.tree false).answer =
        .ok (some ⟨["Assets/b.txt".toList], []⟩) := by
  intro settings index events h
  have hstamps : StampsTell settings.rulesFile h.trees := by
    show StampsTell settings.rulesFile [onlyRules "b.txt" 2, .empty, onlyRules "a.txt" 1]
    unfold StampsTell
    decide +kernel
  refine ⟨hstamps, ?_⟩
  rw [(refresh_after_run_eq_new settings index _ events false hstamps).1]
  show (collectNow (onlyRules "b.txt" 2) settings (index.map _)).map some = _
  decide +kernel

end Session

end IgnoredPaths
