import IgnoredPaths.Collect
import IgnoredPaths.RuleFile

/-!
# Sessions

A session keeps the rules of a project between refreshes. A refresh reads the rule file again
if it is forced to or if the file's stamp has changed, and then runs a pass. While it runs, an
index may ask the session for further refreshes; these are dropped.

- `Session.refresh`: one refresh.
- `Session.rulesChanged`, `Session.rebuild`: its two parts that can also be asked for.
- `watch`: refreshes one after another, reporting each result that differs from the last.

`refreshWith` says what a refresh does for any way to serve the requests that the index makes
meanwhile; in a refresh they meet a busy session, so `Session.drop` serves them.
-/

namespace IgnoredPaths

/-- What tells one state of a rule file from another. A directory in its place is told by the
names in it. -/
inductive Stamp where
  | file (mtime : Int) (size : Nat)
  | directory (names : List Text)
  deriving DecidableEq

/-- The stamp of what a path leads to. -/
def stampOf (t : FileTree) (p : Path) : Option Stamp :=
  match t.stat p with
  | .ok (_, .file content mtime) => some (.file mtime content.size)
  | .ok (l, _) => some (.directory ((t.children l).map (·.1)))
  | .error _ => none

/-- Why a refresh was given up. -/
inductive RefreshError where
  /-- The index failed, for a reason. -/
  | index (reason : Text)
  /-- The path of the rule file holds a barred character. -/
  | barredCharacter
  deriving DecidableEq

/-- A refresh that an index asks for while it is being called, and what it then reports. -/
structure Request where
  force : Bool
  reply : Option Collection → List Message

/-- What an index does when it is called. -/
structure IndexCall where
  /-- The refreshes that it asks for. -/
  requests : List Request
  /-- The entries that it then lists. -/
  entries : List Text
  /-- What it fails with after these entries, if it fails. -/
  failure : Option Text

/-- The rules of a project and what the last refresh found. -/
structure Session where
  settings : Settings
  /-- What the index does at its `n`-th call; without it the default index is used. -/
  index : Option (Nat → IndexCall)
  matcher : Option Matcher
  lastResult : Option Collection
  /-- Whether the rule file was ever loaded. -/
  built : Bool
  /-- The stamp of the rule file when it was last loaded. -/
  stamp : Option Stamp
  /-- Whether a refresh is running. -/
  busy : Bool
  /-- How often the index was called. -/
  calls : Nat

/-- The answer to a request for a refresh, the session after it and what was reported. A refresh
that was dropped answers `none`, and one that was given up answers why. -/
structure Attempt where
  answer : Except RefreshError (Option Collection)
  session : Session
  messages : List Message

namespace Session

/-- A session in which nothing has happened. -/
def new (settings : Settings) (index : Option (Nat → IndexCall)) : Session where
  settings := settings
  index := index
  matcher := none
  lastResult := none
  built := false
  stamp := none
  busy := false
  calls := 0

/-- Whether the rule file changed since it was loaded. -/
def rulesChanged (s : Session) (t : FileTree) : Bool :=
  !s.built || stampOf t s.settings.rulesFile ≠ s.stamp

/-- Loads the rule file. A path with a barred character is refused before anything is loaded. -/
def rebuild (s : Session) (t : FileTree) : Except RefreshError (Session × List Message) :=
  if s.settings.rulesFile.holdsBarred then .error .barredCharacter
  else
    let (m, messages) := loadMatcher t s.settings.rulesFile
    .ok ({ s with stamp := stampOf t s.settings.rulesFile, matcher := m, built := true }, messages)

/-- Loads the rule file if it has to be, and otherwise forgets the answers of the matcher. -/
def prepare (s : Session) (t : FileTree) (force : Bool) :
    Except RefreshError (Session × List Message) :=
  if force || s.rulesChanged t then s.rebuild t
  else .ok ({ s with matcher := s.matcher.map Matcher.forget }, [])

/-- Drops a request, as a busy session does. -/
def drop (_force : Bool) (s : Session) : Attempt :=
  ⟨.ok none, s, [.info [.text "Refresh already in progress - skipping".toList]]⟩

/-- Serves the requests that an index makes in one call. -/
def serve (nested : Bool → Session → Attempt) :
    List Request → Session → Option RefreshError × Session × List Message
  | [], s => (none, s, [])
  | r :: rest, s =>
    let a := nested r.force s
    match a.answer with
    | .error e => (some e, a.session, a.messages)
    | .ok answer =>
      let (failure, s, messages) := serve nested rest a.session
      (failure, s, a.messages ++ r.reply answer ++ messages)

/-- Asks the index for its entries, and for what cuts them short. -/
def callIndex (nested : Bool → Session → Attempt) (s : Session) (t : FileTree) :
    (List Text × Option RefreshError) × Session × List Message :=
  match s.index with
  | none => ((defaultListing t s.settings, none), s, [])
  | some index =>
    let call := index s.calls
    match serve nested call.requests { s with calls := s.calls + 1 } with
    | (some e, s, messages) => (([], some e), s, messages)
    | (none, s, messages) => ((call.entries, call.failure.map .index), s, messages)

/-- Runs a pass of a busy session and keeps its result. When the index fails, the pass is given
up, but the matcher has already answered for the entries listed before. -/
def runPass (nested : Bool → Session → Attempt) (s : Session) (t : FileTree) : Attempt :=
  match s.matcher with
  | none => ⟨.ok (some .empty), { s with lastResult := some .empty }, []⟩
  | some m =>
    match callIndex nested s t with
    | ((entries, some e), s, messages) =>
      ⟨.error e, { s with matcher := some (startPass t s.settings m entries).matcher }, messages⟩
    | ((entries, none), s, messages) =>
      let p := collectListing t s.settings m entries
      ⟨.ok (some p.result), { s with matcher := some p.matcher, lastResult := some p.result },
        messages ++ s.settings.acceptedExtraRoots.2⟩

/-- A refresh whose index has its requests served by `nested`. -/
def refreshWith (nested : Bool → Session → Attempt) (t : FileTree) (force : Bool) (s : Session) :
    Attempt :=
  if s.busy then drop force s
  else
    match { s with busy := true }.prepare t force with
    | .error e => ⟨.error e, s, []⟩
    | .ok (s, loading) =>
      let a := runPass nested s t
      ⟨a.answer, { a.session with busy := false }, loading ++ a.messages⟩

/-- A refresh. -/
def refresh (t : FileTree) (force : Bool) (s : Session) : Attempt := refreshWith drop t force s

end Session

/-! ## Watching -/

/-- How many seconds a watch sleeps between two refreshes if nothing else is asked for. -/
def defaultRefreshInterval : Float := 0.5

/-- What a watch does. -/
inductive WatchEvent where
  /-- It refreshes its session, with this answer. -/
  | refreshed (answer : Except RefreshError (Option Collection))
  /-- It reports a result. -/
  | reported (c : Collection)
  /-- It sleeps, for some seconds. -/
  | slept (seconds : Float)

namespace WatchEvent

/-- The result that is reported. -/
def change? : WatchEvent → Option Collection
  | .reported c => some c
  | _ => none

/-- Whether an event is a sleep. -/
def isSleep : WatchEvent → Bool
  | .slept _ => true
  | _ => false

end WatchEvent

/-- What a watch did, one thing after another, the failure that ended it, the session after it and
everything that was reported. -/
structure Watch where
  events : List WatchEvent
  failure : Option RefreshError
  session : Session
  messages : List Message

namespace Watch

/-- The results that a watch reported. -/
def changes (w : Watch) : List Collection := w.events.filterMap WatchEvent.change?

/-- How often a watch slept. -/
def sleeps (w : Watch) : Nat := w.events.countP WatchEvent.isSleep

end Watch

/-- Refreshes once for each view of the file tree, with a sleep between two of them, and
reports each result that differs from the one before. -/
def watchEvery (interval : Float) (report : Collection → List Message) :
    Option Collection → List FileTree → Session → Watch
  | _, [], s => ⟨[], none, s, []⟩
  | previous, t :: later, s =>
    let a := s.refresh t false
    match a.answer with
    | .error e => ⟨[.refreshed a.answer], some e, a.session, a.messages⟩
    | .ok answer =>
      let changed := answer.filter fun c => some c ≠ previous
      let w := watchEvery interval report (changed.or previous) later a.session
      let pause := if later = [] then [] else [.slept interval]
      ⟨.refreshed a.answer :: changed.toList.map .reported ++ pause ++ w.events, w.failure,
        w.session, a.messages ++ (changed.toList.flatMap report) ++ w.messages⟩

/-- Watches at an interval, which is the usual one if none is given. -/
def watch (report : Collection → List Message) (previous : Option Collection)
    (views : List FileTree) (s : Session) (interval : Float := defaultRefreshInterval) : Watch :=
  watchEvery interval report previous views s

end IgnoredPaths
