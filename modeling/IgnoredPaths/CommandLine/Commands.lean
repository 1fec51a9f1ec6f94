import IgnoredPaths.CommandLine.Arguments
import IgnoredPaths.Config.Source
import IgnoredPaths.Export
import IgnoredPaths.Session

/-!
# Commands

What a command does to a file tree and reports. It ends with an exit code, or in a way that it
does not account for (`Breakdown`). What is reported may be more than a terminal takes: the command
then breaks down at the first line that cannot be written, with all that it has done before.

- `preview`, `check`, `exportCommand`, `watchCommand`: the commands.
- `runCommand`: the command that a command line names, as it runs if all is written.
- `Terminal.perform`: the same on a terminal.
-/

namespace IgnoredPaths

/-- The name that the program goes by. -/
def programName : Text := "ignored-export".toList

/-- The version of the program. -/
def programVersion : Text := "0.1.0".toList

/-- How a command can end without an exit code. -/
inductive Breakdown where
  /-- There are no settings. -/
  | setup (e : SetupError)
  /-- The export does not know where to go. -/
  | export (e : ExportError)
  /-- A refresh was given up. -/
  | refresh (e : RefreshError)
  /-- The host does not sleep for so long. -/
  | pause
  /-- The payload stream has no code for what was to be written. -/
  | printing

/-- What a command does and says. -/
structure CommandRun where
  /-- The exit code, unless it broke down. -/
  outcome : Except Breakdown Nat
  tree : FileTree
  messages : List Message
  /-- How often it slept. -/
  sleeps : Nat
  /-- The tree, and how often it has slept, when the `n`-th message is said. -/
  meanwhile : Nat → FileTree × Nat

namespace CommandRun

/-- A command that failed with a message. -/
def failed (t : FileTree) (messages : List Message) (error : Text) : CommandRun :=
  ⟨.ok 1, t, messages ++ [.error error], 0, fun _ => (t, 0)⟩

/-- A command that broke down. -/
def broken (t : FileTree) (messages : List Message) (b : Breakdown) : CommandRun :=
  ⟨.error b, t, messages, 0, fun _ => (t, 0)⟩

/-- A command that succeeded. -/
def succeeded (t : FileTree) (messages : List Message) : CommandRun :=
  ⟨.ok 0, t, messages, 0, fun _ => (t, 0)⟩

end CommandRun

/-- A text that says something. -/
def given? (s : Option Text) : Option Text := s.filter (· ≠ [])

/-! ## Settings -/

/-- What keeps a command from having settings: something to be said, or a breakdown. -/
inductive SettingsFailure where
  | said (error : Text)
  | broken (b : Breakdown)

/-- The failure that an error about settings is: a wrong configuration is said, all else breaks
the command down. -/
def SettingsFailure.ofSetup : SetupError → SettingsFailure
  | .config e => .said e.message
  | e => .broken (.setup e)

/-- The directory in which the search for a configuration starts. -/
def startDirectory (t : FileTree) (cwd : Path) (a : Arguments) : Except SettingsFailure Path :=
  match given? a.projectRoot with
  | none => .ok cwd
  | some s =>
    match t.isDirectory? (cwd.resolve s) with
    | .error f => .error (.broken (.setup (.unclear f)))
    | .ok false => .error (.said ("Project root not found: ".toList ++ (Path.ofText s).toText))
    | .ok true => .ok (cwd.resolve s)

/-- The settings with the rule file that the command line names, if it names one. -/
def withRules (t : FileTree) (cwd : Path) (a : Arguments) (s : Settings) :
    Except SettingsFailure Settings :=
  match given? a.rules with
  | none => .ok s
  | some file =>
    match t.canonical (cwd.resolve file) with
    | .error e => .error (.broken (.setup (.unresolvable e)))
    | .ok p => .ok { s with rulesFile := p }

/-- The settings of a command. -/
def commandSettings (host : Host) (t : FileTree) (cwd : Path) (a : Arguments) :
    Except SettingsFailure Settings := do
  let start ← startDirectory t cwd a
  let s ← (resolveSettings host t start).mapError SettingsFailure.ofSetup
  let s ← withRules t cwd a s
  return { s with extraRoots := s.extraRoots ++ a.extraRoots }

/-- Runs a command that needs settings. -/
def withSettings (host : Host) (t : FileTree) (cwd : Path) (a : Arguments)
    (run : Settings → CommandRun) : CommandRun :=
  match commandSettings host t cwd a with
  | .error (.said error) => .failed t [] error
  | .error (.broken b) => .broken t [] b
  | .ok s => run s

/-! ## The commands -/

/-- What is said about a missing rule file. -/
def noRuleFile (s : Settings) : Text := "Rule file not found: ".toList ++ s.rulesFile.toText

/-- A count in a message. -/
def counted (n : Nat) (what : String) : Text := Text.ofNat n ++ what.toList

/-- The messages that show a collection. -/
def previewMessages (c : Collection) : List Message :=
  .header ("Ignored paths: ".toList ++ counted c.dirs.length " directories, "
      ++ counted c.files.length " files")
    :: if c.isEmpty then [.info [.text "(No ignored paths)".toList]]
       else c.previewLines.map .entry

/-- Collects once and goes on with the result, if there is a rule file. -/
def withCollection (t : FileTree) (s : Settings)
    (run : Collection → List Message → CommandRun) : CommandRun :=
  let a := (Session.new s none).refresh t true
  match a.answer, a.session.matcher with
  | .error e, _ => .broken t a.messages (.refresh e)
  | .ok _, none => .failed t a.messages (noRuleFile s)
  | .ok c, some _ => run (c.getD .empty) a.messages

/-- Lists what is ignored. -/
def preview (t : FileTree) (s : Settings) : CommandRun :=
  withCollection t s fun c messages => .succeeded t (messages ++ previewMessages c)

/-- The line about a path that is a directory's because of its slash. -/
def directoryLine (path : Text) (ignored : Bool) : Message :=
  .line [.path path, .text ('\t' :: (if ignored then "ignored" else "not ignored").toList
    ++ " (directory)".toList)]

/-- The line about any other path and the rule that decides it. -/
def pathLine (path : Text) (rule : Option Rule) : Message :=
  match rule with
  | none => .line [.path path, .text "\tnot matched".toList]
  | some r =>
    .line [.path path, .text ('\t' :: (if r.negation then "negated" else "ignored").toList
      ++ '\t' :: r.source ++ " (line ".toList ++ Text.ofInt (r.order + 1) ++ [')'])]

/-- The lines about some paths. -/
def checkLines : List Text → Pass → List Message
  | [], _ => []
  | path :: rest, p =>
    if Text.endsWith path ['/'] then
      let (ignored, p) := p.isDirectoryIgnored path
      directoryLine path ignored :: checkLines rest p
    else pathLine path (p.matcher.deciding? path) :: checkLines rest p

/-- Says which rule decides each path. -/
def check (t : FileTree) (s : Settings) (paths : List Text) : CommandRun :=
  match loadMatcher t s.rulesFile with
  | (none, messages) => .failed t messages (noRuleFile s)
  | (some m, messages) =>
    .succeeded t (messages ++ checkLines paths (Pass.new m s.projectRoot s.sidecarSuffix))

/-- The messages about an export that was done, or would be. -/
def exportMessages (dryRun : Bool) (summary : ExportSummary) : List Message :=
  if dryRun then
    [.info [.dryRun, .text (' ' :: counted summary.dirsCreated " directories, "
      ++ counted summary.filesCopied " files")]]
  else
    [.success ("Exported to ".toList ++ summary.destination.toText),
     .info [.text ("Created directories: ".toList ++ Text.ofNat summary.dirsCreated)],
     .info [.text ("Copied files: ".toList ++ Text.ofNat summary.filesCopied)]]

/-- The tree when an export says its `n`-th message, if `before` messages were said before it began.
It says one about each file, when it is done with it. -/
def exportTreeAt (t : FileTree) (c : Collection) (root parent : Path) (name : Text) (dryRun : Bool)
    (before n : Nat) : FileTree :=
  if n < before then t
  else
    let part := { c with files := c.files.take (n + 1 - before) }
    (exportCollection t part root parent name dryRun).tree

/-- Exports a collection and says how it went. -/
def exportTo (t : FileTree) (s : Settings) (parent : Path) (name : Text) (dryRun : Bool)
    (c : Collection) (messages : List Message) : CommandRun :=
  let run := exportCollection t c s.projectRoot parent name dryRun
  let said := messages ++ run.messages
  let ended : CommandRun :=
    match run.answer with
    | .ok summary => .succeeded run.tree (said ++ exportMessages dryRun summary)
    | .error (.unclear f) => .broken run.tree said (.export (.unclear f))
    | .error e => .failed run.tree said e.message
  { ended with
    meanwhile := fun n =>
      (exportTreeAt t c s.projectRoot parent name dryRun messages.length n, 0) }

/-- Collects and exports what is ignored. -/
def exportCommand (t : FileTree) (cwd : Path) (a : Arguments) (s : Settings) : CommandRun :=
  let name := (given? a.folderName).getD s.outputName
  match given? a.outputParent with
  | none => withCollection t s (exportTo t s s.exportParent name a.dryRun)
  | some dir =>
    match t.canonical (cwd.resolve dir) with
    | .error e => .broken t [] (.setup (.unresolvable e))
    | .ok parent => withCollection t s (exportTo t s parent name a.dryRun)

/-- What is said when a watch begins, or how it fails to begin. -/
def watchNotice (t : FileTree) (a : Arguments) (s : Settings) :
    Except SettingsFailure (List Message) :=
  if a.interval ≤ 0.0 then .error (.said "Interval must be positive".toList)
  else
    match t.isFile? s.rulesFile with
    | .error f => .error (.broken (.setup (.unclear f)))
    | .ok true => .ok []
    | .ok false => .ok [.warning ("Rule file not found yet: ".toList ++ s.rulesFile.toText)]

/-- The refreshes and reports of a watch that sees some views of the file tree. -/
def watchViews (views : List FileTree) (a : Arguments) (s : Settings) : Watch :=
  watch previewMessages none views (Session.new s none) a.interval

/-- How many views a watch is done with when it says its `n`-th message. -/
def viewsBefore (views : List FileTree) (a : Arguments) (s : Settings) (n : Nat) : Nat :=
  (List.range views.length).countP fun k =>
    (watchViews (views.take (k + 1)) a s).messages.length ≤ n

/-- Shows what is ignored whenever it changes, until it is interrupted in the sleep after the
last of some views of the file tree. If the host does not sleep for so long, there is only one. -/
def watchCommand (host : Host) (t : FileTree) (later : List FileTree) (a : Arguments)
    (s : Settings) : CommandRun :=
  match watchNotice t a s with
  | .error (.said error) => .failed t [] error
  | .error (.broken b) => .broken t [] b
  | .ok notice =>
    let later := if host.sleeps a.interval then later else []
    let w := watchViews (t :: later) a s
    let final := (t :: later).getLast (List.cons_ne_nil _ _)
    let meanwhile := fun n =>
      let seen := viewsBefore (t :: later) a s (n - notice.length)
      if n < notice.length then (t, 0) else ((t :: later).getD seen final, seen)
    match w.failure with
    | some e => ⟨.error (.refresh e), t, notice ++ w.messages, w.sleeps, meanwhile⟩
    | none =>
      if host.sleeps a.interval then
        ⟨.ok 0, final, notice ++ w.messages ++ [.line []], w.sleeps + 1, meanwhile⟩
      else ⟨.error .pause, t, notice ++ w.messages, 0, meanwhile⟩

/-- Runs the command that a command line names. A watch sees the file tree and then its later
views, one after each sleep. -/
def runCommand (host : Host) (t : FileTree) (later : List FileTree) (cwd : Path) (a : Arguments) :
    CommandRun :=
  match a.command with
  | none => .succeeded t []
  | some .preview => withSettings host t cwd a (preview t)
  | some .check => withSettings host t cwd a fun s => check t s a.paths
  | some .export => withSettings host t cwd a (exportCommand t cwd a)
  | some .watch => withSettings host t cwd a (watchCommand host t later a)

/-- A run on a terminal. It breaks down at the first message that is refused, and is then left as it
is at that moment. -/
def Terminal.perform (terminal : Terminal) (run : CommandRun) : CommandRun :=
  match run.messages.findIdx? terminal.refuses with
  | none => run
  | some n =>
    { run with
      outcome := .error .printing
      tree := (run.meanwhile n).1
      messages := run.messages.take n
      sleeps := (run.meanwhile n).2 }

/-- The terminal that a command line asks for. -/
def Arguments.terminal (a : Arguments) (isTerminal : Bool) (setting : Option Text)
    (charset : Charset) : Terminal :=
  ⟨Style.choose a.noColor a.quiet isTerminal setting, charset⟩

end IgnoredPaths
