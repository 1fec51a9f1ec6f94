import IgnoredPaths.ProgramHost

/-!
# The program

The program takes a view of what a command line concerns on the disk, runs the command on that
view, writes what it says and puts on the disk what an export has made or overwritten. A watch takes
a new view after every sleep, until the process is interrupted.

A view holds the directories on the way to a path, the entries of those directories that a
command walks through, and the content of the files that it reads. The time of a copy on the
disk is that of the copying, since the standard library has nothing to set it with.
-/

namespace IgnoredPaths

namespace Program

/-! ## Views of the disk -/

/-- What of the files is viewed. -/
inductive Detail where
  /-- That they are there. -/
  | presence
  /-- Their content, too. -/
  | content
  deriving DecidableEq

/-- The text of a path as the system takes it. -/
def systemText (p : Path) : String := String.ofList p.toText

/-- A time of the disk in nanoseconds. -/
def nanoseconds (m : IO.FS.Metadata) : Int :=
  m.modified.sec * 1000000000 + (m.modified.nsec.toNat : Int)

/-- The result of an action, unless it fails. -/
def attempt {α : Type} (x : IO α) : IO (Option α) := do
  try return some (← x)
  catch _ => return none

mutual

/-- Adds an entry of a directory that is in the view; a link with all that it leads to. -/
partial def addEntry (detail : Detail) (t : FileTree) (directory : Path) (name : Text) :
    IO FileTree := do
  let p := directory.extend [name]
  let place := (← IO.FS.realPath (systemText directory)) / String.ofList name
  match ← attempt place.symlinkMetadata with
  | none => return t
  | some m =>
    match m.type with
    | .dir => return (t.makeDirectories p true).1
    | .symlink =>
      match ← attempt (IO.FS.realPath place) with
      | none => return (t.makeLink p p.toText).1
      | some target =>
        let target := target.toString.toList
        addPath detail (t.makeLink p target).1 (.ofText target)
    | _ =>
      if detail = .presence && t.isFile p then return t
      let content ← if detail = .content then IO.FS.readBinFile place else pure .empty
      return (t.writeFile p content (nanoseconds m)).1

/-- Adds what an absolute path leads to, and all that is on the way. -/
partial def addPath (detail : Detail) (t : FileTree) (p : Path) : IO FileTree := do
  if p.segments.isEmpty then return t
  let t ← addPath .presence t p.parent
  if !t.isDirectory p.parent || p.name = upSegment then return t
  addEntry detail t p.parent p.name

end

/-- Adds the entries of a directory; `deep` adds those of the directories below it, too. -/
partial def addEntries (detail : Detail) (deep : Bool) (t : FileTree) (p : Path) :
    IO FileTree := do
  let t ← addPath .presence t p
  match t.stat p with
  | .ok (l, .directory) =>
    match ← attempt (do (← IO.FS.realPath (systemText p)).readDir) with
    | none => return { t with locked := l :: t.locked }
    | some found =>
      found.foldlM (fun t e => do
        let name := e.fileName.toList
        let t ← addEntry detail t p name
        if deep && (t.get? (name :: l)).any Entry.isDirectory then
          addEntries detail deep t (p.extend [name])
        else return t) t
  | _ => return t

/-- What settings depend on: the directory where the search starts, and the configuration files
in it and above it. -/
def viewOfSettings (cwd : Path) (a : Arguments) : IO FileTree := do
  let start := cwd.resolve (a.projectRoot.getD [])
  let t ← addPath .presence .empty start
  let t ← (given? a.rules).elim (pure t) fun file => addPath .content t (cwd.resolve file)
  match t.canonical start with
  | .error _ => return t
  | .ok real =>
    let above := (List.range (real.segments.length + 1)).map fun n => n.repeat Path.parent real
    above.foldlM (fun t dir => addPath .content t (dir.resolve configFileName)) t

/-- What a command depends on under its settings. -/
def viewOfProject (cwd : Path) (a : Arguments) (s : Settings) : IO FileTree := do
  let detail := if a.command = some .export && !a.dryRun then Detail.content else .presence
  let parent := (given? a.outputParent).elim s.exportParent cwd.resolve
  let t ← viewOfSettings cwd a
  let t ← addPath .content t s.rulesFile
  let t ← addEntries .presence false t s.projectRoot
  let t ← addEntries .presence false t parent
  let roots := s.primaryRootPath :: s.acceptedExtraRoots.1.map s.projectRoot.resolve
  roots.foldlM (addEntries detail true) t

/-! ## Effects -/

/-- Writes messages in order, each on its stream. -/
def say (terminal : Terminal) (messages : List Message) : IO Unit := do
  let output ← IO.getStdout
  let errors ← IO.getStderr
  for m in messages do
    let t := transcript terminal.style [m]
    output.putStr (String.ofList t.payload)
    errors.putStr (String.ofList t.diagnostics)
  output.flush

/-- Puts on the disk what is in a tree and was not, or not so, in an older one. -/
def bringToDisk (old new : FileTree) : IO Unit := do
  let changed := new.entries.filter fun p => old.get? p.1 ≠ some p.2
  let ordered := changed.mergeSort fun p q => p.1.length ≤ q.1.length
  for (l, e) in ordered do
    let place := systemText l.toPath
    match e with
    | .directory => IO.FS.createDirAll place
    | .file content _ => IO.FS.writeBinFile place content
    | .link _ => pure ()

/-- What is said about a command that broke down. -/
def explain : Breakdown → Text
  | .setup (.reading (.fault f)) | .setup (.unclear f) | .export (.unclear f) => f.message
  | .setup (.reading .encoding) => "The configuration is not UTF-8 text".toList
  | .setup (.config e) => e.message
  | .setup (.loading name) => "The configuration cannot be loaded: ".toList ++ name
  | .setup (.unwritable _) => "The configuration has a version that cannot be written".toList
  | .setup (.unresolvable (.circle p)) => "Symbolic links form a circle at ".toList ++ p.toText
  | .setup (.unresolvable .barredCharacter) | .refresh .barredCharacter =>
    "A path holds a character that no name can hold".toList
  | .export e => e.message
  | .refresh (.index reason) => reason
  | .pause => "The interval is too long to sleep".toList
  | .printing => "A line holds a character that cannot be written".toList

/-- Ends a command that did not go well. -/
def fail (terminal : Terminal) (reason : Text) : IO UInt32 := do
  say terminal [.error reason]
  return 1

/-- How the commands are called. -/
def usage : String :=
  "usage: ignored-export [-h] [--version] [--no-color] [--quiet] [--project-root DIR]\n"
    ++ "                      [--rules FILE] [--extra-root NAME]\n"
    ++ "                      (preview | check PATH... | export [--output-parent DIR]\n"
    ++ "                      [--name NAME] [--dry-run] | watch [--interval SECONDS])\n"

/-! ## Commands -/

/-- Refreshes, reports a change and sleeps, over and over. -/
partial def watchOn (terminal : Terminal) (cwd : Path) (a : Arguments) (s : Settings)
    (previous : Option Collection) (session : Session) : IO UInt32 := do
  let t ← viewOfProject cwd a s
  let w := watch previewMessages previous [t] session a.interval
  say terminal (w.messages.takeWhile fun m => !terminal.refuses m)
  if w.messages.any terminal.refuses then fail terminal (explain .printing)
  else
    match w.failure with
    | some e => fail terminal (explain (.refresh e))
    | none =>
      if !Program.host.sleeps a.interval then fail terminal (explain .pause)
      else
        IO.sleep (a.interval * 1000.0).ceil.toUInt32
        watchOn terminal cwd a s (w.changes.getLast?.or previous) w.session

/-- Runs the command of a command line in a directory. -/
def perform (terminal : Terminal) (cwd : Path) (a : Arguments) : IO UInt32 := do
  match commandSettings Program.host (← viewOfSettings cwd a) cwd a with
  | .error (.said reason) => fail terminal reason
  | .error (.broken b) => fail terminal (explain b)
  | .ok s =>
    let t ← viewOfProject cwd a s
    if a.command = some .watch then
      match watchNotice t a s with
      | .error (.said reason) => fail terminal reason
      | .error (.broken b) => fail terminal (explain b)
      | .ok notice =>
        say terminal notice
        watchOn terminal cwd a s none (Session.new s none)
    else
      let run := terminal.perform (runCommand Program.host t [] cwd a)
      bringToDisk t run.tree
      say terminal run.messages
      match run.outcome with
      | .ok code => return code.toUInt32
      | .error b => fail terminal (explain b)

/-- Runs the program. -/
def run (line : List String) : IO UInt32 := do
  match Arguments.parse (line.map String.toList) with
  | .error .help =>
    IO.print usage
    return 0
  | .error .misuse =>
    IO.eprint usage
    return 2
  | .error .version =>
    IO.println (String.ofList (programName ++ ' ' :: programVersion))
    return 0
  | .ok a =>
    let terminal ← (← IO.getStdout).isTty
    let setting := (← IO.getEnv "NO_COLOR").map String.toList
    let cwd ← IO.currentDir
    perform (a.terminal terminal setting Program.charset) (.ofText cwd.toString.toList) a

end Program

end IgnoredPaths

/-- Runs the command of the command line; the exit code tells how it ended. -/
def main (line : List String) : IO UInt32 := IgnoredPaths.Program.run line
