import IgnoredPaths.Index
import IgnoredPaths.Matcher
import IgnoredPaths.TextSet

/-!
# A collection pass

A pass classifies the entries of a project one by one and keeps two sets, the ignored files
and the ignored directories. A directory is ignored if it or what would be directly in it is.
With an ignored file comes its sidecar, whatever the rules say about it; the sidecar of a
directory comes only if no negation takes it back.

- `Pass.isDirectoryIgnored`: the decision about a directory, kept for later questions.
- `Pass.addFile`, `Pass.addDirectory`, `Pass.addIndexEntry`: classify one entry.
- `Pass.addBelow`: classify everything below a directory.
- `Pass.supplement`: classify what an index leaves out.
- `Pass.ensureAncestors`, `Pass.addAncestorSidecars`, `Pass.complete`: add the ignored
  directories above what was collected, and the sidecars of all directories above it.
-/

namespace IgnoredPaths

/-- The name that stands for anything directly in a directory. -/
def probeName : Text := "__probe__".toList

/-- The state of a pass. -/
structure Pass where
  matcher : Matcher
  /-- The project root. -/
  root : Path
  /-- The ending of sidecar files. -/
  suffix : Text
  /-- The ignored files so far. -/
  files : TextSet
  /-- The ignored directories so far. -/
  dirs : TextSet
  /-- The decisions about directories so far. -/
  knownDirs : List (Text × Bool)

/-- What a pass collected: ignored files and ignored directories, both in ascending order. -/
structure Collection where
  files : List Text
  dirs : List Text
  deriving DecidableEq

namespace Collection

/-- The collection of nothing. -/
def empty : Collection := ⟨[], []⟩

/-- Whether nothing was collected. -/
def isEmpty (c : Collection) : Bool := c.files.isEmpty && c.dirs.isEmpty

/-- The collected paths, directories first and marked by a slash. -/
def previewLines (c : Collection) : List Text := c.dirs.map (· ++ ['/']) ++ c.files

end Collection

namespace Pass

/-- A pass in which nothing has been classified. -/
def new (matcher : Matcher) (root : Path) (suffix : Text) : Pass :=
  ⟨matcher, root, suffix, ∅, ∅, []⟩

/-- The path of the entry directly in a directory by which its contents are judged. -/
def probe (dir : Text) : Text := dir ++ '/' :: probeName

/-- Whether a path is ignored. -/
def isIgnored (p : Pass) (path : Text) : Bool × Pass :=
  let (answer, m) := p.matcher.isIgnored path
  (answer, { p with matcher := m })

/-- Whether a directory or what is directly in it is ignored; the answer is kept. -/
def isDirectoryIgnored (p : Pass) (dir : Text) : Bool × Pass :=
  let dir := ProjectPath.directoryForm dir
  if dir = [] then (false, p)
  else
    match p.knownDirs.lookup dir with
    | some answer => (answer, p)
    | none =>
      let (itself, p) := p.isIgnored dir
      let (answer, p) := if itself then (true, p) else p.isIgnored (probe dir)
      (answer, { p with knownDirs := (dir, answer) :: p.knownDirs })

/-- The path of the sidecar of an entry. -/
def sidecar (p : Pass) (path : Text) : Text := path ++ p.suffix

/-- Whether the sidecar of an entry is there. -/
def hasSidecar (p : Pass) (t : FileTree) (path : Text) : Bool :=
  t.isFile (p.root.resolve (p.sidecar path))

/-- Whether the sidecar of an entry is there and no negation takes it back. -/
def keepsSidecar (p : Pass) (t : FileTree) (path : Text) : Bool :=
  p.hasSidecar t path && p.matcher.verdict (p.sidecar path) ≠ .negated

/-- The pass with one more ignored file. -/
def withFile (p : Pass) (path : Text) : Pass := { p with files := p.files.insert path }

/-- The pass with one more ignored directory. -/
def withDir (p : Pass) (path : Text) : Pass := { p with dirs := p.dirs.insert path }

/-- Classifies a file; an ignored one brings its sidecar along. -/
def addFile (t : FileTree) (path : Text) (p : Pass) : Bool × Pass :=
  match p.isIgnored path with
  | (false, p) => (false, p)
  | (true, p) =>
    let p := p.withFile path
    (true, if p.hasSidecar t path then p.withFile (p.sidecar path) else p)

/-- Classifies a directory; an ignored one brings along a sidecar that is not taken back. -/
def addDirectory (t : FileTree) (path : Text) (p : Pass) : Bool × Pass :=
  match p.isDirectoryIgnored path with
  | (false, p) => (false, p)
  | (true, p) =>
    let p := p.withDir path
    (true, if p.keepsSidecar t path then p.withFile (p.sidecar path) else p)

/-- Whether a reported path is taken for a file: with an extension it is one unless there is a
directory, without one only if there is a file. -/
def isIndexFile (t : FileTree) (path : Text) (p : Pass) : Bool :=
  let full := p.root.resolve path
  if ProjectPath.hasExtension path then !t.isDirectory full else t.isFile full

/-- Adds the directory of a reported file if it is ignored. -/
def addParent (path : Text) (p : Pass) : Pass :=
  match Text.beforeLast? '/' path with
  | none => p
  | some [] => p
  | some parent =>
    match p.isDirectoryIgnored parent with
    | (true, p) => p.withDir parent
    | (false, p) => p

/-- Classifies a path that an index reports. -/
def addIndexEntry (t : FileTree) (path : Text) (p : Pass) : Pass :=
  let path := ProjectPath.directoryForm path
  if path = [] then p
  else if p.isIndexFile t path then addParent path (p.addFile t path).2
  else (p.addDirectory t path).2

/-- Classifies an entry found by a walk. -/
def addFound (t : FileTree) (p : Pass) (found : Path × Bool) : Pass :=
  let path := projectRelative p.root found.1
  if found.2 then (p.addDirectory t path).2 else (p.addFile t path).2

/-- Classifies everything below a directory. -/
def addBelow (t : FileTree) (dir : Path) (p : Pass) : Pass := (t.walk dir).foldl (addFound t) p

/-- Takes an entry found by a walk for one that the index left out, unless its name is not
special, or it was reported, or it lies below a directory already taken (`covered`). -/
def supplementOne (t : FileTree) (known : List Text) (state : List Text × Pass)
    (found : Path × Bool) : List Text × Pass :=
  let (covered, p) := state
  let path := projectRelative p.root found.1
  if !ProjectPath.isSpecialName found.1.name || known.contains path
      || covered.any fun c => Text.startsWith path (c ++ ['/']) then state
  else if found.2 then (covered ++ [path], addBelow t found.1 (p.addDirectory t path).2)
  else (covered, if Text.endsWith path p.suffix then p else (p.addFile t path).2)

/-- Classifies what an index leaves out below the primary root: entries with special names that
it did not report, sidecar files apart, and everything below such directories. -/
def supplement (t : FileTree) (primary : Path) (known : List Text) (p : Pass) : Pass :=
  if t.isDirectory primary then ((t.walk primary).foldl (supplementOne t known) ([], p)).2 else p

/-! ## Completion -/

/-- Everything collected so far. -/
def collected (p : Pass) : TextSet := p.files ∪ p.dirs

/-- The directories above collected paths, with repetitions. -/
def allAncestors (p : Pass) : List Text := p.collected.toList.flatMap ProjectPath.ancestors

/-- Those of some directories that are ignored. -/
def ignoredDirs : List Text → Pass → List Text × Pass
  | [], p => ([], p)
  | dir :: rest, p =>
    match p.isDirectoryIgnored dir with
    | (true, p) =>
      let (more, p) := ignoredDirs rest p
      (dir :: more, p)
    | (false, p) => ignoredDirs rest p

/-- Adds every ignored directory above a collected path. -/
def ensureAncestors (p : Pass) : Pass :=
  let (more, p) := ignoredDirs p.allAncestors p
  { p with dirs := p.dirs ∪ .ofList more }

/-- Adds the sidecars of all directories above collected paths, unless a negation takes them
back. -/
def addAncestorSidecars (t : FileTree) (p : Pass) : Pass :=
  let more := (p.allAncestors.filter (p.keepsSidecar t)).map p.sidecar
  { p with files := p.files ∪ .ofList more }

/-- Adds the ignored directories above collected paths, and then the sidecars of all
directories above them. -/
def complete (t : FileTree) (p : Pass) : Pass := addAncestorSidecars t (ensureAncestors p)

/-- What the pass collected. -/
def result (p : Pass) : Collection := ⟨p.files.toList, p.dirs.toList⟩

end Pass

end IgnoredPaths
