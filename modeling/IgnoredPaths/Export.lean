import IgnoredPaths.FileTree.Write
import IgnoredPaths.Pass
import IgnoredPaths.Roots

/-!
# Exporting a collection

An export makes a new folder and repeats in it the ignored directories and the ignored files
of a project. Directories come first, so that empty ones are kept. A file that has gone since
it was collected is left out.

- `freeFolder`: a path where nothing is, as near as possible to a wanted one.
- `exportCollection`: the export; a dry run only says what would be done.
-/

namespace IgnoredPaths

/-- Why an export was refused or given up. -/
inductive ExportError where
  /-- The name of the folder is wrong. -/
  | name (e : NameError)
  /-- There is no directory to receive the folder. -/
  | parent (p : Path)
  /-- A directory or file could not be made. -/
  | writing (f : Fault)
  /-- It cannot be told whether something is at a path. -/
  | unclear (f : Fault)
  deriving DecidableEq

/-- What is said about an export that did not succeed. -/
def ExportError.message : ExportError → Text
  | .name e => e.message
  | .parent p => "Output parent folder is invalid: ".toList ++ p.toText
  | .writing f => "Export failed: ".toList ++ f.message
  | .unclear f => f.message

/-- The outcome of an export. -/
structure ExportSummary where
  destination : Path
  dirsCreated : Nat
  filesCopied : Nat
  deriving DecidableEq

/-! ## The name of the folder -/

/-- The `n`-th path to try: the wanted one, then the same with a number. -/
def numbered (base : Path) : Nat → Path
  | 0 => base
  | n + 1 => base.withName (base.name ++ " (".toList ++ Text.ofNat (n + 1) ++ [')'])

/-- The first of the paths from the `n`-th on at which nothing is, among `tries` of them. -/
def freeFolderFrom (t : FileTree) (base : Path) : Nat → Nat → Except Fault Path
  | 0, n => .ok (numbered base n)
  | tries + 1, n =>
    match t.exists? (numbered base n) with
    | .error f => .error f
    | .ok false => .ok (numbered base n)
    | .ok true => freeFolderFrom t base tries (n + 1)

/-- The first path to try at which nothing is. No more paths can be taken than there are
entries, the root directory included. -/
def freeFolder (t : FileTree) (base : Path) : Except Fault Path :=
  freeFolderFrom t base (t.entries.length + 2) 0

/-! ## The export -/

/-- What an export has done so far. -/
structure ExportState where
  tree : FileTree
  dirsCreated : Nat
  filesCopied : Nat
  messages : List Message

/-- The error that a fault during the export means. -/
def writingError (f : Fault) : ExportError :=
  if f = .barredCharacter then .unclear f else .writing f

/-- Makes the directories of a collection in the folder. -/
def exportDirs (destination : Path) : List Text → ExportState → ExportState × Option Fault
  | [], s => (s, none)
  | dir :: rest, s =>
    match s.tree.makeDirectories (destination.resolve dir) true with
    | (tree, some f) => ({ s with tree := tree }, some f)
    | (tree, none) =>
      exportDirs destination rest { s with tree := tree, dirsCreated := s.dirsCreated + 1 }

/-- Copies one file to its path in the folder, making the directories above it. -/
def exportFile (t : FileTree) (source target : Path) : Written :=
  match t.makeDirectories target.parent true with
  | (t, some f) => (t, some f)
  | (t, none) => t.copyFile source target

/-- Copies the files of a collection into the folder. -/
def exportFiles (root destination : Path) : List Text → ExportState → ExportState × Option Fault
  | [], s => (s, none)
  | file :: rest, s =>
    let source := root.resolve file
    if s.tree.isFile source then
      match exportFile s.tree source (destination.resolve file) with
      | (tree, some f) => ({ s with tree := tree }, some f)
      | (tree, none) =>
        exportFiles root destination rest
          { s with
            tree := tree
            filesCopied := s.filesCopied + 1
            messages := s.messages ++ [.copied file] }
    else
      exportFiles root destination rest
        { s with messages := s.messages ++ [.skipped file "missing".toList] }

/-- Makes the folder and fills it. -/
def fillFolder (t : FileTree) (c : Collection) (root destination : Path) :
    ExportState × Option Fault :=
  match t.makeDirectories destination false with
  | (t, some f) => (⟨t, 0, 0, []⟩, some f)
  | (t, none) =>
    match exportDirs destination c.dirs ⟨t, 0, 0, []⟩ with
    | (s, some f) => (s, some f)
    | (s, none) => exportFiles root destination c.files s

/-- The lines in which a dry run says what would be done. -/
def dryRunMessages (dirs files : List Text) (destination : Path) : List Message :=
  [.info [.dryRun, .text " Would export to ".toList, .path destination.toText]]
    ++ dirs.map (fun dir =>
      .info [.dryRun, .text " Would create ".toList, .path (dir ++ ['/'])])
    ++ files.map fun file => .info [.dryRun, .text " Would copy ".toList, .path file]

/-- The answer of an export, the tree after it and what it reported. -/
structure ExportRun where
  answer : Except ExportError ExportSummary
  tree : FileTree
  messages : List Message

/-- The folder that an export goes to. -/
def destinationOf (t : FileTree) (parent : Path) (name : Text) : Except ExportError Path :=
  match checkFolderName name with
  | .error e => .error (.name e)
  | .ok () =>
    match t.isDirectory? parent with
    | .error f => .error (.unclear f)
    | .ok false => .error (.parent parent)
    | .ok true =>
      match freeFolder t (parent.resolve name) with
      | .error f => .error (.unclear f)
      | .ok destination => .ok destination

/-- Exports a collection into a new folder below a directory. -/
def exportCollection (t : FileTree) (c : Collection) (root parent : Path) (name : Text)
    (dryRun : Bool) : ExportRun :=
  match destinationOf t parent name with
  | .error e => ⟨.error e, t, []⟩
  | .ok destination =>
    if dryRun then
      let present := c.files.filter fun file => t.isFile (root.resolve file)
      ⟨.ok ⟨destination, c.dirs.length, present.length⟩, t,
        dryRunMessages c.dirs present destination⟩
    else
      match fillFolder t c root destination with
      | (s, some f) => ⟨.error (writingError f), s.tree, s.messages⟩
      | (s, none) => ⟨.ok ⟨destination, s.dirsCreated, s.filesCopied⟩, s.tree, s.messages⟩

end IgnoredPaths
