import IgnoredPaths.FileTree.Basic

/-!
# Where paths lead

A path is followed name by name from the root directory. A symbolic link is replaced by the
steps of its target; following more than forty links in all is a fault. What is not there is
no fault as long as only the last name is missing: its place is vacant.

- `FileTree.lead`: following steps.
- `FileTree.spot`: where a path leads.
- `FileTree.stat`: what is there.
- `FileTree.isFile`, `FileTree.isDirectory`: questions in which every fault means no.
- `FileTree.exists?`, `FileTree.isDirectory?`: questions that a too long name leaves open.
-/

namespace IgnoredPaths

/-- Why an operation on a path cannot be done. -/
inductive Fault where
  /-- A name on the way is missing. -/
  | absent
  /-- A name on the way is not that of a directory. -/
  | notDirectory
  /-- A directory is where a file is needed. -/
  | isDirectory
  /-- The place is taken. -/
  | occupied
  /-- Too many links have to be followed. -/
  | tooManyLinks
  /-- A name is longer than the tree allows. -/
  | nameTooLong
  /-- A name holds a barred character. -/
  | barredCharacter
  /-- A file would be copied onto itself. -/
  | sameFile
  deriving DecidableEq, Repr

/-- What is said about a fault. -/
def Fault.message : Fault → Text
  | .absent => "No such file or directory".toList
  | .notDirectory => "Not a directory".toList
  | .isDirectory => "Is a directory".toList
  | .occupied => "File exists".toList
  | .tooManyLinks => "Too many levels of symbolic links".toList
  | .nameTooLong => "File name too long".toList
  | .barredCharacter => "embedded null byte or surrogate".toList
  | .sameFile => "source and destination are the same file".toList

/-- Whether a fault only says that there is nothing at the end of a path. -/
def Fault.meansAbsent : Fault → Bool
  | .absent | .notDirectory | .tooManyLinks | .barredCharacter => true
  | _ => false

/-- One step on the way to an entry. -/
inductive Step where
  /-- To the entry of a name. -/
  | name (n : Text)
  /-- To the directory above. -/
  | up
  /-- Nowhere, which only a directory allows. -/
  | here
  deriving DecidableEq

namespace Step

/-- The step that a piece between slashes means. -/
def ofPiece (s : Text) : Step :=
  if s = [] ∨ s = hereSegment then .here else if s = upSegment then .up else .name s

/-- The steps of a link's target. -/
def ofTarget (target : Text) : List Step := (Text.split '/' target).map ofPiece

/-- The steps of a path. -/
def ofPath (p : Path) : List Step := p.segments.map ofPiece

end Step

/-- The location from which a link in a directory leads on. -/
def linkBase (target : Text) (directory : Location) : Location :=
  if Text.startsWith target ['/'] then [] else directory

/-- How many links may be followed on the way to one entry. -/
def maxLinks : Nat := 40

/-- Where a path leads. -/
inductive Spot where
  /-- To a directory or a file. -/
  | taken (l : Location) (e : Entry)
  /-- To a place in a directory where nothing is. -/
  | vacant (parent : Location) (name : Text)

namespace FileTree

/-- Follows steps from a directory; `jump` follows the steps from a link on. -/
def leadFrom (t : FileTree) (jump : Location → List Step → Except Fault Spot) :
    Location → List Step → Except Fault Spot
  | l, [] => .ok (.taken l .directory)
  | l, .here :: rest => leadFrom t jump l rest
  | l, .up :: rest => leadFrom t jump l.tail rest
  | l, .name n :: rest =>
    if isTooLong n then .error .nameTooLong
    else
      match t.get? (n :: l) with
      | none => if rest = [] then .ok (.vacant l n) else .error .absent
      | some .directory => leadFrom t jump (n :: l) rest
      | some (.file content mtime) =>
        if rest = [] then .ok (.taken (n :: l) (.file content mtime)) else .error .notDirectory
      | some (.link target) => jump (linkBase target l) (Step.ofTarget target ++ rest)

/-- Follows steps from a directory through at most so many links. -/
def lead (t : FileTree) : Nat → Location → List Step → Except Fault Spot
  | 0 => t.leadFrom fun _ _ => .error .tooManyLinks
  | n + 1 => t.leadFrom (t.lead n)

/-- Where a path leads. -/
def spot (t : FileTree) (p : Path) : Except Fault Spot :=
  if p.holdsBarred then .error .barredCharacter
  else t.lead maxLinks [] (Step.ofPath p)

/-- What a path leads to. -/
def stat (t : FileTree) (p : Path) : Except Fault (Location × Entry) :=
  match t.spot p with
  | .ok (.taken l e) => .ok (l, e)
  | .ok (.vacant _ _) => .error .absent
  | .error f => .error f

/-- What a path leads to, if anything, unless it cannot be told. -/
def find? (t : FileTree) (p : Path) : Except Fault (Option (Location × Entry)) :=
  match t.stat p with
  | .ok found => .ok (some found)
  | .error f => if f.meansAbsent then .ok none else .error f

/-- Whether a path leads to something. -/
def exists? (t : FileTree) (p : Path) : Except Fault Bool := (t.find? p).map Option.isSome

/-- Whether a path leads to a directory. -/
def isDirectory? (t : FileTree) (p : Path) : Except Fault Bool :=
  (t.find? p).map fun found => found.any (·.2.isDirectory)

/-- Whether a path leads to a file. -/
def isFile? (t : FileTree) (p : Path) : Except Fault Bool :=
  (t.find? p).map fun found => found.any (·.2.isFile)

/-- Whether a path leads to a file; where that cannot be told it does not. -/
def isFile (t : FileTree) (p : Path) : Bool :=
  match t.stat p with
  | .ok (_, e) => e.isFile
  | .error _ => false

/-- Whether a path leads to a directory; where that cannot be told it does not. -/
def isDirectory (t : FileTree) (p : Path) : Bool :=
  match t.stat p with
  | .ok (_, e) => e.isDirectory
  | .error _ => false

/-- The content and the time of the file that a path leads to. -/
def read (t : FileTree) (p : Path) : Except Fault (ByteArray × Int) :=
  match t.stat p with
  | .ok (_, .file content mtime) => .ok (content, mtime)
  | .ok _ => .error .isDirectory
  | .error f => .error f

end FileTree

end IgnoredPaths
