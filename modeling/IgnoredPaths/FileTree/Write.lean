import IgnoredPaths.FileTree.Resolve

/-!
# Writing to a file tree

A change that cannot be completed may have been begun, so every operation gives the tree
afterwards together with what went wrong, if anything did.

- `FileTree.makeDirectory`, `FileTree.makeLink`: one new entry.
- `FileTree.makeDirectories`: a directory with those above it that are missing.
- `FileTree.copyFile`: a copy with the time of its source. It goes through links, and into a
  directory under the name of the source.
-/

namespace IgnoredPaths

/-- The tree after a change, and what went wrong. -/
abbrev Written := FileTree × Option Fault

namespace FileTree

/-- The directory that the last name of a path is looked up in, and that name. -/
def place (t : FileTree) (p : Path) : Except Fault (Location × Text) :=
  match p.segments.getLast? with
  | none => .error .occupied
  | some name =>
    if name.holdsBarred then .error .barredCharacter
    else
      match t.spot p.parent with
      | .error f => .error f
      | .ok (.vacant _ _) => .error .absent
      | .ok (.taken l e) =>
        if !e.isDirectory then .error .notDirectory
        else if name = upSegment then .error .occupied
        else if isTooLong name then .error .nameTooLong
        else .ok (l, name)

/-- Makes one entry, in a directory that is there. -/
def makeEntry (t : FileTree) (p : Path) (e : Entry) : Written :=
  match t.place p with
  | .error f => (t, some f)
  | .ok (l, name) =>
    if (t.get? (name :: l)).isSome then (t, some .occupied) else (t.insert l name e, none)

/-- Makes one directory, in a directory that is there. -/
def makeDirectory (t : FileTree) (p : Path) : Written := t.makeEntry p .directory

/-- Makes one symbolic link, in a directory that is there. A link has to lead somewhere, be it
to what is missing: an empty target is a fault. -/
def makeLink (t : FileTree) (p : Path) (target : Text) : Written :=
  if target.isEmpty then (t, some .absent) else t.makeEntry p (.link target)

/-- Takes it for no fault that a directory is already there, if that is allowed. -/
def forgiving (existing : Bool) (p : Path) : Written → Written
  | (t, some f) => if existing && t.isDirectory p then (t, none) else (t, some f)
  | (t, none) => (t, none)

/-- Makes a directory, after those of the `above` nearest directories above it that are missing. -/
def makeDirectoriesUpTo (t : FileTree) : Nat → Path → Bool → Written
  | 0, p, existing => forgiving existing p (t.makeDirectory p)
  | above + 1, p, existing =>
    match t.makeDirectory p with
    | (t, some .absent) =>
      match makeDirectoriesUpTo t above p.parent true with
      | (t, some f) => (t, some f)
      | (t, none) => forgiving existing p (t.makeDirectory p)
    | written => forgiving existing p written

/-- Makes a directory, after those above it that are missing. That it is already there is a
fault unless `existing` allows it. -/
def makeDirectories (t : FileTree) (p : Path) (existing : Bool) : Written :=
  t.makeDirectoriesUpTo p.segments.length p existing

/-- Puts content and time into the file that a path leads to, or into a new one. -/
def writeFile (t : FileTree) (p : Path) (content : ByteArray) (mtime : Int) : Written :=
  match t.spot p with
  | .error f => (t, some f)
  | .ok (.taken _ .directory) => (t, some .isDirectory)
  | .ok (.taken l _) => (t.overwrite l content mtime, none)
  | .ok (.vacant l name) => (t.insert l name (.file content mtime), none)

/-- Where a copy goes: into a directory under the name of its source, or to the path itself. -/
def copyTarget (t : FileTree) (source target : Path) : Path :=
  if t.isDirectory target then target.extend [source.name] else target

/-- Whether two paths lead to the same entry. -/
def sameEntry (t : FileTree) (p q : Path) : Bool :=
  match t.stat p, t.stat q with
  | .ok (l, _), .ok (m, _) => l = m
  | _, _ => false

/-- Copies a file with its time. -/
def copyFile (t : FileTree) (source target : Path) : Written :=
  let target := t.copyTarget source target
  if t.sameEntry source target then (t, some .sameFile)
  else
    match t.read source with
    | .error f => (t, some f)
    | .ok (content, mtime) => t.writeFile target content mtime

end FileTree

end IgnoredPaths
