import IgnoredPaths.Report
import IgnoredPaths.Text.Blank
import IgnoredPaths.Text.Lowercase

/-!
# Names of roots and of the export folder

Names that come from a configuration or a command line are checked before they are joined to
a directory, so that what they lead to stays inside it.

- `checkRootName`: a top-level directory has no `..` segment, is relative and is on no drive.
- `checkFolderName`: an export folder is a single segment other than `.` and `..`.
- `extraRoots`: the extra top-level directories that a raw list names.
-/

namespace IgnoredPaths

/-- What is wrong with a name. -/
inductive NameError where
  | rootLeavesProject (name : Text)
  | rootNotRelative (name : Text)
  | folderEmpty
  | folderNotOneSegment (name : Text)
  | folderReserved (name : Text)
  deriving DecidableEq

/-- What is said about a wrong name. -/
def NameError.message : NameError → Text
  | .rootLeavesProject name => "Root name cannot contain '..': ".toList ++ name
  | .rootNotRelative name => "Root name must be relative: ".toList ++ name
  | .folderEmpty => "Output folder name cannot be empty".toList
  | .folderNotOneSegment name => "Output folder name must be a single segment: ".toList ++ name
  | .folderReserved name => "Invalid output folder name: ".toList ++ name

/-- Whether what follows two leading slashes names a network share: a server, a slash and a
share that does not begin with another slash. -/
def namesShare (rest : Text) : Bool :=
  match rest with
  | [] => false
  | '/' :: _ => false
  | _ =>
    match rest.dropWhile (· ≠ '/') with
    | [] => false
    | _ :: share => share.head? ≠ some '/'

/-- Whether a name is on a drive: a letter with a colon, a network share, or a device path. -/
def hasDrive (name : Text) : Bool :=
  match Text.swap '\\' '/' name with
  | '/' :: '/' :: '?' :: '/' :: _ => true
  | '/' :: '/' :: rest => namesShare rest
  | c :: ':' :: _ => c.isAlpha
  | _ => false

/-- Checks the name of a top-level directory. -/
def checkRootName (name : Text) : Except NameError Unit :=
  if (Text.split '/' (Text.swap '\\' '/' name)).contains ['.', '.'] then
    .error (.rootLeavesProject name)
  else if Text.startsWith name ['/'] || hasDrive name then .error (.rootNotRelative name)
  else .ok ()

/-- Checks the name of the export folder. -/
def checkFolderName (name : Text) : Except NameError Unit :=
  if Text.strip name = [] then .error .folderEmpty
  else if name.contains '/' || name.contains '\\' then .error (.folderNotOneSegment name)
  else if name = ['.'] || name = ['.', '.'] then .error (.folderReserved name)
  else .ok ()

/-- A raw name without blanks and then without slashes of either kind around it, with slashes
in place of its backslashes. -/
def cleanRootName (raw : Text) : Text :=
  Text.swap '\\' '/' (Text.trim (fun c => c = '/' || c = '\\') (Text.strip raw))

/-- One more raw name: the extra roots so far and the warnings so far, extended. -/
def addExtraRoot (primary : Text) (sofar : List Text × List Message) (raw : Option Text) :
    List Text × List Message :=
  match raw with
  | none => sofar
  | some raw =>
    let name := cleanRootName raw
    if name = [] || Text.lower name = Text.lower primary then sofar
    else
      match checkRootName name with
      | .error e => (sofar.1, sofar.2 ++ [.warning e.message])
      | .ok () => if sofar.1.contains name then sofar else (sofar.1 ++ [name], sofar.2)

/-- The extra roots that raw names stand for, each once and in their order, without the primary
root, and a warning for each name that is refused. -/
def extraRoots (raw : List (Option Text)) (primary : Text) : List Text × List Message :=
  raw.foldl (addExtraRoot primary) ([], [])

end IgnoredPaths
