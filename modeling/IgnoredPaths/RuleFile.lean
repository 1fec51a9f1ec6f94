import IgnoredPaths.FileTree.Resolve
import IgnoredPaths.Matcher
import IgnoredPaths.Report
import IgnoredPaths.Text.Encoding

/-!
# Rule files

- `readRuleLines`: the lines of a rule file.
- `loadMatcher`: a matcher over them; a file that is missing gives none, and so does one that
  cannot be read, with a warning.
-/

namespace IgnoredPaths

/-- Why the text of a file cannot be had. -/
inductive ReadError where
  /-- The file cannot be opened. -/
  | fault (f : Fault)
  /-- Its bytes are not well-formed UTF-8. -/
  | encoding
  deriving DecidableEq

/-- What is said about a file that cannot be read. -/
def ReadError.message : ReadError → Text
  | .fault f => f.message
  | .encoding => "not well-formed UTF-8".toList

/-- The lines of a rule file, without their ends and without a byte-order mark. -/
def readRuleLines (t : FileTree) (p : Path) : Except ReadError (List Text) :=
  match t.read p with
  | .error f => .error (.fault f)
  | .ok (content, _) =>
    match decodeMarked? content with
    | none => .error .encoding
    | some s => .ok (Text.lines s)

/-- A matcher over the rules in a file, if the file is there and can be read. -/
def loadMatcher (t : FileTree) (p : Path) : Option Matcher × List Message :=
  if t.isFile p then
    match readRuleLines t p with
    | .ok lines => (some (Matcher.ofLines lines), [])
    | .error e =>
      (none, [.warning ("Could not read ".toList ++ p.toText ++ ": ".toList ++ e.message)])
  else (none, [])

end IgnoredPaths
