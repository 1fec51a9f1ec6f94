import IgnoredPaths.Glob.Basic
import IgnoredPaths.Text.Blank

/-!
# Ignore rules

One line of a rule file is at most one rule. Blank lines and lines that begin with `#` are
none. A `!` in front makes the rule a negation, which takes back what earlier rules ignore.
Backslashes count as slashes. A slash at the end makes the rule cover everything below the
directory; a slash at the beginning ties it to the project root, and without one it holds at
any depth.

- `Rule.ofLine?`: the rule of a line.
- `Rule.ofLines`: the rules of all lines, in their order.
- `Rule.accepts`: whether a rule describes a path.
-/

namespace IgnoredPaths

/-- An ignore rule. -/
structure Rule where
  /-- The paths that the rule is about. -/
  glob : Glob
  /-- Whether the rule takes back what earlier rules ignore. -/
  negation : Bool
  /-- The index of the line among all lines. -/
  order : Int
  /-- The line without the blanks around it. -/
  source : Text
  deriving DecidableEq

namespace Rule

/-- What a rule says about paths, from its text without the negation sign. -/
def body (text : Text) : Text := Text.strip (Text.swap '\\' '/' text)

/-- Ties a body to the project root, or to any depth. -/
def anchored (body : Text) : Text :=
  match body with
  | '/' :: _ => Text.trimLeft (· = '/') body
  | _ => if Text.startsWith body ['*', '*', '/'] then body else '*' :: '*' :: '/' :: body

/-- Makes a directory rule cover the subtree of the directory. -/
def covering (body : Text) : Text :=
  if Text.endsWith body ['/'] then body ++ ['*', '*'] else body

/-- The glob that a body means. -/
def globText (body : Text) : Text := anchored (covering body)

/-- The rule of a line. -/
def ofLine? (line : Text) (order : Int) : Option Rule :=
  match Text.strip line with
  | [] => none
  | '#' :: _ => none
  | '!' :: text => some ⟨Glob.ofText (globText (body text)), true, order, Text.strip line⟩
  | text => some ⟨Glob.ofText (globText (body text)), false, order, Text.strip line⟩

/-- The rules of lines that start at an index. -/
def ofLinesFrom : Int → List Text → List Rule
  | _, [] => []
  | i, line :: rest => (ofLine? line i).toList ++ ofLinesFrom (i + 1) rest

/-- The rules of all lines. -/
def ofLines (lines : List Text) : List Rule := ofLinesFrom 0 lines

/-- Whether a rule describes a path. -/
def accepts (rule : Rule) (path : Text) : Bool := rule.glob.accepts path

end Rule

end IgnoredPaths
