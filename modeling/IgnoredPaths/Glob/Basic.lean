import IgnoredPaths.Text.Basic

/-!
# Globs

A glob describes a set of paths. It is read from left to right into pieces, the longest piece
first: `**/` stands for any number of whole directories, another `**` for any text within a
line, another `*` for any text within a segment, `?` for one character of a segment, and every
other character for itself.

- `Glob.ofText`: reading a glob.
- `Glob.accepts`: deciding whether a glob describes a path.
- `Glob.pattern`: the glob as a regular expression.

A path is decided from the last piece to the first. Each piece turns a row of answers, one for
every end of the path, into the row of the answers with that piece in front, so the work is the
number of pieces times the length of the path, whatever the glob.
-/

namespace IgnoredPaths

/-- A piece of a glob. -/
inductive Piece where
  /-- A character that stands for itself. -/
  | literal (c : Char)
  /-- One character other than a slash. -/
  | one
  /-- Any text without a slash. -/
  | segment
  /-- Any text without a line feed. -/
  | anything
  /-- Nothing, or a text without a line feed that ends with a slash. -/
  | directories
  deriving DecidableEq, Repr

/-- A glob is the list of its pieces. -/
abbrev Glob := List Piece

namespace Glob

/-- The pieces of a glob. -/
def ofText : Text → Glob
  | [] => []
  | '*' :: '*' :: '/' :: r => .directories :: ofText r
  | '*' :: '*' :: r => .anything :: ofText r
  | '*' :: r => .segment :: ofText r
  | '?' :: r => .one :: ofText r
  | c :: r => .literal c :: ofText r

end Glob

/-! ## The ends of a path

A row holds one answer for every end of a path, the whole path first and the empty end last. -/

namespace Row

/-- The row in which only the empty end is accepted. -/
def atEnd : Text → List Bool
  | [] => [true]
  | _ :: s => false :: atEnd s

/-- The answer for the longest end of a row. -/
def first (row : List Bool) : Bool := row.headD false

/-- One character of a class, then what the row accepts. -/
def afterOne (ok : Char → Bool) : Text → List Bool → List Bool
  | c :: s, _ :: row => (ok c && first row) :: afterOne ok s row
  | _, _ => [false]

/-- Any number of characters of a class, then what the row accepts. -/
def afterMany (ok : Char → Bool) : Text → List Bool → List Bool
  | c :: s, here :: row =>
    let later := afterMany ok s row
    (here || (ok c && first later)) :: later
  | _, row => row

/-- Text within a line that ends with a slash, then what the row accepts. -/
def afterSlash : Text → List Bool → List Bool
  | c :: s, _ :: row =>
    let later := afterSlash s row
    ((c = '/' && first row) || (c ≠ '\n' && first later)) :: later
  | _, _ => [false]

/-- What either of two rows accepts. -/
def either (a b : List Bool) : List Bool := List.zipWith (· || ·) a b

end Row

namespace Piece

/-- The row of the answers with a piece in front. -/
def before (piece : Piece) (path : Text) (row : List Bool) : List Bool :=
  match piece with
  | .literal c => Row.afterOne (· = c) path row
  | .one => Row.afterOne (· ≠ '/') path row
  | .segment => Row.afterMany (· ≠ '/') path row
  | .anything => Row.afterMany (· ≠ '\n') path row
  | .directories => Row.either row (Row.afterSlash path row)

/-- Whether a character has a meaning in a regular expression. -/
def isSpecial (c : Char) : Bool := "+()^$.\x7b\x7d[]|\\".toList.contains c

/-- The piece as a regular expression, in which a dot is any character but a line feed. -/
def pattern : Piece → Text
  | .literal c => if isSpecial c then ['\\', c] else [c]
  | .one => "[^/]".toList
  | .segment => "[^/]*".toList
  | .anything => ".*".toList
  | .directories => "(?:.*/)?".toList

end Piece

namespace Glob

/-- The answers of a glob for every end of a path. -/
def row (glob : Glob) (path : Text) : List Bool :=
  glob.foldr (fun piece row => piece.before path row) (Row.atEnd path)

/-- Whether a glob describes a path. -/
def accepts (glob : Glob) (path : Text) : Bool := Row.first (glob.row path)

/-- The glob as a regular expression that has to match the whole path. -/
def pattern (glob : Glob) : Text := glob.flatMap Piece.pattern

end Glob

end IgnoredPaths
