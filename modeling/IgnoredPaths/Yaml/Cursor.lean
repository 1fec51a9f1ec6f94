import IgnoredPaths.Text.Basic

/-!
# Reading a document character by character

- `Yaml.isBreak`, `Yaml.endsWord`: the characters that end a line, and those that end a word.
- `Yaml.isAllowed`: the characters that a document may hold.
- `Yaml.Cursor`: the rest of a document, with the position of its first character.
- `Cursor.take`, `Cursor.takeBreak`: moving on.
- `Yaml.Scan`: moving on step by step, unless something is wrong.
-/

namespace IgnoredPaths

namespace Yaml

/-- Why a document has no value. -/
inductive Problem where
  /-- It does not follow the grammar. -/
  | malformed (reason : Text)
  /-- A number, a date or an escaped code point is out of range or no such thing. -/
  | badNumber
  /-- An escaped code point does not even fit 31 bits. -/
  | hugeCodePoint
  /-- A scalar that is declared as a number is empty. -/
  | emptyNumber
  /-- A scalar that is declared as a truth value is none. -/
  | badTruthValue
  /-- A scalar that is declared as a moment is none. -/
  | badMoment
  /-- Collections are nested deeper than they are followed. -/
  | tooDeep
  deriving DecidableEq

/-- A document that does not follow the grammar. -/
def Problem.grammar (reason : String) : Problem :=
  .malformed ("not well-formed YAML: ".toList ++ reason.toList)

/-- Whether a character ends a line. -/
def isBreak (c : Char) : Bool :=
  c = '\n' || c = '\r' || c = '\x85' || c = '\u2028' || c = '\u2029'

/-- Whether a place ends a line: there is a line break or nothing. -/
def endsLine (c : Option Char) : Bool := c.all isBreak

/-- Whether a place ends a line or there is a blank. -/
def endsItem (c : Option Char) : Bool := c.all fun c => c = ' ' || isBreak c

/-- Whether a place ends a word: there is white space or nothing. -/
def endsWord (c : Option Char) : Bool := c.all fun c => c = ' ' || c = '\t' || isBreak c

/-- Whether a document may hold a character. -/
def isAllowed (c : Char) : Bool :=
  let n := c.toNat
  n = 0x09 || n = 0x0A || n = 0x0D || (0x20 ≤ n && n ≤ 0x7E) || n = 0x85
    || (0xA0 ≤ n && n ≤ 0xFFFD) || 0x10000 ≤ n

/-- Whether a character may be in the name of an anchor, a directive or a tag handle. -/
def isWordChar (c : Char) : Bool := c.isAlphanum || c = '-' || c = '_'

/-- Whether a character is a hexadecimal digit. -/
def isHexDigit (c : Char) : Bool :=
  c.isDigit || ('a' ≤ c && c ≤ 'f') || ('A' ≤ c && c ≤ 'F')

/-- The mark that may open a document. -/
def mark : Char := '\uFEFF'

/-- The rest of a document and the position of its first character. -/
structure Cursor where
  rest : Text
  index : Nat
  line : Nat
  column : Nat

namespace Cursor

/-- The first character of the rest. -/
def peek (c : Cursor) : Option Char := c.rest.head?

/-- The character after `n` others. -/
def peekAt (c : Cursor) (n : Nat) : Option Char := c.rest[n]?

/-- The rest without its first character. A carriage return ends a line unless a line feed
follows it. -/
def next (c : Cursor) : Cursor :=
  match c.rest with
  | [] => c
  | ch :: r =>
    if ch = '\r' ∧ r.head? = some '\n' then ⟨r, c.index + 1, c.line, c.column + 1⟩
    else if isBreak ch then ⟨r, c.index + 1, c.line + 1, 0⟩
    else ⟨r, c.index + 1, c.line, if ch = mark then c.column else c.column + 1⟩

/-- The rest without its first `n` characters. -/
def skip : Nat → Cursor → Cursor
  | 0, c => c
  | n + 1, c => skip n c.next

/-- The characters of a class in front, and what follows them. -/
def take (c : Cursor) (ok : Char → Bool) : Text × Cursor :=
  let s := c.rest.takeWhile ok
  (s, c.skip s.length)

/-- What follows the characters of a class in front. -/
def drop (c : Cursor) (ok : Char → Bool) : Cursor := (c.take ok).2

/-- Whether a text is in front. -/
def sees (c : Cursor) (s : Text) : Bool := s.isPrefixOf c.rest

/-- The line break in front as it counts in a scalar, if there is one, and what follows it. -/
def takeBreak (c : Cursor) : Text × Cursor :=
  match c.peek with
  | none => ([], c)
  | some ch =>
    if c.sees ['\r', '\n'] then (['\n'], c.skip 2)
    else if ch = '\u2028' || ch = '\u2029' then ([ch], c.next)
    else if isBreak ch then (['\n'], c.next)
    else ([], c)

/-- Whether a word of these three characters is in front. -/
def seesWord (c : Cursor) (s : Text) : Bool := c.sees s && endsWord (c.peekAt 3)

/-- Whether a mark that separates documents is in front. -/
def separates (c : Cursor) : Bool := c.seesWord ['-', '-', '-'] || c.seesWord ['.', '.', '.']

end Cursor

/-- Reading on from a cursor, which may fail. -/
abbrev Scan := StateT Cursor (Except Problem)

namespace Scan

/-- Gives up. -/
def fail {α : Type} (reason : String) : Scan α := throw (.grammar reason)

/-- The next character. -/
def peek : Scan (Option Char) := return (← get).peek

/-- The character after `n` others. -/
def peekAt (n : Nat) : Scan (Option Char) := return (← get).peekAt n

/-- Whether a character is next. -/
def sees (ch : Char) : Scan Bool := return (← get).peek = some ch

/-- Moves on by `n` characters. -/
def skip (n : Nat) : Scan Unit := modify (Cursor.skip n)

/-- Takes the characters of a class. -/
def take (ok : Char → Bool) : Scan Text := modifyGet (Cursor.take · ok)

/-- Moves on behind the characters of a class. -/
def drop (ok : Char → Bool) : Scan Unit := modify (Cursor.drop · ok)

/-- Takes a line break as it counts in a scalar, if there is one. -/
def takeBreak : Scan Text := modifyGet Cursor.takeBreak

/-- How many characters are left. -/
def remaining : Scan Nat := return (← get).rest.length

end Scan

end Yaml

end IgnoredPaths
