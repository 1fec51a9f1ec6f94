import IgnoredPaths.Text.Surrogate
import IgnoredPaths.Yaml.Token

/-!
# The text of scalars

A scalar is written between quotes, as a block of lines, or plain. In all of them line breaks
are folded: a single one becomes a blank, and of several in a row the first is dropped; only a
literal block keeps its lines.

- `Yaml.scanQuoted`: between single or double quotes.
- `Yaml.scanBlock`: a literal or folded block.
- `Yaml.scanPlain`: plain, with whether it ended behind a line break.

The loops count down from the number of characters left, of which each round takes at least
one.
-/

namespace IgnoredPaths

namespace Yaml

open Scan

/-! ## Quoted scalars -/

/-- What an escape of one character stands for. -/
def escaped? (c : Char) : Option Char :=
  match c with
  | '0' => some '\x00'
  | 'a' => some '\x07'
  | 'b' => some '\x08'
  | 't' | '\t' => some '\t'
  | 'n' => some '\n'
  | 'v' => some '\x0b'
  | 'f' => some '\x0c'
  | 'r' => some '\r'
  | 'e' => some '\x1b'
  | ' ' => some ' '
  | '"' => some '"'
  | '\\' => some '\\'
  | '/' => some '/'
  | 'N' => some '\x85'
  | '_' => some '\xa0'
  | 'L' => some '\u2028'
  | 'P' => some '\u2029'
  | _ => none

/-- How many digits the escape of a code point has. -/
def escapeWidth? (c : Char) : Option Nat :=
  match c with
  | 'x' => some 2
  | 'u' => some 4
  | 'U' => some 8
  | _ => none

/-- The character of a code point, or what stands in for it. -/
def charOf (code : Nat) : Scan Char :=
  if 0x80000000 ≤ code then throw .hugeCodePoint
  else if 0x110000 ≤ code then throw .badNumber
  else if 0xD800 ≤ code ∧ code < 0xE000 then return standIn code
  else return Char.ofNat code

/-- A code point in a given number of hexadecimal digits. -/
def scanCodePoint (width : Nat) : Scan Text := do
  let digits := (← get).rest.take width
  if digits.length ≠ width || !digits.all isHexDigit then
    fail "an escape needs more hexadecimal digits"
  skip width
  return [← charOf (digits.foldl (fun n d => n * 16 + hexValue d) 0)]

/-- Line breaks with the white space around them, inside quotes. -/
def scanQuotedBreaks : Nat → Scan Text
  | 0 => return []
  | fuel + 1 => do
    if (← get).separates then fail "a document ends inside a quoted scalar"
    drop fun c => c = ' ' || c = '\t'
    if (← peek).any isBreak then return (← takeBreak) ++ (← scanQuotedBreaks fuel)
    return []

/-- An escape, from its backslash on. -/
def scanEscape : Scan Text := do
  skip 1
  match ← peek with
  | none => fail "unexpected end of a quoted scalar"
  | some c =>
    match escaped? c, escapeWidth? c with
    | some r, _ =>
      skip 1
      return [r]
    | none, some width =>
      skip 1
      scanCodePoint width
    | none, none =>
      if isBreak c then
        let _ ← takeBreak
        scanQuotedBreaks ((← remaining) + 1)
      else fail "unknown escape"

/-- Whether a character needs no attention inside quotes. -/
def isQuotedPlain (c : Char) : Bool :=
  !(c = '\'' || c = '"' || c = '\\' || c = ' ' || c = '\t' || isBreak c)

/-- What stands inside quotes up to white space or the closing quote. -/
def scanQuotedPart (double : Bool) : Nat → Scan Text
  | 0 => return []
  | fuel + 1 => do
    let part ← take isQuotedPlain
    let more ←
      match ← peek, ← peekAt 1 with
      | some '\'', after =>
        if double then do
          skip 1
          pure ['\'']
        else if after = some '\'' then do
          skip 2
          pure ['\'']
        else return part
      | some '"', _ =>
        if double then return part
        else do
          skip 1
          pure ['"']
      | some '\\', _ =>
        if double then scanEscape
        else do
          skip 1
          pure ['\\']
      | _, _ => return part
    return part ++ more ++ (← scanQuotedPart double fuel)

/-- White space inside quotes, folded if there are line breaks. -/
def scanQuotedSpace : Scan Text := do
  let blanks ← take fun c => c = ' ' || c = '\t'
  match ← peek with
  | none => fail "unexpected end of a quoted scalar"
  | some c =>
    if isBreak c then
      let first ← takeBreak
      let more ← scanQuotedBreaks ((← remaining) + 1)
      return (if first ≠ ['\n'] then first else if more = [] then [' '] else []) ++ more
    else return blanks

/-- What stands inside quotes after the first part, and the closing quote. -/
def scanQuotedRest (double : Bool) : Nat → Scan Text
  | 0 => return []
  | fuel + 1 => do
    if ← sees (if double then '"' else '\'') then
      skip 1
      return []
    let space ← scanQuotedSpace
    let part ← scanQuotedPart double ((← remaining) + 1)
    return space ++ part ++ (← scanQuotedRest double fuel)

/-- A quoted scalar. -/
def scanQuoted (double : Bool) : Scan Text := do
  skip 1
  let part ← scanQuotedPart double ((← remaining) + 1)
  return part ++ (← scanQuotedRest double ((← remaining) + 1))

/-! ## Block scalars -/

/-- What becomes of the line breaks at the end of a block. -/
inductive Chomping where
  /-- All but the first are dropped. -/
  | clip
  /-- All are dropped. -/
  | strip
  /-- All are kept. -/
  | keep
  deriving DecidableEq

/-- The sign for the end of a block, if it is next. -/
def scanChomping : Scan (Option Chomping) := do
  if ← sees '+' then
    skip 1
    return some .keep
  if ← sees '-' then
    skip 1
    return some .strip
  return none

/-- The digit for the indentation of a block, if it is next. -/
def scanIncrement : Scan (Option Nat) := do
  match ← peek with
  | some c =>
    if c.isDigit then
      if c = '0' then fail "the indentation of a block is at least one"
      skip 1
      return some (c.toNat - '0'.toNat)
    return none
  | none => return none

/-- The signs at the beginning of a block, in either order. -/
def scanBlockHeader : Scan (Chomping × Option Nat) := do
  let first ← scanChomping
  let increment ← scanIncrement
  let chomping ← if first.isNone && increment.isSome then scanChomping else pure first
  if !endsItem (← peek) then fail "unexpected character at the beginning of a block"
  return (chomping.getD .clip, increment)

/-- Empty lines before a block, and how far the furthest of its leading blanks reaches. -/
def scanBlockIndentation : Nat → Nat → Scan (Text × Nat)
  | 0, reach => return ([], reach)
  | fuel + 1, reach => do
    if ← sees ' ' then
      skip 1
      scanBlockIndentation fuel (max reach (← get).column)
    else if (← peek).any isBreak then
      let lineBreak ← takeBreak
      let (more, reach) ← scanBlockIndentation fuel reach
      return (lineBreak ++ more, reach)
    else return ([], reach)

/-- Blanks up to a column. -/
def skipBlanksTo (column : Nat) : Nat → Scan Unit
  | 0 => return
  | fuel + 1 => do
    if (← get).column < column && (← sees ' ') then
      skip 1
      skipBlanksTo column fuel

/-- Empty lines in a block, and the indentation of the line after them. -/
def scanBlockBreaks (indent : Nat) : Nat → Scan Text
  | 0 => return []
  | fuel + 1 => do
    skipBlanksTo indent indent
    if (← peek).any isBreak then return (← takeBreak) ++ (← scanBlockBreaks indent fuel)
    return []

/-- Whether a line of a block at some indentation is next. -/
def atBlockLine (indent : Nat) : Scan Bool := do
  let c ← get
  return c.column = indent && c.peek.isSome

/-- The lines of a block from the next one on: their text, the break of the last one, and the
empty lines behind it. -/
def scanBlockLines (folded : Bool) (indent : Nat) : Nat → Scan (Text × Text × Text)
  | 0 => return ([], [], [])
  | fuel + 1 => do
    let deep := (← peek).any fun c => c = ' ' || c = '\t'
    let line ← take (!isBreak ·)
    let lineBreak ← takeBreak
    let empty ← scanBlockBreaks indent ((← remaining) + 1)
    if ← atBlockLine indent then
      let deepNext := (← peek).any fun c => c = ' ' || c = '\t'
      let glue : Text :=
        if folded && lineBreak = ['\n'] && !deep && !deepNext then
          if empty = [] then [' '] else []
        else lineBreak
      let (more, last, trailing) ← scanBlockLines folded indent fuel
      return (line ++ glue ++ empty ++ more, last, trailing)
    else return (line, lineBreak, empty)

/-- A block below a given indentation. -/
def scanBlock (folded : Bool) (parent : Int) : Scan Text := do
  skip 1
  let (chomping, increment) ← scanBlockHeader
  scanLineEnd
  let least := max 1 (parent + 1).toNat
  let (empty, indent) ←
    match increment with
    | none => do
      let (empty, reach) ← scanBlockIndentation ((← remaining) + 1) 0
      pure (empty, max least reach)
    | some n => do
      let indent := least + n - 1
      pure (← scanBlockBreaks indent ((← remaining) + 1), indent)
  let (text, last, trailing) ←
    if ← atBlockLine indent then do
      let (text, last, trailing) ← scanBlockLines folded indent ((← remaining) + 1)
      pure (empty ++ text, last, trailing)
    else pure ([], [], empty)
  return text ++ (if chomping = .strip then [] else last)
    ++ (if chomping = .keep then trailing else [])

/-! ## Plain scalars -/

/-- How many characters in front belong to a plain scalar. -/
def plainLength (flow : Bool) : Text → Nat
  | [] => 0
  | c :: r =>
    let colonEnds (after : Option Char) : Bool :=
      endsWord after || (flow && after.any (",[]\x7b\x7d".toList.contains ·))
    if endsWord (some c) || (c = ':' && colonEnds r.head?)
        || (flow && ",?[]\x7b\x7d".toList.contains c) then 0
    else plainLength flow r + 1

/-- Line breaks and blanks inside a plain scalar, unless a document ends there. -/
def scanPlainBreaks : Nat → Scan (Option Text)
  | 0 => return some []
  | fuel + 1 => do
    if ← sees ' ' then
      skip 1
      scanPlainBreaks fuel
    else if (← peek).any isBreak then
      let lineBreak ← takeBreak
      if (← get).separates then return none
      return (← scanPlainBreaks fuel).map (lineBreak ++ ·)
    else return some []

/-- White space inside a plain scalar, folded if there are line breaks, and whether there are.
The text is empty where the scalar has to end. -/
def scanPlainSpace : Scan (Text × Bool) := do
  let blanks ← take (· = ' ')
  if (← peek).any isBreak then
    let first ← takeBreak
    if (← get).separates then return ([], true)
    match ← scanPlainBreaks ((← remaining) + 1) with
    | none => return ([], true)
    | some more =>
      return ((if first ≠ ['\n'] then first else if more = [] then [' '] else []) ++ more, true)
  else return (blanks, false)

/-- A plain scalar after some white space, and whether it ended behind a line break. -/
def scanPlainFrom (flow : Bool) (indent : Int) (space : Text) (broken : Bool) :
    Nat → Scan (Text × Bool)
  | 0 => return ([], broken)
  | fuel + 1 => do
    if ← sees '#' then return ([], broken)
    let rest := (← get).rest
    let length := plainLength flow rest
    if length = 0 then return ([], broken)
    skip length
    let part := space ++ rest.take length
    let (space, broken) ← scanPlainSpace
    let here ← get
    if space = [] || here.peek = some '#' || (!flow && (here.column : Int) < indent) then
      return (part, broken)
    let (more, broken) ← scanPlainFrom flow indent space broken fuel
    return (part ++ more, broken)

/-- A plain scalar at least so far indented, and whether it ended behind a line break. -/
def scanPlain (flow : Bool) (indent : Int) : Scan (Text × Bool) := do
  scanPlainFrom flow indent [] false ((← remaining) + 1)

end Yaml

end IgnoredPaths
