import IgnoredPaths.Yaml.Cursor

/-!
# Tokens of a document

- `Yaml.Token`: the tokens.
- `Yaml.scanAnchorName`, `Yaml.scanTag`, `Yaml.scanDirective`: tokens within a word or a line.
-/

namespace IgnoredPaths

namespace Yaml

/-- What a directive declares. -/
inductive Directive where
  /-- The version of the language, of which only the first part matters. -/
  | version (major : Nat)
  /-- What a tag handle stands for. -/
  | tag (handle start : Text)
  /-- Something that is of no concern. -/
  | other

/-- A token of a document. -/
inductive Token where
  | directive (d : Directive)
  | documentStart
  | documentEnd
  | streamEnd
  | blockSequenceStart
  | blockMappingStart
  | blockEnd
  | flowSequenceStart
  | flowSequenceEnd
  | flowMappingStart
  | flowMappingEnd
  | blockEntry
  | flowEntry
  | key
  | value
  | alias (name : Text)
  | anchor (name : Text)
  | tag (handle : Option Text) (suffix : Text)
  | scalar (plain : Bool) (value : Text)

open Scan

/-- The name of an anchor or an alias, after its sign. -/
def scanAnchorName : Scan Text := do
  skip 1
  let name ← take isWordChar
  if name = [] then fail "an anchor has no name"
  let after ← peek
  if endsWord after || after.any ("?:,]\x7d%@\x60".toList.contains ·) then return name
  fail "unexpected character in the name of an anchor"

/-- Whether a character may be in a tag without being escaped. -/
def isTagChar (c : Char) : Bool :=
  c.isAlphanum || "-;/?:@&=+$,_.!~*'()[]".toList.contains c

/-- The value of a hexadecimal digit. -/
def hexValue (c : Char) : Nat :=
  if c.isDigit then c.toNat - '0'.toNat
  else if c.isUpper then c.toNat - 'A'.toNat + 10
  else c.toNat - 'a'.toNat + 10

/-- The bytes of the escapes in front; none if one lacks a digit. -/
def tagEscapes : Text → Option (List UInt8)
  | '%' :: a :: b :: r =>
    if isHexDigit a && isHexDigit b then
      (tagEscapes r).map ((hexValue a * 16 + hexValue b).toUInt8 :: ·)
    else none
  | '%' :: _ => none
  | _ => some []

/-- The escapes in front, which have to be well-formed UTF-8 together. -/
def scanTagEscapes : Scan Text := do
  match tagEscapes (← get).rest with
  | none => fail "an escape in a tag needs two hexadecimal digits"
  | some bytes =>
    match String.fromUTF8? ⟨bytes.toArray⟩ with
    | none => fail "escapes in a tag are not well-formed UTF-8"
    | some s =>
      skip (3 * bytes.length)
      return s.toList

/-- The characters of a tag, with escapes resolved, in at most so many parts. -/
def scanTagText : Nat → Scan Text
  | 0 => return []
  | fuel + 1 => do
    let part ← if ← sees '%' then scanTagEscapes else take isTagChar
    if part = [] then return []
    return part ++ (← scanTagText fuel)

/-- The text of a tag or of what a handle stands for, at least one character. -/
def scanTagUri : Scan Text := do
  if (← peek).any fun ch => isTagChar ch || ch = '%' then scanTagText ((← remaining) + 1)
  else fail "a tag has no text"

/-- A tag handle with the exclamation marks around it. -/
def scanTagHandle : Scan Text := do
  if !(← sees '!') then fail "a tag handle begins with an exclamation mark"
  skip 1
  if ← sees ' ' then return ['!']
  let word ← take isWordChar
  if !(← sees '!') then fail "a tag handle ends with an exclamation mark"
  skip 1
  return '!' :: word ++ ['!']

/-- Whether another exclamation mark follows in the word behind the first one. -/
def hasHandle (rest : Text) : Bool :=
  ((rest.drop 1).takeWhile fun ch => !endsItem (some ch)).contains '!'

/-- A tag, from its exclamation mark on. -/
def scanTag : Scan Token := do
  let second ← peekAt 1
  let token ←
    if second = some '<' then do
      skip 2
      let suffix ← scanTagUri
      if !(← sees '>') then fail "a verbatim tag is not closed"
      skip 1
      pure (Token.tag none suffix)
    else if endsWord second then do
      skip 1
      pure (Token.tag none ['!'])
    else do
      let handle ←
        if hasHandle (← get).rest then scanTagHandle
        else do
          skip 1
          pure ['!']
      pure (Token.tag (some handle) (← scanTagUri))
  if endsItem (← peek) then return token
  fail "unexpected character in a tag"

/-- The number in the version of the language. -/
def scanVersionNumber : Scan Nat := do
  let digits ← take Char.isDigit
  if digits = [] then fail "a version number has no digits"
  return digits.foldl (fun n d => n * 10 + (d.toNat - '0'.toNat)) 0

/-- Blanks and a comment up to the end of the line, and the line break. -/
def scanLineEnd : Scan Unit := do
  drop (· = ' ')
  if ← sees '#' then drop (!isBreak ·)
  if !endsLine (← peek) then fail "unexpected text at the end of a line"
  let _ ← takeBreak

/-- What the directive of a name declares. -/
def scanDeclaration (name : Text) : Scan Directive := do
  if name = "YAML".toList then
    drop (· = ' ')
    let major ← scanVersionNumber
    if !(← sees '.') then fail "a version has no point"
    skip 1
    let _ ← scanVersionNumber
    if !endsItem (← peek) then fail "unexpected character in a version"
    return .version major
  else if name = "TAG".toList then
    drop (· = ' ')
    let handle ← scanTagHandle
    if !(← sees ' ') then fail "a tag handle stands alone"
    drop (· = ' ')
    let start ← scanTagUri
    if !endsItem (← peek) then fail "unexpected character in a tag"
    return .tag handle start
  else
    drop (!isBreak ·)
    return .other

/-- A directive, from its percent sign to the end of its line. -/
def scanDirective : Scan Token := do
  skip 1
  let name ← take isWordChar
  if name = [] then fail "a directive has no name"
  if !endsItem (← peek) then fail "unexpected character in the name of a directive"
  let declared ← scanDeclaration name
  scanLineEnd
  return .directive declared

end Yaml

end IgnoredPaths
