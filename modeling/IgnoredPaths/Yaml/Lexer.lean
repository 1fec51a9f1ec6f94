import IgnoredPaths.Yaml.ScalarText

/-!
# From a document to its tokens

Indentation opens and closes block collections. A scalar, an alias or a flow collection may
turn out to be a key only when a colon follows it on the same line and within 1024 characters;
until then its place among the tokens is remembered, one place for each level of flow
collections, and the key token goes in there afterwards.

- `Yaml.Lexer`: the tokens so far and what is remembered.
- `Token.ofText?`: the tokens of a document.
-/

namespace IgnoredPaths

namespace Yaml

/-- A place where a key may turn out to begin. -/
structure KeyPlace where
  /-- The flow level that it is on. -/
  level : Nat
  /-- How many tokens stand before it. -/
  position : Nat
  /-- Whether nothing but a key can be there. -/
  required : Bool
  index : Nat
  line : Nat
  column : Nat

/-- The tokens so far and what is remembered between two of them. -/
structure Lexer where
  tokens : Array Token
  /-- How many flow collections are open. -/
  flow : Nat
  /-- The indentation of the innermost open block collection. -/
  indent : Int
  /-- The indentations of those around it, the innermost first. -/
  outer : List Int
  places : List KeyPlace
  /-- Whether a key may begin here. -/
  keyAllowed : Bool

/-- Reading tokens, which may fail. -/
abbrev Lex := StateT Lexer Scan

namespace Lex

/-- Gives up. -/
def fail {α : Type} (reason : String) : Lex α := throw (.grammar reason)

/-- The position in the document. -/
def cursor : Lex Cursor := liftM (n := Lex) (get : Scan Cursor)

/-- A token more. -/
def emit (token : Token) : Lex Unit := modify fun s => { s with tokens := s.tokens.push token }

/-- Says whether a key may begin next. -/
def allowKey (allowed : Bool) : Lex Unit := modify fun s => { s with keyAllowed := allowed }

/-- Forgets some of the places where a key may begin; none of them may be required. -/
def forgetPlaces (gone : KeyPlace → Bool) : Lex Unit := do
  let s ← get
  if s.places.any fun k => gone k && k.required then fail "a key has no colon"
  set { s with places := s.places.filter fun k => !gone k }

/-- Forgets the places that are on another line or too far behind. -/
def forgetStalePlaces : Lex Unit := do
  let c ← cursor
  forgetPlaces fun k => k.line ≠ c.line || 1024 < c.index - k.index

/-- Forgets the place on the current flow level. -/
def forgetPlace : Lex Unit := do
  let s ← get
  forgetPlaces fun k => k.level = s.flow

/-- Remembers that a key may begin here. -/
def rememberPlace : Lex Unit := do
  let s ← get
  let c ← cursor
  if s.keyAllowed then
    forgetPlace
    let place : KeyPlace :=
      ⟨s.flow, s.tokens.size, s.flow = 0 && s.indent = c.column, c.index, c.line, c.column⟩
    modify fun s => { s with places := place :: s.places }

/-- Closes the block collections that are indented deeper than a column. -/
def closeBlocks (column : Int) : Lex Unit := do
  let s ← get
  if s.flow = 0 then
    let closed := (s.indent :: s.outer).takeWhile (column < ·)
    let open_ := (s.indent :: s.outer).drop closed.length
    set { s with
      tokens := s.tokens ++ (closed.map fun _ => Token.blockEnd).toArray
      indent := open_.headD (-1)
      outer := open_.tail }

/-- Opens a block collection at a column, if that is deeper than the innermost one. -/
def openBlock (column : Nat) : Lex Bool := do
  let s ← get
  if s.indent < column then
    set { s with indent := (column : Int), outer := s.indent :: s.outer }
    return true
  return false

/-- Opens a block collection here, with its token, unless in a flow collection. -/
def openBlockHere (opening : Token) (what : String) : Lex Unit := do
  let s ← get
  if s.flow = 0 then
    if !s.keyAllowed then fail what
    if ← openBlock (← cursor).column then emit opening

/-! ## Tokens of each kind -/

/-- Moves on to the next token. Behind a line break in a block a key may begin. -/
def skipToToken : Nat → Lex Unit
  | 0 => return
  | fuel + 1 => do
    if (← cursor).index = 0 && (← Scan.sees mark) then Scan.skip 1
    Scan.drop (· = ' ')
    if ← Scan.sees '#' then Scan.drop (!isBreak ·)
    if (← Scan.peek).any isBreak then
      let _ ← Scan.takeBreak
      if (← get).flow = 0 then allowKey true
      skipToToken fuel

/-- The end of the document's text. -/
def lexEnd : Lex Unit := do
  closeBlocks (-1)
  forgetPlace
  modify fun s => { s with places := [], keyAllowed := false }
  emit .streamEnd

/-- A directive. -/
def lexDirective : Lex Unit := do
  closeBlocks (-1)
  forgetPlace
  allowKey false
  emit (← scanDirective)

/-- A mark that separates documents. -/
def lexDocumentMark (token : Token) : Lex Unit := do
  closeBlocks (-1)
  forgetPlace
  allowKey false
  Scan.skip 3
  emit token

/-- The beginning of a flow collection. -/
def lexFlowStart (token : Token) : Lex Unit := do
  rememberPlace
  modify fun s => { s with flow := s.flow + 1 }
  allowKey true
  Scan.skip 1
  emit token

/-- The end of a flow collection. -/
def lexFlowEnd (token : Token) : Lex Unit := do
  forgetPlace
  if (← get).flow = 0 then fail "a flow collection ends that did not begin"
  modify fun s => { s with flow := s.flow - 1 }
  allowKey false
  Scan.skip 1
  emit token

/-- The comma in a flow collection. -/
def lexFlowEntry : Lex Unit := do
  allowKey true
  forgetPlace
  Scan.skip 1
  emit .flowEntry

/-- The dash of an item. -/
def lexBlockEntry : Lex Unit := do
  openBlockHere .blockSequenceStart "an item is not allowed here"
  allowKey true
  forgetPlace
  Scan.skip 1
  emit .blockEntry

/-- The question mark of a key. -/
def lexKey : Lex Unit := do
  openBlockHere .blockMappingStart "a key is not allowed here"
  allowKey ((← get).flow = 0)
  forgetPlace
  Scan.skip 1
  emit .key

/-- The colon of a value. If a key was possible on this level it is one, and its token goes in
before it. -/
def lexValue : Lex Unit := do
  let s ← get
  match s.places.find? (·.level = s.flow) with
  | some place =>
    let opens := s.flow = 0 && s.indent < place.column
    let inserted := if opens then #[Token.blockMappingStart, Token.key] else #[Token.key]
    if opens then
      let _ ← openBlock place.column
    modify fun s => { s with
      tokens := s.tokens.extract 0 place.position ++ inserted
        ++ s.tokens.extract place.position s.tokens.size
      places := s.places.filter (·.level ≠ s.flow)
      keyAllowed := false }
  | none =>
    openBlockHere .blockMappingStart "a value is not allowed here"
    allowKey ((← get).flow = 0)
    forgetPlace
  Scan.skip 1
  emit .value

/-- A token that may be the beginning of a key, after which no other may begin. -/
def lexKeyPart (scan : Scan Token) : Lex Unit := do
  rememberPlace
  allowKey false
  emit (← scan)

/-- A block scalar, after which a key may begin. -/
def lexBlock (folded : Bool) : Lex Unit := do
  allowKey true
  forgetPlace
  emit (.scalar false (← scanBlock folded (← get).indent))

/-- A plain scalar; a key may begin after one that ended behind a line break. -/
def lexPlain : Lex Unit := do
  rememberPlace
  allowKey false
  let s ← get
  let (text, broken) ← scanPlain (s.flow ≠ 0) (s.indent + 1)
  if broken then allowKey true
  emit (.scalar true text)

/-- Whether a plain scalar may begin with a character before another one. -/
def startsPlain (flow : Bool) (c : Char) (after : Option Char) : Bool :=
  !(endsWord (some c) || "-?:,[]\x7b\x7d#&*!|>'\"%@\x60".toList.contains c)
    || (!endsWord after && (c = '-' || (!flow && (c = '?' || c = ':'))))

/-- One token, whose first character is next. -/
def lexFrom (c : Char) : Lex Unit := do
  let here ← cursor
  let after := here.peekAt 1
  let flow := (← get).flow ≠ 0
  if c = '%' && here.column = 0 then lexDirective
  else if here.column = 0 && here.seesWord ['-', '-', '-'] then lexDocumentMark .documentStart
  else if here.column = 0 && here.seesWord ['.', '.', '.'] then lexDocumentMark .documentEnd
  else if c = '[' then lexFlowStart .flowSequenceStart
  else if c = '\x7b' then lexFlowStart .flowMappingStart
  else if c = ']' then lexFlowEnd .flowSequenceEnd
  else if c = '\x7d' then lexFlowEnd .flowMappingEnd
  else if c = ',' then lexFlowEntry
  else if c = '-' && endsWord after then lexBlockEntry
  else if c = '?' && (flow || endsWord after) then lexKey
  else if c = ':' && (flow || endsWord after) then lexValue
  else if c = '*' then lexKeyPart (return .alias (← scanAnchorName))
  else if c = '&' then lexKeyPart (return .anchor (← scanAnchorName))
  else if c = '!' then lexKeyPart scanTag
  else if c = '|' && !flow then lexBlock false
  else if c = '>' && !flow then lexBlock true
  else if c = '\'' then lexKeyPart (return .scalar false (← scanQuoted false))
  else if c = '"' then lexKeyPart (return .scalar false (← scanQuoted true))
  else if startsPlain flow c after then lexPlain
  else fail "a character that no token begins with"

/-- All tokens, in at most so many rounds. -/
def lexAll : Nat → Lex Unit
  | 0 => return
  | fuel + 1 => do
    skipToToken ((← cursor).rest.length + 1)
    forgetStalePlaces
    closeBlocks (← cursor).column
    match ← Scan.peek with
    | none => lexEnd
    | some c =>
      lexFrom c
      lexAll fuel

end Lex

/-- The tokens of a document. -/
def Token.ofText? (s : Text) : Except Problem (List Token) :=
  if s.all isAllowed then do
    let start : Lexer := ⟨#[], 0, -1, [], [], true⟩
    let ((_, lexer), _) ← (Lex.lexAll (s.length + 1)).run start |>.run ⟨s, 0, 0, 0⟩
    return lexer.tokens.toList
  else .error (.grammar "a character that no document may hold")

end Yaml

end IgnoredPaths
