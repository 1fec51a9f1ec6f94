import IgnoredPaths.Yaml.Lexer
import IgnoredPaths.Yaml.Scalar

/-!
# From tokens to nodes

A document is a node: a scalar, a sequence or a mapping, each with a tag. An alias stands for
the node of its anchor, which has to be finished by then, and no two nodes of a document have
the same anchor.

- `Yaml.Node`: the nodes.
- `Node.ofTokens?`: the node of the only document in a stream, if there is one.
-/

namespace IgnoredPaths

namespace Yaml

/-- A node of a document. -/
inductive Node where
  | scalar (tag : Tag) (text : Text)
  | sequence (tag : Tag) (items : List Node)
  | mapping (tag : Tag) (entries : List (Node × Node))

namespace Node

/-- The node of an empty scalar. -/
def empty : Node := .scalar .null []

/-- How many nodes there are in a node, itself included. -/
def size : Node → Nat
  | .scalar _ _ => 1
  | .sequence _ items => sizeItems items + 1
  | .mapping _ entries => sizeEntries entries + 1
where
  sizeItems : List Node → Nat
    | [] => 0
    | n :: rest => n.size + sizeItems rest
  sizeEntries : List (Node × Node) → Nat
    | [] => 0
    | (k, v) :: rest => k.size + v.size + sizeEntries rest

/-- How deep collections are nested in a node. -/
def depth : Node → Nat
  | .scalar _ _ => 0
  | .sequence _ items => depthOfItems items + 1
  | .mapping _ entries => depthOfEntries entries + 1
where
  depthOfItems : List Node → Nat
    | [] => 0
    | n :: rest => max n.depth (depthOfItems rest)
  depthOfEntries : List (Node × Node) → Nat
    | [] => 0
    | (k, v) :: rest => max (max k.depth v.depth) (depthOfEntries rest)

end Node

/-- What is left of the tokens, the anchors so far (without a node while it is being read), and
what the tag handles stand for. -/
structure Reader where
  tokens : List Token
  anchors : List (Text × Option Node)
  handles : List (Text × Text)

/-- Reading nodes, which may fail. -/
abbrev Read := StateT Reader (Except Problem)

namespace Read

/-- Gives up. -/
def fail {α : Type} (reason : String) : Read α := throw (.grammar reason)

/-- The next token. -/
def peek : Read Token := return ((← get).tokens.head?).getD .streamEnd

/-- Moves on to the token after the next one. -/
def skip : Read Unit := modify fun s => { s with tokens := s.tokens.tail }

/-- What an anchor and a tag in front of a node say. -/
structure Properties where
  anchor : Option Text
  tag : Option (Option Text × Text)

/-- The tag in front of a node, if there is one. -/
def readTag : Read (Option (Option Text × Text)) := do
  match ← peek with
  | .tag handle suffix =>
    skip
    return some (handle, suffix)
  | _ => return none

/-- The anchor in front of a node, if there is one. -/
def readAnchor : Read (Option Text) := do
  match ← peek with
  | .anchor name =>
    skip
    return some name
  | _ => return none

/-- An anchor and a tag in either order. -/
def readProperties : Read Properties := do
  let anchor ← readAnchor
  let tag ← readTag
  if anchor.isSome then return ⟨anchor, tag⟩
  if tag.isSome then return ⟨← readAnchor, tag⟩
  return ⟨none, none⟩

/-- The full name of a tag; the tag `!` says nothing. -/
def tagName : Option (Option Text × Text) → Read (Option Text)
  | none => return none
  | some (none, suffix) => return some suffix
  | some (some handle, suffix) => do
    match (← get).handles.lookup handle with
    | some start => return some (start ++ suffix)
    | none => fail "a tag handle stands for nothing"

/-- The tag of a collection. -/
def collectionTag (name : Option Text) (usual : Tag) : Tag :=
  match name with
  | none => usual
  | some name => if name = ['!'] then usual else .ofName name

/-- The tag of a scalar. -/
def scalarTag (name : Option Text) (plain : Bool) (text : Text) : Tag :=
  match name with
  | none => if plain then .ofPlain text else .text
  | some name => if name = ['!'] then .ofPlain text else .ofName name

/-- Begins the node of an anchor. -/
def openAnchor : Option Text → Read Unit
  | none => return
  | some name => do
    if ((← get).anchors.lookup name).isSome then fail "two nodes have the same anchor"
    modify fun s => { s with anchors := (name, none) :: s.anchors }

/-- Ends the node of an anchor. -/
def closeAnchor (name : Option Text) (node : Node) : Read Node := do
  match name with
  | none => return node
  | some name =>
    modify fun s => { s with anchors := (name, some node) :: s.anchors }
    return node

/-- The node that an alias stands for. -/
def aliased (name : Text) : Read Node := do
  match (← get).anchors.lookup name with
  | some (some node) => return node
  | some none => fail "an alias stands in the node of its anchor"
  | none => fail "an alias stands for nothing"

/-- Whether a token ends an item of a block sequence without a node. -/
def endsBlockItem : Token → Bool
  | .blockEntry | .blockEnd => true
  | _ => false

/-- Whether a token ends an item of a sequence that is not indented, without a node. -/
def endsLooseItem : Token → Bool
  | .blockEntry | .key | .value | .blockEnd => true
  | _ => false

/-- Whether a token ends a key or a value of a block mapping without a node. -/
def endsBlockPart : Token → Bool
  | .key | .value | .blockEnd => true
  | _ => false

/-- Whether a token ends a part of a flow collection without a node, given its closing token. -/
def endsFlowPart (closes : Token → Bool) (token : Token) : Bool :=
  match token with
  | .value | .flowEntry => true
  | t => closes t

/-- Whether a token closes a flow sequence. -/
def closesSequence : Token → Bool
  | .flowSequenceEnd => true
  | _ => false

/-- Whether a token closes a flow mapping. -/
def closesMapping : Token → Bool
  | .flowMappingEnd => true
  | _ => false

/-- Whether a token separates entries of a flow collection. -/
def isFlowEntry : Token → Bool
  | .flowEntry => true
  | _ => false

/-- Whether a token begins a value. -/
def isValue : Token → Bool
  | .value => true
  | _ => false

/-- Moves on behind the comma before an entry that is not the first one. -/
def readComma (first : Bool) : Read Unit := do
  if !first then
    if isFlowEntry (← peek) then skip else fail "a comma or the end of the collection is missing"

mutual

/-- A node; block collections are allowed if `block`, and sequences without an indentation of
their own if `loose`. The number bounds how deep it goes. -/
def readNode : Nat → Bool → Bool → Read Node
  | 0, _, _ => fail "a node is too deep"
  | fuel + 1, block, loose => do
    match ← peek with
    | .alias name =>
      skip
      aliased name
    | _ =>
      let properties ← readProperties
      let name ← tagName properties.tag
      let sequence (items : Read (List Node)) : Read Node := do
        openAnchor properties.anchor
        closeAnchor properties.anchor (.sequence (collectionTag name .list) (← items))
      let mapping (entries : Read (List (Node × Node))) : Read Node := do
        openAnchor properties.anchor
        closeAnchor properties.anchor (.mapping (collectionTag name .mapping) (← entries))
      let scalar (plain : Bool) (text : Text) : Read Node := do
        openAnchor properties.anchor
        closeAnchor properties.anchor (.scalar (scalarTag name plain text) text)
      match ← peek, block, loose with
      | .blockEntry, _, true => sequence (readLooseItems fuel)
      | .scalar plain text, _, _ =>
        skip
        scalar plain text
      | .flowSequenceStart, _, _ =>
        skip
        sequence (readFlowItems fuel true)
      | .flowMappingStart, _, _ =>
        skip
        mapping (readFlowEntries fuel true)
      | .blockSequenceStart, true, _ =>
        skip
        sequence (readBlockItems fuel)
      | .blockMappingStart, true, _ =>
        skip
        mapping (readBlockEntries fuel)
      | _, _, _ =>
        if properties.anchor.isSome || properties.tag.isSome then scalar true []
        else fail "a node is missing"

/-- A node, or an empty one if the next token says that there is none. -/
def readUnless : Nat → (Token → Bool) → Bool → Bool → Read Node
  | 0, _, _, _ => fail "a node is too deep"
  | fuel + 1, absent, block, loose => do
    if absent (← peek) then return .empty
    readNode fuel block loose

/-- The items of a block sequence and its end. -/
def readBlockItems : Nat → Read (List Node)
  | 0 => fail "a node is too deep"
  | fuel + 1 => do
    match ← peek with
    | .blockEntry =>
      skip
      let item ← readUnless fuel endsBlockItem true false
      return item :: (← readBlockItems fuel)
    | .blockEnd =>
      skip
      return []
    | _ => fail "the end of a sequence is missing"

/-- The items of a sequence without an indentation of its own. -/
def readLooseItems : Nat → Read (List Node)
  | 0 => fail "a node is too deep"
  | fuel + 1 => do
    match ← peek with
    | .blockEntry =>
      skip
      let item ← readUnless fuel endsLooseItem true false
      return item :: (← readLooseItems fuel)
    | _ => return []

/-- The value of an entry, if there is one. -/
def readValue : Nat → (Token → Bool) → Bool → Read Node
  | 0, _, _ => fail "a node is too deep"
  | fuel + 1, absent, block => do
    if isValue (← peek) then
      skip
      readUnless fuel absent block block
    else return .empty

/-- The entries of a block mapping and its end. -/
def readBlockEntries : Nat → Read (List (Node × Node))
  | 0 => fail "a node is too deep"
  | fuel + 1 => do
    match ← peek with
    | .key =>
      skip
      let key ← readUnless fuel endsBlockPart true true
      let value ← readValue fuel endsBlockPart true
      return (key, value) :: (← readBlockEntries fuel)
    | .blockEnd =>
      skip
      return []
    | _ => fail "the end of a mapping is missing"

/-- The items of a flow sequence and its end. An entry with a key is a mapping of its own. -/
def readFlowItems : Nat → Bool → Read (List Node)
  | 0, _ => fail "a node is too deep"
  | fuel + 1, first => do
    if closesSequence (← peek) then
      skip
      return []
    readComma first
    match ← peek with
    | .key =>
      skip
      let key ← readUnless fuel (endsFlowPart closesSequence) false false
      let value ← readValue fuel (endsFlowPart closesSequence) false
      return .mapping .mapping [(key, value)] :: (← readFlowItems fuel false)
    | .flowSequenceEnd =>
      skip
      return []
    | _ =>
      let item ← readNode fuel false false
      return item :: (← readFlowItems fuel false)

/-- The entries of a flow mapping and its end. -/
def readFlowEntries : Nat → Bool → Read (List (Node × Node))
  | 0, _ => fail "a node is too deep"
  | fuel + 1, first => do
    if closesMapping (← peek) then
      skip
      return []
    readComma first
    match ← peek with
    | .key =>
      skip
      let key ← readUnless fuel (endsFlowPart closesMapping) false false
      let value ← readValue fuel (endsFlowPart closesMapping) false
      return (key, value) :: (← readFlowEntries fuel false)
    | .flowMappingEnd =>
      skip
      return []
    | _ =>
      let key ← readNode fuel false false
      return (key, .empty) :: (← readFlowEntries fuel false)

end

/-! ## Documents -/

/-- What tag handles stand for unless a directive says otherwise. -/
def usualHandles : List (Text × Text) := [(['!'], ['!']), (['!', '!'], Tag.family)]

/-- Directives in front of a document. -/
def readDirectives : Nat → Bool → List (Text × Text) → Read (List (Text × Text))
  | 0, _, handles => return handles
  | fuel + 1, versioned, handles => do
    match ← peek with
    | .directive (.version major) =>
      if versioned then fail "two directives give a version"
      if major ≠ 1 then fail "the version of the language is not known"
      skip
      readDirectives fuel true handles
    | .directive (.tag handle start) =>
      if (handles.lookup handle).isSome then fail "two directives give the same handle"
      skip
      readDirectives fuel versioned ((handle, start) :: handles)
    | .directive .other =>
      skip
      readDirectives fuel versioned handles
    | _ => return handles

/-- Moves on behind the marks that end documents. -/
def skipDocumentEnds : Nat → Read Unit
  | 0 => return
  | fuel + 1 => do
    match ← peek with
    | .documentEnd =>
      skip
      skipDocumentEnds fuel
    | _ => return

/-- How deep the nodes in a list of tokens can be. -/
def depthBound (tokens : List Token) : Nat := 4 * tokens.length + 8

/-- A document that begins with directives or a mark. -/
def readExplicit : Read Node := do
  let count := (← get).tokens.length
  let handles ← readDirectives count false []
  match ← peek with
  | .documentStart =>
    skip
    modify fun s => { s with handles := handles ++ usualHandles }
    match ← peek with
    | .directive _ | .documentStart | .documentEnd | .streamEnd => return .empty
    | _ => readNode (depthBound (← get).tokens) true false
  | _ => fail "the beginning of a document is missing"

/-- The only document of a stream, if there is one. -/
def readStream : Read (Option Node) := do
  match ← peek with
  | .streamEnd => return none
  | token =>
    let node ←
      match token with
      | .directive _ | .documentStart => readExplicit
      | _ => readNode (depthBound (← get).tokens) true false
    skipDocumentEnds (← get).tokens.length
    match ← peek with
    | .streamEnd => return some node
    | _ => fail "there is more than one document"

end Read

/-- The node of the only document in a stream, if there is one. -/
def Node.ofTokens? (tokens : List Token) : Except Problem (Option Node) :=
  (Read.readStream.run ⟨tokens, [], Read.usualHandles⟩).map (·.1)

end Yaml

end IgnoredPaths
