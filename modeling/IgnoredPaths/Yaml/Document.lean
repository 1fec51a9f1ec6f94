import IgnoredPaths.Yaml.Node

/-!
# The value of a document

Scalars become values by their tags. A mapping with a merge key first takes over the entries
of the mappings there, which its own entries may replace; of several entries with the same key
the last one counts.

- `Node.value?`: the value of a node.
- `Yaml.parse`: the value of a document; that of an empty one is `null`.
-/

namespace IgnoredPaths

namespace Yaml

namespace Node

/-- What a node is declared to be. -/
def tag : Node → Tag
  | .scalar tag _ => tag
  | .sequence tag _ => tag
  | .mapping tag _ => tag

/-- A text in place of the key that stands for a whole mapping. -/
def plainKey : Node → Node
  | .scalar .value s => .scalar .text s
  | n => n

/-- The entries of a mapping with those that it takes over in front. -/
def mergedEntries : Nat → List (Node × Node) → Except Problem (List (Node × Node))
  | 0, _ => .error (.grammar "a mapping is too deep")
  | fuel + 1, entries => do
    let mergeOf (n : Node) : Except Problem (List (Node × Node)) :=
      match n with
      | .mapping _ entries => mergedEntries fuel entries
      | _ => .error (.grammar "only mappings can be merged")
    let taken ← (entries.filter (·.1.tag = .merge)).mapM fun p =>
      match p.2 with
      | .sequence _ items => do
        let parts ← items.mapM mergeOf
        return parts.reverse.flatten
      | n => mergeOf n
    let own := (entries.filter (·.1.tag ≠ .merge)).map fun p => (p.1.plainKey, p.2)
    return taken.flatten ++ own

/-- The text of a node that is declared as a scalar: its own, or that of the entry that stands for
a whole mapping. -/
def scalarText? : Nat → Node → Option Text
  | _, .scalar _ s => some s
  | 0, _ => none
  | _, .sequence _ _ => none
  | fuel + 1, .mapping _ entries =>
    (entries.find? (·.1.tag = .value)).bind fun p => scalarText? fuel p.2

/-- The value of a node, whose size bounds the recursion. -/
def valueWithin : Nat → Node → Except Problem Value
  | 0, _ => .error (.grammar "a node is too deep")
  | fuel + 1, node =>
    let fields (entries : List (Node × Node)) : Except Problem (List (Value × Value)) := do
      let entries ← mergedEntries node.size entries
      entries.foldlM (fun sofar p => do
        let key ← valueWithin fuel p.1
        if !key.isKey then throw (.grammar "a collection cannot be a key")
        return Value.put key (← valueWithin fuel p.2) sofar) []
    match node.tag, node with
    | .list, .sequence _ items => (items.mapM (valueWithin fuel)).map Value.list
    | .mapping, .mapping _ entries => (fields entries).map Value.mapping
    | .set, .mapping _ entries => (fields entries).map fun es => Value.set (es.map (·.1))
    | .pairs, .sequence _ items =>
      (items.mapM fun (item : Node) =>
        match item with
        | .mapping _ [(k, v)] => do return Value.pair (← valueWithin fuel k) (← valueWithin fuel v)
        | _ => throw (Problem.grammar "a pair is a mapping with one entry")).map Value.list
    | tag, node =>
      match scalarText? node.size node with
      | some s => tag.read s
      | none => .error (.grammar "a collection is declared as a scalar")

/-- The value of a node. -/
def value? (n : Node) : Except Problem Value := valueWithin n.size n

end Node

/-- How deep collections may be nested in a document, which is about as deep as the stack of the
usual interpreter allows. -/
def maxDepth : Nat := 480

/-- The value of a document. -/
def parse (s : Text) : Except Problem Value := do
  match ← Node.ofTokens? (← Token.ofText? s) with
  | none => return .null
  | some node => if maxDepth < node.depth then throw .tooDeep else node.value?

end Yaml

end IgnoredPaths
