import IgnoredPaths.CommandLine.Commands
import IgnoredPaths.Yaml.Document

/-!
# The host of the program

The commands are the same on every host. The program runs them on this one: documents are read by
the parser of this library, and the limits are those of the usual interpreter. Its streams are
UTF-8, which has no code for surrogates, whether they are bytes or not.

- `Yaml.load`: the loader.
- `Program.host`, `Program.charset`: what commands run on, and what the payload stream takes.
-/

namespace IgnoredPaths

namespace Yaml

/-- The name of what is wrong with a document, apart from its grammar. -/
def Problem.name : Problem → Text
  | .malformed _ => "grammar".toList
  | .badNumber => "number".toList
  | .hugeCodePoint => "code point".toList
  | .emptyNumber => "empty number".toList
  | .badTruthValue => "truth value".toList
  | .badMoment => "moment".toList
  | .tooDeep => "depth".toList

/-- The value of the document in a file, from its bytes. -/
def load (bytes : ByteArray) : Except LoadFailure Value :=
  match decodeText? bytes with
  | none => .error .encoding
  | some s =>
    match parse s with
    | .error (.malformed reason) => .error (.malformed reason)
    | .error p => .error (.raised p.name)
    | .ok v => .ok v

theorem load_eq_encoding_iff {bytes : ByteArray} :
    load bytes = .error .encoding ↔ decodeUtf8? bytes = none := by
  rw [load, decodeText?]
  cases decodeUtf8? bytes with
  | none => simp
  | some s =>
    simp only [Option.map_some]
    split <;> simp

end Yaml

namespace Program

/-- How many digits a number may have that is written. -/
def maxDigits : Nat := 4300

/-- How deep collections may be nested that are written. -/
def maxNesting : Nat := 900

/-- How many seconds can be slept at a time. -/
def maxSeconds : Float := 9223372036.0

/-- The host of the program. -/
def host : Host where
  load := Yaml.load
  digits := maxDigits
  nesting := maxNesting
  sleeps := fun seconds => seconds ≤ maxSeconds
  decodes := fun _ h => Yaml.load_eq_encoding_iff.mp h

/-- What the program's streams have codes for. -/
def charset : Charset where
  codes := fun c => !isStandIn c
  ascii := by
    intro c hc
    have hsmall : ¬ firstStandIn ≤ c.toNat := by
      rw [firstStandIn]
      omega
    simp [isStandIn, hsmall]

end Program

end IgnoredPaths
