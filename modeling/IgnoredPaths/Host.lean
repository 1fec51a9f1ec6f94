import IgnoredPaths.Config.Value
import IgnoredPaths.Text.Encoding

/-!
# What the program runs on

Some of what a command does is not its own doing. A loader reads the document in a configuration
file, the interpreter writes values as text within its limits, and the system sleeps. All this is
given by a host, and the commands are the same on every host.

A document has to have a value: nothing is said about one that holds itself.

- `LoadFailure`: why a loader gives no value.
- `Value.isWritable`: whether a value is written as text within some limits.
- `Host`: the host of a command.
-/

namespace IgnoredPaths

/-- Why a loader gives no value. -/
inductive LoadFailure where
  /-- It has come to bytes that are not UTF-8. -/
  | encoding
  /-- The file does not hold a document, for a reason. -/
  | malformed (reason : Text)
  /-- It failed in a way of its own, which has a name. -/
  | raised (name : Text)
  deriving DecidableEq

namespace Value

mutual

/-- Whether a value can be written if a number may have so many digits and collections may be nested
so deep. -/
def isWritable (digits : Nat) : Nat → Value → Bool
  | _, .int n => n.natAbs < 10 ^ digits
  | 0, .list _ | 0, .mapping _ | 0, .pair _ _ | 0, .set _ => false
  | nesting + 1, .list items => areWritable digits nesting items
  | nesting + 1, .mapping entries => areEntriesWritable digits nesting entries
  | nesting + 1, .pair a b => a.isWritable digits nesting && b.isWritable digits nesting
  | nesting + 1, .set items => areWritable digits nesting items
  | _, _ => true

/-- Whether all of some items can be written. -/
def areWritable (digits nesting : Nat) : List Value → Bool
  | [] => true
  | v :: rest => v.isWritable digits nesting && areWritable digits nesting rest

/-- Whether all keys and values of some entries can be written. -/
def areEntriesWritable (digits nesting : Nat) : List (Value × Value) → Bool
  | [] => true
  | (k, v) :: rest =>
    k.isWritable digits nesting && v.isWritable digits nesting
      && areEntriesWritable digits nesting rest

end

end Value

/-- What a command runs on. -/
structure Host where
  /-- The value of the document in a file, from its bytes. They are decoded as far as they are read,
  so a document that is wrong in the beginning is refused before bytes that are not UTF-8. -/
  load : ByteArray → Except LoadFailure Value
  /-- How many digits a number may have that is written. -/
  digits : Nat
  /-- How deep collections may be nested that are written. -/
  nesting : Nat
  /-- Whether it is possible to sleep for so many seconds. -/
  sleeps : Float → Bool
  /-- Bytes that are UTF-8 are not refused as something else. -/
  decodes : ∀ bytes, load bytes = .error .encoding → decodeUtf8? bytes = none

/-- Whether a value can be written on a host. -/
def Host.writes (host : Host) (v : Value) : Bool := v.isWritable host.digits host.nesting

end IgnoredPaths
