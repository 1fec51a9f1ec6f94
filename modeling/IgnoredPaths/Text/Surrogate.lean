import IgnoredPaths.Text.Basic

/-!
# Surrogates

A text may hold surrogates, which are no characters: a document can name one by an escape, and a
byte of a name that is not UTF-8 is read as one. Private characters stand in for them, the last ones
that there are. Nothing is said about texts with these private characters themselves.

- `standIn`, `isStandIn`: the characters that stand in for surrogates.
- `codePoint`: what a character means.
- `isByte`: the surrogates that are bytes.
-/

namespace IgnoredPaths

/-- The first of the private characters that stand in for surrogates. -/
def firstStandIn : Nat := 0x10F800

/-- The character that stands in for a surrogate. No two surrogates have the same one. -/
def standIn (code : Nat) : Char := Char.ofNat (firstStandIn + (code - 0xD800))

/-- Whether a character stands in for a surrogate. -/
def isStandIn (c : Char) : Bool := firstStandIn ≤ c.toNat

/-- The code point that a character means. -/
def codePoint (c : Char) : Nat := if isStandIn c then c.toNat - firstStandIn + 0xD800 else c.toNat

/-- Whether a character stands in for a byte that is not part of a UTF-8 sequence. -/
def isByte (c : Char) : Bool := 0xDC80 ≤ codePoint c && codePoint c ≤ 0xDCFF

end IgnoredPaths
