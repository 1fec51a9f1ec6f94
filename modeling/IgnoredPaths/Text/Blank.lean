import IgnoredPaths.Text.Basic

/-!
# Blank characters

A character is blank if Unicode gives it the bidirectional class of white space, of a
paragraph separator or of a segment separator, or if it is a space separator. That is wider
than the characters one types: the four information separators `U+001C` to `U+001F` are in.

- `isBlank`: the class.
- `Text.strip`: a text without the blank characters at its ends.
-/

namespace IgnoredPaths

/-- The blank characters, as ranges of code points. -/
def blankRanges : List (Nat × Nat) :=
  [(0x09, 0x0D), (0x1C, 0x20), (0x85, 0x85), (0xA0, 0xA0), (0x1680, 0x1680), (0x2000, 0x200A),
   (0x2028, 0x2029), (0x202F, 0x202F), (0x205F, 0x205F), (0x3000, 0x3000)]

/-- Whether a character is blank. -/
def isBlank (c : Char) : Bool := blankRanges.any fun r => r.1 ≤ c.toNat && c.toNat ≤ r.2

namespace Text

/-- The text without the blank characters at either end. -/
def strip (s : Text) : Text := trim isBlank s

end Text

end IgnoredPaths
