import IgnoredPaths.Text.PrintableTable
import IgnoredPaths.Text.Surrogate

/-!
# Quoted text

The written form of a text inside a list or a mapping: between single quotes, or between
double quotes if it holds a single quote and no double one. A backslash, the quote itself and
the line controls are escaped by a backslash; a character without a printed form becomes
`\xhh`, `\uhhhh` or `\Uhhhhhhhh`, the shortest that holds its code point.

- `isPrintable`: whether a character stands for itself.
- `Text.quoted`: the written form.
-/

namespace IgnoredPaths

/-- Whether a character has a printed form of its own. -/
def isPrintable (c : Char) : Bool :=
  !unprintableRanges.any fun r => r.1 ≤ c.toNat && c.toNat ≤ r.2

namespace Text

/-- The escape of a character without a printed form. -/
def escapedCode (n : Nat) : Text :=
  if n < 0x100 then '\\' :: 'x' :: padded 16 2 n
  else if n < 0x10000 then '\\' :: 'u' :: padded 16 4 n
  else '\\' :: 'U' :: padded 16 8 n

/-- A character between quotes. -/
def quotedChar (quote c : Char) : Text :=
  if c = quote || c = '\\' then ['\\', c]
  else if c = '\n' then ['\\', 'n']
  else if c = '\r' then ['\\', 'r']
  else if c = '\t' then ['\\', 't']
  else if isPrintable c then [c]
  else escapedCode (codePoint c)

/-- The written form of a text. -/
def quoted (s : Text) : Text :=
  let quote := if s.contains '\'' && !s.contains '"' then '"' else '\''
  quote :: s.flatMap (quotedChar quote) ++ [quote]

end Text

end IgnoredPaths
