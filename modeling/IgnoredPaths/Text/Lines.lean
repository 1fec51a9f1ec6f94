import IgnoredPaths.Text.Basic

/-!
# Lines of a text

Reading a text file turns each of the three ways to end a line into a line feed
(`Text.unifyBreaks`). Cutting the text into lines (`Text.lines`) then follows a wider notion
of a boundary: besides the line feed, the vertical tab, the form feed, the three upper
information separators, the next-line control and Unicode's line and paragraph separators.
A boundary at the end of the text opens no further line.
-/

namespace IgnoredPaths

/-- Whether a character ends a line once the line ends of the file are unified. -/
def isLineBoundary (c : Char) : Bool :=
  c = '\n' || c = '\x0b' || c = '\x0c' || c = '\x1c' || c = '\x1d' || c = '\x1e'
    || c = '\x85' || c = '\u2028' || c = '\u2029'

namespace Text

/-- A carriage return, alone or before a line feed, becomes a line feed. -/
def unifyBreaks : Text → Text
  | [] => []
  | '\r' :: '\n' :: r => '\n' :: unifyBreaks r
  | c :: r => (if c = '\r' then '\n' else c) :: unifyBreaks r

/-- The lines of a text, without their boundaries. -/
def lines : Text → List Text
  | [] => []
  | c :: r =>
    if isLineBoundary c then [] :: lines r
    else
      match lines r with
      | [] => [[c]]
      | l :: ls => (c :: l) :: ls

end Text

end IgnoredPaths
