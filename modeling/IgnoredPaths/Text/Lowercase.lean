import IgnoredPaths.Text.CaseTable
import IgnoredPaths.Text.Basic

/-!
# Lower case

Two names are compared without regard to case by their lower-case forms. The form of a letter
is its own, with two exceptions that Unicode makes: the dotted capital `İ` becomes an `i` and
a combining dot, and a capital sigma at the end of a word becomes a final sigma.

- `lowerChar`: the lower case of a single character.
- `Text.lower`: the lower case of a text.
-/

namespace IgnoredPaths

/-- Whether a code point lies in one of some ranges. -/
def inRanges (ranges : List (Nat × Nat)) (c : Char) : Bool :=
  ranges.any fun r => r.1 ≤ c.toNat && c.toNat ≤ r.2

/-- Whether case rules look through a character. -/
def isCaseIgnorable (c : Char) : Bool := inRanges caseIgnorableRanges c

/-- Whether a character that case rules do not look through has a case. -/
def isCased (c : Char) : Bool := inRanges casedRanges c

/-- The lower case of a character outside any word. -/
def lowerChar (c : Char) : Char :=
  match lowercaseRuns.find? fun (first, last, step, _) =>
      first ≤ c.toNat && c.toNat ≤ last && (c.toNat - first) % step = 0 with
  | some (_, _, _, shift) => Char.ofNat (c.toNat + shift).toNat
  | none => c

namespace Text

/-- Whether the first character that case rules see has a case. -/
def opensCased (s : Text) : Bool :=
  match s.dropWhile isCaseIgnorable with
  | [] => false
  | c :: _ => isCased c

/-- The lower case of the rest of a text, after `before` (its last character first). -/
def lowerAfter (before : Text) : Text → Text
  | [] => []
  | c :: r =>
    let here : Text :=
      if c = 'Σ' then [if opensCased before && !opensCased r then 'ς' else 'σ']
      else if c = 'İ' then ['i', '\u0307']
      else [lowerChar c]
    here ++ lowerAfter (c :: before) r

/-- The lower case of a text. -/
def lower (s : Text) : Text := lowerAfter [] s

end Text

end IgnoredPaths
