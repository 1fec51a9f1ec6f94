import IgnoredPaths.Text.Basic

/-!
# Regular expressions

The part of the pattern language that globs are translated to, read and understood without
regard to globs: characters, escaped characters, the dot, sets of characters, groups without a
number, and the quantifiers `*` and `?`. Everything else is refused, also where a larger
pattern language gives it a meaning (anchors, alternatives, numbered groups, counted, lazy and
possessive quantifiers), so a text that is read here means the same in every larger language.

- `Regex.Matches`: the texts that an expression matches as a whole. A search with backtracking
  finds a match of the whole text exactly if there is one, whatever it tries first.
- `Regex.read?`: the expression that a text spells. The reader goes from character to
  character and takes a quantifier for the atom that it has just read, so a character that is
  wrongly left unescaped changes the atom before it or stops the reader.
-/

namespace IgnoredPaths

/-- A regular expression. -/
inductive Regex where
  /-- Matches the empty text. -/
  | empty
  /-- Matches one character. -/
  | char (c : Char)
  /-- Matches every character but a line feed. -/
  | dot
  /-- Matches one of some characters, or every character but these. -/
  | set (negated : Bool) (members : List Char)
  | seq (a b : Regex)
  | star (a : Regex)
  | optional (a : Regex)
  deriving DecidableEq, Repr

namespace Regex

/-- The texts that an expression matches as a whole. -/
def Matches : Regex → Text → Prop
  | .empty, s => s = []
  | .char c, s => s = [c]
  | .dot, s => ∃ c, c ≠ '\n' ∧ s = [c]
  | .set negated members, s => ∃ c, members.contains c = !negated ∧ s = [c]
  | .seq a b, s => ∃ u v, s = u ++ v ∧ a.Matches u ∧ b.Matches v
  | .star a, s => ∃ parts : List Text, s = parts.flatten ∧ ∀ part ∈ parts, a.Matches part
  | .optional a, s => s = [] ∨ a.Matches s

/-- Some expressions one after another. -/
def ofItems (items : List Regex) : Regex := items.foldr .seq .empty

/-- Repeated, an expression for the characters of a class matches every text over the class. -/
theorem matches_star_of_iff {a : Regex} {ok : Char → Prop}
    (h : ∀ s, a.Matches s ↔ ∃ c, ok c ∧ s = [c]) (s : Text) :
    (star a).Matches s ↔ ∀ c ∈ s, ok c := by
  constructor
  · rintro ⟨parts, rfl, hparts⟩ c hc
    obtain ⟨part, hpart, hc⟩ := List.mem_flatten.mp hc
    obtain ⟨d, hd, rfl⟩ := (h part).mp (hparts part hpart)
    exact List.mem_singleton.mp hc ▸ hd
  · intro hs
    have hcut : s = (s.map fun c => [c]).flatten := by
      rw [← List.flatMap_def, List.flatMap_singleton']
    refine ⟨s.map fun c => [c], hcut, fun part hpart => ?_⟩
    obtain ⟨c, hc, rfl⟩ := List.mem_map.mp hpart
    exact (h _).mpr ⟨c, hs c hc, rfl⟩

/-! ## Reading -/

/-- What the reader is in the middle of. -/
inductive Mode where
  /-- Between two items. -/
  | item
  /-- Behind a backslash. -/
  | escape
  /-- Behind the bracket that opens a set. -/
  | setStart
  /-- In a set, with the members read so far, the latest first. -/
  | set (negated : Bool) (members : List Char)
  /-- Behind the parenthesis that opens a group. -/
  | groupStart
  /-- Behind the parenthesis and the question mark that open a group. -/
  | groupMark
  deriving DecidableEq, Repr

/-- The state of the reader. -/
structure Reader where
  mode : Mode
  /-- The items of the sequences around the open groups, each with the latest first. -/
  outer : List (List Regex)
  /-- The items of the current sequence, the latest first. -/
  items : List Regex
  /-- Whether the latest item is an atom that a quantifier may follow. -/
  atom : Bool
  deriving DecidableEq, Repr

namespace Reader

/-- The reader before the first character. -/
def start : Reader := ⟨.item, [], [], false⟩

/-- The reader after a whole atom. -/
def push (r : Reader) (a : Regex) : Reader := ⟨.item, r.outer, a :: r.items, true⟩

/-- The reader after a quantifier, if there is an atom for it. -/
def quantify? (r : Reader) (f : Regex → Regex) : Option Reader :=
  match r.items with
  | a :: items => if r.atom then some ⟨.item, r.outer, f a :: items, false⟩ else none
  | [] => none

/-- The reader after the end of a group, if one is open. -/
def close? (r : Reader) : Option Reader :=
  match r.outer with
  | around :: outer => some ⟨.item, outer, ofItems r.items.reverse :: around, true⟩
  | [] => none

/-- The reader after a character between two items. -/
def item? (r : Reader) (c : Char) : Option Reader :=
  match c with
  | '\\' => some { r with mode := .escape }
  | '[' => some { r with mode := .setStart }
  | '(' => some { r with mode := .groupStart }
  | ')' => r.close?
  | '.' => some (r.push .dot)
  | '*' => r.quantify? .star
  | '?' => r.quantify? .optional
  | '+' | '\x7b' | '|' | '^' | '$' => none
  | c => some (r.push (.char c))

/-- The reader after a member of a set. -/
def member? (r : Reader) (negated : Bool) (members : List Char) (c : Char) : Option Reader :=
  if c = '\\' ∨ c = '[' ∨ c = '-' then none
  else some { r with mode := .set negated (c :: members) }

/-- The reader after one more character, unless it makes no sense there. -/
def step? (r : Reader) (c : Char) : Option Reader :=
  match r.mode with
  | .item => r.item? c
  | .escape => if c.isAlphanum then none else some (r.push (.char c))
  | .setStart => if c = '^' then some { r with mode := .set true [] } else r.member? false [] c
  | .set negated members =>
    if c = ']' ∧ members ≠ [] then some (r.push (.set negated members.reverse))
    else r.member? negated members c
  | .groupStart => if c = '?' then some { r with mode := .groupMark } else none
  | .groupMark => if c = ':' then some ⟨.item, r.items :: r.outer, [], false⟩ else none

theorem step?_item {r : Reader} (h : r.mode = .item) (c : Char) : r.step? c = r.item? c := by
  rw [step?, h]

/-- What is escaped stands for itself, unless it is a letter or a digit. -/
theorem step?_escape {r : Reader} (h : r.mode = .escape) {c : Char} (hc : c.isAlphanum = false) :
    r.step? c = some (r.push (.char c)) := by
  simp only [step?, h, hc, Bool.false_eq_true, if_false]

/-- The reader after some characters. -/
def run? : Reader → Text → Option Reader
  | r, [] => some r
  | r, c :: s => (r.step? c).bind fun r => r.run? s

/-- What was read, if nothing is open. -/
def finish? (r : Reader) : Option Regex :=
  if r.mode = .item ∧ r.outer = [] then some (ofItems r.items.reverse) else none

/-- One character is one step. -/
theorem run?_singleton (r : Reader) (c : Char) : r.run? [c] = r.step? c := by
  rw [run?]
  cases r.step? c <;> rfl

/-- The characters of two texts are read one text after the other. -/
theorem run?_append : ∀ (r : Reader) (s t : Text),
    r.run? (s ++ t) = (r.run? s).bind fun r => r.run? t
  | _, [], _ => rfl
  | r, c :: s, t => by
    rw [List.cons_append, run?, run?]
    cases r.step? c with
    | none => rfl
    | some r => exact run?_append r s t

end Reader

/-- The expression that a text spells, if it is well formed. -/
def read? (s : Text) : Option Regex := (Reader.start.run? s).bind Reader.finish?

end Regex

end IgnoredPaths
