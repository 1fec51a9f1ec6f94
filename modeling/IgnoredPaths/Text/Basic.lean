/-!
# Text

Every name, path and message of the library is a list of characters, so that it can be
taken apart by recursion. This module holds what is done to such a list whatever it says.

- `Text.le`: the order of text, character by character in code-point order.
- `Text.trimLeft`, `Text.trimRight`, `Text.trim`: drop a class of characters from the ends.
- `Text.swap`: put one character for another, everywhere.
- `Text.split`, `Text.joinWith`: take a text apart at a character, and put it together.
- `Text.beforeEach`: the beginnings of a text that end right before a given character.
-/

namespace IgnoredPaths

/-- A text is the list of its characters. -/
abbrev Text := List Char

namespace Text

/-- Text is ordered like a dictionary, by the code points of its characters. -/
def le (a b : Text) : Bool := !decide (b < a)

theorem le_iff {a b : Text} : le a b = true ↔ ¬ b < a := by
  simp only [le, Bool.not_eq_true', decide_eq_false_iff_not]

theorem le_trans (a b c : Text) (hab : le a b = true) (hbc : le b c = true) :
    le a c = true := by
  rw [le_iff] at hab hbc ⊢
  exact List.le_trans hab hbc

theorem le_total (a b : Text) : (le a b || le b a) = true := by
  rw [Bool.or_eq_true, le_iff, le_iff]
  exact List.le_total a b

/-- Of two different texts one comes before the other. -/
theorem lt_of_not_lt {a b : Text} (h : ¬ b < a) (hne : a ≠ b) : a < b :=
  Decidable.byContradiction fun hab => hne (List.le_antisymm h hab)

/-- The text without the characters of a class at its beginning. -/
def trimLeft (drop : Char → Bool) (s : Text) : Text := s.dropWhile drop

/-- The text without the characters of a class at its end. -/
def trimRight (drop : Char → Bool) (s : Text) : Text := (s.reverse.dropWhile drop).reverse

/-- The text without the characters of a class at either end. -/
def trim (drop : Char → Bool) (s : Text) : Text := trimRight drop (trimLeft drop s)

/-- The text with `new` in every place of `old`. -/
def swap (old new : Char) (s : Text) : Text := s.map fun c => if c = old then new else c

/-- Whether the text begins with another one. -/
def startsWith (s start : Text) : Bool := start.isPrefixOf s

/-- Whether the text ends with another one. -/
def endsWith (s ending : Text) : Bool := ending.isSuffixOf s

/-- What stands before each occurrence of a character, shortest first. -/
def beforeEach (c : Char) : Text → List Text
  | [] => []
  | d :: r => (if d = c then [[]] else []) ++ (beforeEach c r).map (d :: ·)

/-- The pieces of a text between the occurrences of a character, at least one. -/
def split (c : Char) : Text → List Text
  | [] => [[]]
  | d :: r =>
    if d = c then [] :: split c r
    else
      match split c r with
      | [] => [[d]]
      | piece :: pieces => (d :: piece) :: pieces

/-- The texts one after another, with a character between them. -/
def joinWith (c : Char) : List Text → Text
  | [] => []
  | [s] => s
  | s :: r => s ++ c :: joinWith c r

/-- No piece holds the character at which the text was split. -/
theorem not_mem_of_mem_split {c : Char} :
    ∀ {s : Text} {piece : Text}, piece ∈ split c s → c ∉ piece
  | [], piece, h => by
    rw [split, List.mem_singleton] at h
    rw [h]
    exact List.not_mem_nil
  | d :: r, piece, h => by
    rw [split] at h
    split at h
    · rcases List.mem_cons.mp h with rfl | h
      · exact List.not_mem_nil
      · exact not_mem_of_mem_split h
    · next hd =>
      have ih : ∀ piece ∈ split c r, c ∉ piece := fun _ => not_mem_of_mem_split
      split at h
      · rw [List.mem_singleton] at h
        rw [h, List.mem_singleton]
        exact fun hc => hd hc.symm
      · next first rest hsplit =>
        rw [hsplit] at ih
        rcases List.mem_cons.mp h with rfl | h
        · intro hc
          rcases List.mem_cons.mp hc with hc | hc
          · exact hd hc.symm
          · exact ih first List.mem_cons_self hc
        · exact ih piece (List.mem_cons_of_mem _ h)

/-- What stands after the last occurrence of a character, or all of the text if it is absent. -/
def afterLast (c : Char) (s : Text) : Text := (s.reverse.takeWhile (· ≠ c)).reverse

/-- What stands before the last occurrence of a character, if there is one. -/
def beforeLast? (c : Char) (s : Text) : Option Text :=
  match s.reverse.dropWhile (· ≠ c) with
  | [] => none
  | _ :: r => some r.reverse

/-- The decimal digits of a natural number. -/
def ofNat (n : Nat) : Text := Nat.toDigits 10 n

/-- The decimal digits of an integer, after a minus sign if it is negative. -/
def ofInt : Int → Text
  | .ofNat n => ofNat n
  | .negSucc n => '-' :: ofNat (n + 1)

/-- A number in a given base with at least so many digits, padded with zeros. -/
def padded (base width n : Nat) : Text :=
  let digits := Nat.toDigits base n
  List.replicate (width - digits.length) '0' ++ digits

end Text

end IgnoredPaths
