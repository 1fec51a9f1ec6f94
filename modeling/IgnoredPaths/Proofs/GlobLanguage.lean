import IgnoredPaths.Glob.Language
import IgnoredPaths.Proofs.Regex
import IgnoredPaths.Rule

/-!
# The language of a glob

Three accounts of the paths that a glob stands for, and why they agree.

- `Glob.Denotes`: the language of a glob's text, read off its characters.
- `Glob.accepts`: the decision by rows; `Row.Decides` is its invariant, and
  `Piece.before_decides` says that every piece keeps it.
- `Glob.pattern`: the regular expression; `Glob.read?_pattern` says that it is well formed
  and spells one atom for each piece, so that no piece runs into its neighbour.
-/

namespace IgnoredPaths

/-! ## The language of the text -/

/-- The paths that the text of a glob stands for. The text is used up from left to right, and
stars are taken for the longest piece that they begin. -/
inductive Glob.Denotes : Text → Text → Prop where
  | done : Denotes [] []
  | directories {glob part rest : Text} (hpart : part = [] ∨ ∃ w, '\n' ∉ w ∧ part = w ++ ['/'])
      (h : Denotes glob rest) : Denotes ('*' :: '*' :: '/' :: glob) (part ++ rest)
  | anything {glob part rest : Text} (hglob : glob.head? ≠ some '/') (hpart : '\n' ∉ part)
      (h : Denotes glob rest) : Denotes ('*' :: '*' :: glob) (part ++ rest)
  | segment {glob part rest : Text} (hglob : glob.head? ≠ some '*') (hpart : '/' ∉ part)
      (h : Denotes glob rest) : Denotes ('*' :: glob) (part ++ rest)
  | one {glob rest : Text} {c : Char} (hc : c ≠ '/') (h : Denotes glob rest) :
      Denotes ('?' :: glob) (c :: rest)
  | literal {glob rest : Text} {c : Char} (hc : c ≠ '*' ∧ c ≠ '?') (h : Denotes glob rest) :
      Denotes (c :: glob) (c :: rest)

namespace Glob

/-- Two stars are one piece, unless a slash joins them. -/
theorem ofText_anything {glob : Text} (h : glob.head? ≠ some '/') :
    ofText ('*' :: '*' :: glob) = .anything :: ofText glob := by
  rw [ofText]
  rintro r rfl
  exact h rfl

/-- A star is one piece, unless another one joins it. -/
theorem ofText_segment {glob : Text} (h : glob.head? ≠ some '*') :
    ofText ('*' :: glob) = .segment :: ofText glob := by
  rw [ofText]
  · rintro r rfl
    exact h rfl
  · rintro r rfl
    exact h rfl

theorem ofText_literal {glob : Text} {c : Char} (hc : c ≠ '*' ∧ c ≠ '?') :
    ofText (c :: glob) = .literal c :: ofText glob := by
  rw [ofText]
  · exact fun r hr _ => hc.1 hr
  · exact fun r hr _ => hc.1 hr
  · exact hc.1
  · exact hc.2

/-- A text that is denoted is described by the pieces of the glob. -/
theorem describes_of_denotes {glob path : Text} (h : Denotes glob path) :
    Describes (ofText glob) path := by
  induction h with
  | done => rfl
  | directories hpart _ ih => exact ⟨_, _, rfl, hpart, ih⟩
  | anything hglob hpart _ ih =>
    rw [ofText_anything hglob]
    exact ⟨_, _, rfl, hpart, ih⟩
  | segment hglob hpart _ ih =>
    rw [ofText_segment hglob]
    exact ⟨_, _, rfl, hpart, ih⟩
  | one hc _ ih => exact ⟨[_], _, rfl, ⟨_, hc, rfl⟩, ih⟩
  | literal hc _ ih =>
    rw [ofText_literal hc]
    exact ⟨[_], _, rfl, rfl, ih⟩

/-- A text that the pieces of a glob describe is denoted. -/
theorem denotes_of_describes (glob : Text) :
    ∀ {path : Text}, Describes (ofText glob) path → Denotes glob path := by
  fun_induction ofText glob with
  | case1 =>
    rintro path rfl
    exact .done
  | case2 r ih =>
    rintro path ⟨part, rest, rfl, hpart, h⟩
    exact .directories hpart (ih h)
  | case3 r hr ih =>
    rintro path ⟨part, rest, rfl, hpart, h⟩
    refine .anything ?_ hpart (ih h)
    cases r with
    | nil => exact nofun
    | cons d r => exact fun hd => hr r (by rw [Option.some.inj hd])
  | case4 r _ hr ih =>
    rintro path ⟨part, rest, rfl, hpart, h⟩
    refine .segment ?_ hpart (ih h)
    cases r with
    | nil => exact nofun
    | cons d r => exact fun hd => hr r (by rw [Option.some.inj hd])
  | case5 r ih =>
    rintro path ⟨part, rest, rfl, ⟨c, hc, rfl⟩, h⟩
    exact .one hc (ih h)
  | case6 c r _ _ hstar hmark ih =>
    rintro path ⟨part, rest, rfl, rfl, h⟩
    exact .literal ⟨hstar, hmark⟩ (ih h)

theorem denotes_iff_describes {glob path : Text} :
    Denotes glob path ↔ Describes (ofText glob) path :=
  ⟨describes_of_denotes, denotes_of_describes glob⟩

/-- Stars and question marks are never read as characters that stand for themselves. -/
theorem ne_of_literal_mem_ofText (glob : Text) :
    ∀ {c : Char}, Piece.literal c ∈ ofText glob → c ≠ '*' ∧ c ≠ '?' := by
  fun_induction ofText glob with
  | case1 => exact fun h => absurd h List.not_mem_nil
  | case2 r ih | case3 r _ ih | case4 r _ _ ih | case5 r ih =>
    intro c h
    rcases List.mem_cons.mp h with h | h
    · exact nomatch h
    · exact ih h
  | case6 d r _ _ hstar hmark ih =>
    intro c h
    rcases List.mem_cons.mp h with h | h
    · rw [Piece.literal.injEq] at h
      exact h ▸ ⟨hstar, hmark⟩
    · exact ih h

end Glob

/-! ## The decision by rows -/

namespace Row

/-- A row decides a language for a path if it holds, for every end of the path, the answer
whether that end is in the language. -/
def Decides (L : Text → Prop) : Text → List Bool → Prop
  | [], row => ∃ b, row = [b] ∧ (b = true ↔ L [])
  | c :: s, row => ∃ b later, row = b :: later ∧ (b = true ↔ L (c :: s)) ∧ Decides L s later

variable {L M : Text → Prop}

theorem Decides.first_iff : ∀ {s : Text} {row : List Bool}, Decides L s row →
    (first row = true ↔ L s)
  | [], _, ⟨_, rfl, h⟩ => h
  | _ :: _, _, ⟨_, _, rfl, h, _⟩ => h

theorem Decides.congr (hLM : ∀ s, L s ↔ M s) : ∀ {s : Text} {row : List Bool},
    Decides L s row → Decides M s row
  | [], _, ⟨b, hrow, h⟩ => ⟨b, hrow, h.trans (hLM [])⟩
  | _ :: _, _, ⟨b, later, hrow, h, hlater⟩ =>
    ⟨b, later, hrow, h.trans (hLM _), hlater.congr hLM⟩

theorem decides_atEnd : ∀ s : Text, Decides (· = []) s (atEnd s)
  | [] => ⟨true, rfl, by simp⟩
  | _ :: s => ⟨false, atEnd s, rfl, by simp, decides_atEnd s⟩

theorem Decides.either : ∀ {s : Text} {a b : List Bool}, Decides L s a → Decides M s b →
    Decides (fun s => L s ∨ M s) s (either a b)
  | [], _, _, ⟨a, rfl, ha⟩, ⟨b, rfl, hb⟩ => ⟨a || b, rfl, by rw [Bool.or_eq_true, ha, hb]⟩
  | _ :: _, _, _, ⟨a, as, rfl, ha, has⟩, ⟨b, bs, rfl, hb, hbs⟩ =>
    ⟨a || b, _, rfl, by rw [Bool.or_eq_true, ha, hb], has.either hbs⟩

/-- One character of a class, then the language of the row. -/
theorem Decides.afterOne (ok : Char → Bool) : ∀ {s : Text} {row : List Bool}, Decides L s row →
    Decides (fun s => ∃ c rest, s = c :: rest ∧ ok c = true ∧ L rest) s (afterOne ok s row)
  | [], _, ⟨_, rfl, _⟩ => ⟨false, rfl, by simp⟩
  | c :: s, _, ⟨_, later, rfl, _, hlater⟩ => by
    refine ⟨_, _, rfl, ?_, hlater.afterOne ok⟩
    rw [Bool.and_eq_true, hlater.first_iff]
    constructor
    · exact fun h => ⟨c, s, rfl, h⟩
    · rintro ⟨_, _, h, hok, hL⟩
      obtain ⟨rfl, rfl⟩ := List.cons.inj h
      exact ⟨hok, hL⟩

/-- Any number of characters of a class, then the language of the row. -/
theorem Decides.afterMany (ok : Char → Bool) : ∀ {s : Text} {row : List Bool}, Decides L s row →
    Decides (fun s => ∃ part rest, s = part ++ rest ∧ (∀ c ∈ part, ok c = true) ∧ L rest) s
      (afterMany ok s row)
  | [], _, ⟨b, rfl, hb⟩ => by
    refine ⟨b, rfl, hb.trans ⟨fun h => ⟨[], [], rfl, nofun, h⟩, ?_⟩⟩
    rintro ⟨part, rest, h, -, hL⟩
    obtain ⟨-, rfl⟩ := List.append_eq_nil_iff.mp h.symm
    exact hL
  | c :: s, _, ⟨b, later, rfl, hb, hlater⟩ => by
    have ih := hlater.afterMany ok
    refine ⟨_, _, rfl, ?_, ih⟩
    rw [Bool.or_eq_true, Bool.and_eq_true, hb, ih.first_iff]
    constructor
    · rintro (h | ⟨hok, part, rest, rfl, hpart, hL⟩)
      · exact ⟨[], _, rfl, nofun, h⟩
      · refine ⟨c :: part, rest, rfl, fun d hd => ?_, hL⟩
        rcases List.mem_cons.mp hd with rfl | hd
        · exact hok
        · exact hpart d hd
    · rintro ⟨part, rest, h, hpart, hL⟩
      cases part with
      | nil => exact .inl (h ▸ hL)
      | cons d part =>
        obtain ⟨rfl, rfl⟩ := List.cons.inj h
        exact .inr ⟨hpart c List.mem_cons_self, part, rest, rfl,
          fun d hd => hpart d (List.mem_cons_of_mem c hd), hL⟩

/-- A text within a line, a slash, then the language of the row. -/
theorem Decides.afterSlash : ∀ {s : Text} {row : List Bool}, Decides L s row →
    Decides (fun s => ∃ w rest, s = w ++ '/' :: rest ∧ '\n' ∉ w ∧ L rest) s (afterSlash s row)
  | [], _, ⟨_, rfl, _⟩ => ⟨false, rfl, by simp⟩
  | c :: s, _, ⟨b, later, rfl, hb, hlater⟩ => by
    have ih := hlater.afterSlash
    refine ⟨_, _, rfl, ?_, ih⟩
    rw [Bool.or_eq_true, Bool.and_eq_true, Bool.and_eq_true, decide_eq_true_iff,
      decide_eq_true_iff, hlater.first_iff, ih.first_iff]
    constructor
    · rintro (⟨rfl, h⟩ | ⟨hc, w, rest, rfl, hw, hL⟩)
      · exact ⟨[], s, rfl, List.not_mem_nil, h⟩
      · refine ⟨c :: w, rest, rfl, fun hm => ?_, hL⟩
        rcases List.mem_cons.mp hm with h | h
        · exact hc h.symm
        · exact hw h
    · rintro ⟨w, rest, h, hw, hL⟩
      cases w with
      | nil =>
        obtain ⟨rfl, rfl⟩ := List.cons.inj h
        exact .inl ⟨rfl, hL⟩
      | cons d w =>
        obtain ⟨rfl, rfl⟩ := List.cons.inj h
        exact .inr ⟨fun hc => hw (hc ▸ List.mem_cons_self), w, rest, rfl,
          fun hm => hw (List.mem_cons_of_mem c hm), hL⟩

end Row

/-- A piece in front of a language: what it covers, then a text of the language. -/
def Piece.Before (piece : Piece) (L : Text → Prop) (s : Text) : Prop :=
  ∃ part rest, s = part ++ rest ∧ piece.Covers part ∧ L rest

/-- A piece turns the row of a language into that of the language with the piece in front. -/
theorem Piece.before_decides (piece : Piece) {L : Text → Prop} {s : Text} {row : List Bool}
    (h : Row.Decides L s row) : Row.Decides (piece.Before L) s (piece.before s row) := by
  cases piece with
  | literal d =>
    refine (h.afterOne _).congr fun s => ?_
    simp only [decide_eq_true_iff]
    constructor
    · rintro ⟨_, rest, rfl, rfl, hL⟩
      exact ⟨_, rest, rfl, rfl, hL⟩
    · rintro ⟨_, rest, rfl, rfl, hL⟩
      exact ⟨_, rest, rfl, rfl, hL⟩
  | one =>
    refine (h.afterOne _).congr fun s => ?_
    simp only [decide_eq_true_iff]
    constructor
    · rintro ⟨c, rest, rfl, hc, hL⟩
      exact ⟨[c], rest, rfl, ⟨c, hc, rfl⟩, hL⟩
    · rintro ⟨_, rest, rfl, ⟨c, hc, rfl⟩, hL⟩
      exact ⟨c, rest, rfl, hc, hL⟩
  | segment =>
    refine (h.afterMany _).congr fun s => ?_
    simp only [decide_eq_true_iff, Piece.Before, Piece.Covers, ne_eq, List.forall_mem_ne']
  | anything =>
    refine (h.afterMany _).congr fun s => ?_
    simp only [decide_eq_true_iff, Piece.Before, Piece.Covers, ne_eq, List.forall_mem_ne']
  | directories =>
    refine (h.either h.afterSlash).congr fun s => ?_
    constructor
    · rintro (hL | ⟨w, rest, rfl, hw, hL⟩)
      · exact ⟨[], s, rfl, .inl rfl, hL⟩
      · exact ⟨w ++ ['/'], rest, by simp, .inr ⟨w, hw, rfl⟩, hL⟩
    · rintro ⟨_, rest, rfl, rfl | ⟨w, hw, rfl⟩, hL⟩
      · exact .inl hL
      · exact .inr ⟨w, rest, by simp, hw, hL⟩

/-- The row of a glob decides what the glob describes. -/
theorem Glob.row_decides (path : Text) :
    ∀ glob : Glob, Row.Decides (Glob.Describes glob) path (glob.row path)
  | [] => Row.decides_atEnd path
  | piece :: glob => piece.before_decides (row_decides path glob)

/-- A glob accepts what it describes. -/
theorem Glob.accepts_iff_describes {glob : Glob} {path : Text} :
    glob.accepts path = true ↔ Glob.Describes glob path :=
  (row_decides path glob).first_iff

/-! ## The regular expression -/

namespace Piece

/-- The atom that the pattern of a piece spells. -/
def regex : Piece → Regex
  | .literal c => .char c
  | .one => .set true ['/']
  | .segment => .star (.set true ['/'])
  | .anything => .star .dot
  | .directories => .optional (Regex.ofItems [.star .dot, .char '/'])

theorem pattern_literal (c : Char) :
    pattern (.literal c) = if isSpecial c then ['\\', c] else [c] := rfl

/-- Characters with a meaning may be escaped: none of them is a letter or a digit. -/
theorem not_isAlphanum_of_isSpecial {c : Char} (h : isSpecial c = true) :
    c.isAlphanum = false := by
  have hall : "+()^$.\x7b\x7d[]|\\".toList.all (fun d => !d.isAlphanum) = true := by decide
  have hc := List.all_eq_true.mp hall c (List.contains_iff_mem.mp h)
  rwa [Bool.not_eq_true'] at hc

/-- A character without a meaning spells itself. -/
theorem item?_of_not_isSpecial {c : Char} (h : isSpecial c = false) (hc : c ≠ '*' ∧ c ≠ '?')
    (r : Regex.Reader) : r.item? c = some (r.push (.char c)) := by
  have hne : ∀ d, isSpecial d = true → c ≠ d := by
    rintro d hd rfl
    rw [h] at hd
    exact Bool.false_ne_true hd
  -- the last case of the reader, behind one for each character that it reads otherwise
  rw [Regex.Reader.item?]
  · exact hne _ (by decide)
  · exact hne _ (by decide)
  · exact hne _ (by decide)
  · exact hne _ (by decide)
  · exact hne _ (by decide)
  · exact hc.1
  · exact hc.2
  · exact hne _ (by decide)
  · exact hne _ (by decide)
  · exact hne _ (by decide)
  · exact hne _ (by decide)
  · exact hne _ (by decide)

/-- Between two items, the pattern of a piece is read as one more item. Whether a quantifier
could follow depends on the piece, but no pattern begins with one. -/
theorem run?_pattern (piece : Piece) (hpiece : ∀ c, piece = .literal c → c ≠ '*' ∧ c ≠ '?')
    (outer : List (List Regex)) (items : List Regex) (atom : Bool) :
    ∃ atom', Regex.Reader.run? ⟨.item, outer, items, atom⟩ piece.pattern =
      some ⟨.item, outer, piece.regex :: items, atom'⟩ := by
  cases piece with
  | literal c =>
    refine ⟨true, ?_⟩
    by_cases h : isSpecial c = true
    · have hbackslash : Regex.Reader.step? ⟨.item, outer, items, atom⟩ '\\' =
          some ⟨.escape, outer, items, atom⟩ := rfl
      rw [pattern_literal, if_pos h, Regex.Reader.run?, hbackslash, Option.bind_some,
        Regex.Reader.run?_singleton,
        Regex.Reader.step?_escape rfl (not_isAlphanum_of_isSpecial h)]
      rfl
    · rw [pattern_literal, if_neg h, Regex.Reader.run?_singleton, Regex.Reader.step?_item rfl,
        item?_of_not_isSpecial (Bool.eq_false_iff.mpr h) (hpiece c rfl)]
      rfl
  | one => exact ⟨true, rfl⟩
  | segment => exact ⟨false, rfl⟩
  | anything => exact ⟨false, rfl⟩
  | directories => exact ⟨false, rfl⟩

/-- The atom of a piece matches the texts that the piece covers. -/
theorem matches_regex (piece : Piece) (s : Text) : piece.regex.Matches s ↔ piece.Covers s := by
  have hone : ∀ s : Text, (Regex.set true ['/']).Matches s ↔ ∃ c, c ≠ '/' ∧ s = [c] := by
    intro s
    simp [Regex.Matches]
  have hline : ∀ s : Text, (Regex.star .dot).Matches s ↔ '\n' ∉ s := by
    intro s
    rw [Regex.matches_star_of_iff fun _ => Iff.rfl, List.forall_mem_ne']
  cases piece with
  | literal c => exact Iff.rfl
  | one => exact hone s
  | segment =>
    rw [regex, Covers, Regex.matches_star_of_iff hone, List.forall_mem_ne']
  | anything =>
    rw [regex, Covers, hline]
  | directories =>
    show (s = [] ∨ ∃ u v, s = u ++ v ∧ (Regex.star .dot).Matches u ∧
      ∃ v₁ v₂, v = v₁ ++ v₂ ∧ v₁ = ['/'] ∧ v₂ = []) ↔ _
    refine or_congr_right ⟨?_, ?_⟩
    · rintro ⟨u, _, rfl, hu, _, _, rfl, rfl, rfl⟩
      exact ⟨u, (hline u).mp hu, rfl⟩
    · rintro ⟨w, hw, rfl⟩
      exact ⟨w, _, rfl, (hline w).mpr hw, ['/'], [], rfl, rfl, rfl⟩

end Piece

namespace Glob

/-- The expression that the pattern of a glob spells. -/
def regex (glob : Glob) : Regex := Regex.ofItems (glob.map Piece.regex)

theorem run?_pattern : ∀ (glob : Glob), (∀ c, Piece.literal c ∈ glob → c ≠ '*' ∧ c ≠ '?') →
    ∀ (items : List Regex) (atom : Bool),
      ∃ atom', Regex.Reader.run? ⟨.item, [], items, atom⟩ (pattern glob) =
        some ⟨.item, [], (glob.map Piece.regex).reverse ++ items, atom'⟩
  | [], _, _, atom => ⟨atom, rfl⟩
  | piece :: glob, h, items, atom => by
    obtain ⟨here, hhere⟩ := piece.run?_pattern
      (fun c hc => h c (hc ▸ List.mem_cons_self)) [] items atom
    obtain ⟨later, hlater⟩ := run?_pattern glob (fun c hc => h c (List.mem_cons_of_mem _ hc))
      (piece.regex :: items) here
    refine ⟨later, ?_⟩
    have hpattern : pattern (piece :: glob) = piece.pattern ++ pattern glob := rfl
    rw [hpattern, Regex.Reader.run?_append, hhere, Option.bind_some, hlater]
    simp

/-- The pattern of a glob that was read from text is well formed and spells its pieces. -/
theorem read?_pattern {glob : Glob} (h : ∀ c, Piece.literal c ∈ glob → c ≠ '*' ∧ c ≠ '?') :
    Regex.read? (pattern glob) = some (regex glob) := by
  obtain ⟨atom, hrun⟩ := run?_pattern glob h [] false
  rw [Regex.read?, Regex.Reader.start, hrun, Option.bind_some, Regex.Reader.finish?,
    if_pos ⟨rfl, rfl⟩, List.append_nil, List.reverse_reverse]
  rfl

/-- The expression of a glob matches what the glob describes. -/
theorem matches_regex : ∀ (glob : Glob) (path : Text),
    (regex glob).Matches path ↔ Describes glob path
  | [], _ => Iff.rfl
  | piece :: glob, path => by
    show (∃ u v, path = u ++ v ∧ piece.regex.Matches u ∧ (regex glob).Matches v) ↔ _
    simp only [piece.matches_regex, matches_regex glob]
    rfl

end Glob

namespace Rule

/-- The text of the glob that a line means, step by step: the line is trimmed, one negation sign
is taken off, backslashes become slashes, the rest is trimmed again, a slash at the end is
extended to the subtree, and then either the slashes in front go or `**/` comes in front. -/
def globOfLine (line : Text) : Text :=
  let text := Text.strip line
  let text := if Text.startsWith text ['!'] then text.drop 1 else text
  let text := Text.strip (Text.swap '\\' '/' text)
  let text := if Text.endsWith text ['/'] then text ++ ['*', '*'] else text
  if Text.startsWith text ['/'] then Text.trimLeft (· = '/') text
  else if Text.startsWith text ['*', '*', '/'] then text
  else ['*', '*', '/'] ++ text

theorem anchored_eq (text : Text) : anchored text =
    if Text.startsWith text ['/'] then Text.trimLeft (· = '/') text
    else if Text.startsWith text ['*', '*', '/'] then text else ['*', '*', '/'] ++ text := by
  unfold anchored
  split
  · rfl
  · next h =>
    have hslash : ¬ Text.startsWith text ['/'] = true := by
      intro hs
      obtain ⟨r, hr⟩ := List.isPrefixOf_iff_prefix.mp hs
      exact h r hr.symm
    rw [if_neg hslash]
    rfl

/-- Without its negation sign, a line means its glob. -/
theorem globOfLine_eq (line : Text) : globOfLine line = globText (body
    (if Text.startsWith (Text.strip line) ['!'] then (Text.strip line).drop 1
      else Text.strip line)) := by
  rw [globText, anchored_eq, covering, body]
  rfl

/-- A line that is neither blank nor a comment is a rule over the glob that it means. -/
theorem exists_ofLine?_eq_some {line : Text} (hblank : Text.strip line ≠ [])
    (hcomment : Text.startsWith (Text.strip line) ['#'] = false) (order : Int) :
    ∃ rule, ofLine? line order = some rule ∧ rule.glob = Glob.ofText (globOfLine line) ∧
      rule.negation = Text.startsWith (Text.strip line) ['!'] ∧ rule.order = order := by
  rw [globOfLine_eq, ofLine?]
  generalize Text.strip line = s at hblank hcomment
  match s with
  | [] => exact absurd rfl hblank
  | c :: text =>
    have hhash : c ≠ '#' := by
      rintro rfl
      exact Bool.false_ne_true hcomment.symm
    by_cases hmark : c = '!'
    · subst hmark
      have hstart : Text.startsWith ('!' :: text) ['!'] = true := rfl
      rw [hstart, if_pos rfl]
      exact ⟨_, rfl, rfl, rfl, rfl⟩
    · have hstart : Text.startsWith (c :: text) ['!'] = false := by
        simp [Text.startsWith, List.isPrefixOf, Ne.symm hmark]
      rw [hstart, if_neg Bool.false_ne_true]
      split
      · next h => exact nomatch h
      · next h => exact absurd (List.cons.inj h).1 hhash
      · next h => exact absurd (List.cons.inj h).1 hmark
      · exact ⟨_, rfl, rfl, rfl, rfl⟩

end Rule

/-- **The pattern of a glob denotes exactly the glob's language.** It is well formed and matches,
as a whole, exactly the paths that the text of the glob denotes. And a line that is neither blank
nor a comment becomes a rule whose pattern is well formed too, and which accepts a path exactly
if its pattern matches it, that is exactly if the glob that the line means denotes it. -/
theorem pattern_matches_iff_denotes :
    (∀ glob : Text, ∃ r, Regex.read? (Glob.ofText glob).pattern = some r ∧
      ∀ path, r.Matches path ↔ Glob.Denotes glob path) ∧
    ∀ (line : Text) (order : Int), Text.strip line ≠ [] →
      Text.startsWith (Text.strip line) ['#'] = false →
      ∃ rule r, Rule.ofLine? line order = some rule ∧ Regex.read? rule.glob.pattern = some r ∧
        ∀ path, (rule.accepts path = true ↔ r.Matches path) ∧
          (rule.accepts path = true ↔ Glob.Denotes (Rule.globOfLine line) path) := by
  have hread : ∀ glob : Text, Regex.read? (Glob.ofText glob).pattern =
      some (Glob.ofText glob).regex :=
    fun glob => Glob.read?_pattern fun _ => Glob.ne_of_literal_mem_ofText glob
  constructor
  · intro glob
    refine ⟨_, hread glob, fun path => ?_⟩
    rw [Glob.matches_regex, Glob.denotes_iff_describes]
  · intro line order hblank hcomment
    obtain ⟨rule, hrule, hglob, -⟩ := Rule.exists_ofLine?_eq_some hblank hcomment order
    have hpattern := hread (Rule.globOfLine line)
    rw [← hglob] at hpattern
    refine ⟨rule, _, hrule, hpattern, fun path => ?_⟩
    rw [Rule.accepts, Glob.accepts_iff_describes, Glob.matches_regex,
      Glob.denotes_iff_describes, hglob]
    exact ⟨Iff.rfl, Iff.rfl⟩

/-- A negated directory rule: its line is no comment, and its rule accepts what lies below. -/
theorem pattern_matches_iff_denotes_directory :
    Text.strip "!tmp/ ".toList ≠ [] ∧
      Text.startsWith (Text.strip "!tmp/ ".toList) ['#'] = false ∧
      ∃ rule, Rule.ofLine? "!tmp/ ".toList 4 = some rule ∧ rule.accepts "a/tmp/b".toList = true := by
  refine ⟨by decide, by decide, ?_⟩
  obtain ⟨rule, _, hrule, -, hpath⟩ :=
    pattern_matches_iff_denotes.2 "!tmp/ ".toList 4 (by decide) (by decide)
  refine ⟨rule, hrule, (hpath _).2.mpr ?_⟩
  rw [Glob.denotes_iff_describes, ← Glob.accepts_iff_describes]
  decide

end IgnoredPaths
