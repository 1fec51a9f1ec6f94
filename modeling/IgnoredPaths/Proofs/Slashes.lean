import IgnoredPaths.Proofs.GlobLanguage
import IgnoredPaths.Proofs.Justification

/-!
# What the slashes of a rule mean

A line that does not begin with a slash means the same at every depth, and a line that ends with
one marks a directory and is about all that lies below it. Both are read off the ends of the glob:
the one begins with the piece for any directories, and the other ends with the piece for a slash
and the piece for anything.

The piece for any directories does not go beyond a line feed. So a rule does not reach below a
directory whose path holds one, which a name on the disk may.

- `Rule.bodyOfLine`: what a line says about paths, without the sign of a negation.
- `Glob.describes_append`, `Glob.ofText_append_slash`: a glob can be taken apart, and its text at
  a slash.
- `Rule.accepts_of_below`: what a rule without a slash in front describes, it describes below any
  directory on one line; `accepts_below_iff` says that no other directory will do.
- `Rule.exists_cut`: how a directory rule describes a path; `directoryRule_covers` says what
  follows for the directory that it marks.
-/

namespace IgnoredPaths

/-- What a line says about paths: the line is trimmed, one negation sign is taken off, backslashes
become slashes, and the rest is trimmed again. -/
def Rule.bodyOfLine (line : Text) : Text :=
  body (if Text.startsWith (Text.strip line) ['!'] then (Text.strip line).drop 1
    else Text.strip line)

namespace Glob

/-! ## Taking globs apart -/

/-- What a glob describes that is put together from two is put together from what they do. -/
theorem describes_append {a b : Glob} {path : Text} :
    Describes (a ++ b) path ↔ ∃ u v, path = u ++ v ∧ Describes a u ∧ Describes b v := by
  induction a generalizing path with
  | nil =>
    constructor
    · exact fun h => ⟨[], path, rfl, rfl, h⟩
    · rintro ⟨_, v, rfl, rfl, h⟩
      exact h
  | cons piece a ih =>
    constructor
    · rintro ⟨part, rest, rfl, hpart, h⟩
      obtain ⟨u, v, rfl, hu, hv⟩ := ih.mp h
      exact ⟨part ++ u, v, (List.append_assoc part u v).symm, ⟨part, u, rfl, hpart, hu⟩, hv⟩
    · rintro ⟨_, v, rfl, ⟨part, u, rfl, hpart, hu⟩, hv⟩
      exact ⟨part, u ++ v, List.append_assoc part u v, hpart, ih.mpr ⟨u, v, rfl, hu, hv⟩⟩

/-- A slash in a text is read as itself, unless two stars in front of it take it in. -/
theorem ofText_append_slash (s r : Text) (h : ¬ ['*', '*'] <:+ s) :
    ofText (s ++ '/' :: r) = ofText s ++ .literal '/' :: ofText r := by
  fun_induction ofText s with
  | case1 => simp [ofText]
  | case2 s ih =>
    have hs : ¬ ['*', '*'] <:+ s := fun hs => h (hs.trans ⟨['*', '*', '/'], rfl⟩)
    simp [ofText, ih hs]
  | case3 s hslash ih =>
    have hs : ¬ ['*', '*'] <:+ s := fun hs => h (hs.trans ⟨['*', '*'], rfl⟩)
    -- two stars at the end are excluded, so the slash does not join them
    cases s with
    | nil => exact absurd List.suffix_rfl h
    | cons c s =>
      have hc : (c :: s ++ '/' :: r).head? ≠ some '/' := fun hc =>
        hslash s (congrArg (· :: s) (Option.some.inj hc))
      exact (ofText_anything hc).trans (congrArg (Piece.anything :: ·) (ih hs))
  | case4 s _ hstar ih =>
    have hs : ¬ ['*', '*'] <:+ s := fun hs => h (hs.trans ⟨['*'], rfl⟩)
    have hhead : (s ++ '/' :: r).head? ≠ some '*' := by
      cases s with
      | nil => exact fun hc => absurd (Option.some.inj hc) (by decide)
      | cons c s => exact fun hc => hstar s (congrArg (· :: s) (Option.some.inj hc))
    exact (ofText_segment hhead).trans (congrArg (Piece.segment :: ·) (ih hs))
  | case5 s ih =>
    have hs : ¬ ['*', '*'] <:+ s := fun hs => h (hs.trans ⟨['?'], rfl⟩)
    exact congrArg (Piece.one :: ·) (ih hs)
  | case6 c s _ _ hstar hmark ih =>
    have hs : ¬ ['*', '*'] <:+ s := fun hs => h (hs.trans ⟨[c], rfl⟩)
    exact (ofText_literal ⟨hstar, hmark⟩).trans (congrArg (Piece.literal c :: ·) (ih hs))

end Glob

namespace Rule

/-- A rule is about what the body of its line means. -/
theorem glob_of_ofLine? {line : Text} {i : Int} {rule : Rule} (h : ofLine? line i = some rule) :
    rule.glob = Glob.ofText (globText (bodyOfLine line)) := by
  rw [ofLine?] at h
  rw [bodyOfLine]
  generalize Text.strip line = s at h
  split at h
  · cases h
  · cases h
  · cases h
    rfl
  · next hmark =>
    cases h
    have hstart : ¬ Text.startsWith s ['!'] = true := by
      rw [Text.startsWith_singleton_iff, List.head?_eq_some_iff]
      rintro ⟨r, hr⟩
      exact hmark r hr
    rw [if_neg hstart]

/-! ## No slash in front -/

/-- Without a slash in front, a glob begins with the piece for any directories. -/
theorem exists_globText_eq {body : Text} (h : Text.startsWith body ['/'] = false) :
    ∃ rest, globText body = '*' :: '*' :: '/' :: rest := by
  have hstart : ¬ Text.startsWith (covering body) ['/'] = true := by
    rw [Bool.eq_false_iff, ne_eq, Text.startsWith_singleton_iff] at h
    rw [Text.startsWith_singleton_iff, covering]
    cases body with
    | nil => decide
    | cons c body =>
      split
      · exact h
      · exact h
  rw [globText, anchored_eq, if_neg hstart]
  split
  · next hstars =>
    obtain ⟨rest, hrest⟩ := List.isPrefixOf_iff_prefix.mp hstars
    exact ⟨rest, hrest.symm⟩
  · exact ⟨covering body, rfl⟩

/-- What such a rule describes, it describes below any directory whose path is on one line. -/
theorem accepts_of_below {line dir path : Text} {i : Int} {rule : Rule}
    (hbody : Text.startsWith (bodyOfLine line) ['/'] = false) (h : ofLine? line i = some rule)
    (hdir : '\n' ∉ dir) (hpath : rule.accepts path = true) :
    rule.accepts (dir ++ '/' :: path) = true := by
  obtain ⟨glob, hglob⟩ := exists_globText_eq hbody
  rw [accepts, Glob.accepts_iff_describes, glob_of_ofLine? h, hglob] at hpath ⊢
  obtain ⟨part, rest, rfl, hpart, hrest⟩ := hpath
  -- the piece for any directories takes in the directory before what it took in so far
  refine ⟨dir ++ '/' :: part, rest, by simp, .inr ?_, hrest⟩
  rcases hpart with rfl | ⟨w, hw, rfl⟩
  · exact ⟨dir, hdir, rfl⟩
  · refine ⟨dir ++ '/' :: w, ?_, by simp⟩
    simp [hdir, hw]

end Rule

/-- **Depth does not matter on one line.** A rule whose line does not begin with a slash describes
below a directory whatever it describes by itself, and that for every such rule if and only if the
path of the directory holds no line feed. -/
theorem accepts_below_iff (dir : Text) :
    (∀ (line : Text) (i : Int) (rule : Rule), Text.startsWith (Rule.bodyOfLine line) ['/'] = false →
      Rule.ofLine? line i = some rule → ∀ path, rule.accepts path = true →
        rule.accepts (dir ++ '/' :: path) = true) ↔ '\n' ∉ dir := by
  constructor
  · -- a plain name is described below the directory only if any directories cover it
    intro h
    have hname : Glob.Describes [.directories, .literal 'x'] (dir ++ '/' :: ['x']) :=
      Glob.accepts_iff_describes.mp (h ['x'] 0 _ (by decide) rfl ['x'] (by decide))
    obtain ⟨part, _, heq, hpart, _, _, rfl, rfl, rfl⟩ := hname
    have hall : dir ++ ['/'] = part := (List.append_left_inj ['x']).mp (by simpa using heq)
    rcases hpart with rfl | ⟨w, hw, rfl⟩
    · simp at hall
    · rwa [List.append_cancel_right hall]
  · intro hdir line i rule hbody hrule path hpath
    exact Rule.accepts_of_below hbody hrule hdir hpath

/-- Below a directory whose name holds a line feed, a rule without any slash loses its files. -/
theorem newlineDirectory_not_accepted :
    let line := "*.tmp".toList
    let dir := "a\nb".toList
    Text.startsWith (Rule.bodyOfLine line) ['/'] = false ∧
      '/' ∉ dir ∧ '\\' ∉ dir ∧ '\x00' ∉ dir ∧
        ∃ rule, Rule.ofLine? line 0 = some rule ∧ rule.accepts "x.tmp".toList = true ∧
          rule.accepts (dir ++ '/' :: "x.tmp".toList) = false :=
  ⟨by decide, by decide, by decide, by decide, _, rfl, by decide, by decide⟩

namespace Rule

/-! ## A slash at the end -/

/-- The glob of a directory rule ends with a slash and two stars, of which the slash stands for
itself, unless all of it are the two stars. -/
theorem globText_of_directory {s : Text} (h : ¬ ['*', '*'] <:+ s) :
    globText (s ++ ['/']) = ['*', '*'] ∨
      ∃ front, ¬ ['*', '*'] <:+ front ∧ globText (s ++ ['/']) = front ++ '/' :: ['*', '*'] := by
  have hcovering : covering (s ++ ['/']) = s ++ '/' :: ['*', '*'] := by
    have hends : Text.endsWith (s ++ ['/']) ['/'] = true :=
      List.isSuffixOf_iff_suffix.mpr (List.suffix_append s ['/'])
    rw [covering, if_pos hends, List.append_assoc]
    rfl
  rw [globText, hcovering, anchored_eq]
  split
  · -- nothing is left of the slashes in front, or an end of what stands before the last one
    rw [Text.trimLeft, List.dropWhile_append]
    split
    · exact .inl rfl
    · exact .inr ⟨_, fun hstars => h (hstars.trans (List.dropWhile_suffix _)), rfl⟩
  · split
    · exact .inr ⟨s, h, rfl⟩
    · refine .inr ⟨'*' :: '*' :: '/' :: s, ?_, rfl⟩
      simp [List.suffix_cons_iff, h]

/-- A directory rule describes whatever is on one line, or what it describes is cut at a slash:
what may stand in front is settled by the rule, and behind the slash stands anything that is on
one line. -/
theorem exists_cut {line : Text} {i : Int} {rule : Rule} (h : ofLine? line i = some rule)
    (hslash : Text.endsWith (bodyOfLine line) ['/'] = true)
    (hstars : Text.endsWith (bodyOfLine line) ['*', '*', '/'] = false) :
    (∀ path, rule.accepts path = true ↔ '\n' ∉ path) ∨
      ∃ front : Glob, ∀ path, rule.accepts path = true ↔
        ∃ u rest, path = u ++ '/' :: rest ∧ front.Describes u ∧ '\n' ∉ rest := by
  obtain ⟨s, hs⟩ := List.isSuffixOf_iff_suffix.mp hslash
  have hfront : ¬ ['*', '*'] <:+ s := by
    rintro ⟨r, rfl⟩
    refine Bool.false_ne_true (hstars.symm.trans (List.isSuffixOf_iff_suffix.mpr ⟨r, ?_⟩))
    rw [← hs, List.append_assoc]
    rfl
  have hanything : ∀ path, Glob.Describes [.anything] path ↔ '\n' ∉ path := by
    intro path
    constructor
    · rintro ⟨part, _, rfl, hpart, rfl⟩
      rwa [List.append_nil]
    · exact fun h => ⟨path, [], (List.append_nil path).symm, h, rfl⟩
  simp only [accepts, Glob.accepts_iff_describes, glob_of_ofLine? h, ← hs]
  rcases globText_of_directory hfront with hglob | ⟨front, hstars, hglob⟩
  · rw [hglob]
    exact .inl hanything
  · rw [hglob, Glob.ofText_append_slash front _ hstars]
    refine .inr ⟨Glob.ofText front, fun path => Glob.describes_append.trans ?_⟩
    constructor
    · rintro ⟨u, _, rfl, hu, _, rest, rfl, rfl, hrest⟩
      exact ⟨u, rest, rfl, hu, (hanything rest).mp hrest⟩
    · rintro ⟨u, rest, rfl, hu, hrest⟩
      exact ⟨u, _, rfl, hu, ['/'], rest, rfl, rfl, (hanything rest).mpr hrest⟩

/-- A slash in the path of what stands for a directory's contents is in the path of the directory or
right behind it, as there is none in the name of the probe. -/
theorem exists_append_of_probe {dir u rest : Text} (h : Pass.probe dir = u ++ '/' :: rest) :
    ∃ more, dir ++ ['/'] = u ++ '/' :: more := by
  rcases List.append_eq_append_iff.mp h with ⟨c, rfl, hc⟩ | ⟨c, rfl, hc⟩
  · cases c with
    | nil => exact ⟨[], by rw [List.append_nil]⟩
    | cons d c =>
      have hslash : '/' ∈ probeName :=
        (List.cons.inj hc).2 ▸ List.mem_append_right c List.mem_cons_self
      exact absurd hslash (by decide)
  · cases c with
    | nil => exact ⟨[], by rw [List.append_nil]⟩
    | cons d c =>
      obtain ⟨rfl, -⟩ := List.cons.inj hc
      exact ⟨c ++ ['/'], by simp⟩

/-- A directory rule that describes a directory or what stands for its contents describes all that
is on one line below it. -/
theorem accepts_of_marked {line dir path : Text} {i : Int} {rule : Rule}
    (h : ofLine? line i = some rule) (hslash : Text.endsWith (bodyOfLine line) ['/'] = true)
    (hstars : Text.endsWith (bodyOfLine line) ['*', '*', '/'] = false) (hdir : '\n' ∉ dir)
    (hpath : '\n' ∉ path)
    (hmarked : rule.accepts dir = true ∨ rule.accepts (Pass.probe dir) = true) :
    rule.accepts (dir ++ '/' :: path) = true := by
  rcases exists_cut h hslash hstars with hall | ⟨front, hcut⟩
  · rw [hall]
    simp [hdir, hpath]
  · rw [hcut]
    -- behind the slash stands an end of the directory's path and a slash, or nothing
    have hbefore : ∃ u more, dir ++ ['/'] = u ++ '/' :: more ∧ front.Describes u := by
      rcases hmarked with hmarked | hmarked
      · obtain ⟨u, rest, rfl, hu, -⟩ := (hcut _).mp hmarked
        exact ⟨u, rest ++ ['/'], by simp, hu⟩
      · obtain ⟨u, rest, heq, hu, -⟩ := (hcut _).mp hmarked
        obtain ⟨more, hmore⟩ := exists_append_of_probe heq
        exact ⟨u, more, hmore, hu⟩
    obtain ⟨u, more, heq, hu⟩ := hbefore
    have hmore : '\n' ∉ more := by
      intro hm
      have hall : '\n' ∈ dir ++ ['/'] := heq ▸ List.mem_append_right u (List.mem_cons_of_mem _ hm)
      simp [hdir] at hall
    refine ⟨u, more ++ path, ?_, hu, by simp [hmore, hpath]⟩
    rw [← List.singleton_append, ← List.append_assoc, heq]
    simp

/-! ## Negations further down -/

/-- Whether a negation that stands behind a rule describes a path. -/
def NegatedBehind (rules : List Rule) (rule : Rule) (path : Text) : Prop :=
  ∃ other ∈ rules, other.negation = true ∧ rule.order < other.order ∧ other.accepts path = true

instance (rules : List Rule) (rule : Rule) (path : Text) :
    Decidable (NegatedBehind rules rule path) :=
  inferInstanceAs (Decidable (∃ other ∈ rules, _))

/-- A path that a rule describes, and that is written as rules see it, is ignored unless a negation
that stands behind the rule takes it back. -/
theorem ignores_or_negatedBehind {rules : List Rule} {rule : Rule} {path : Text}
    (horder : rules.Pairwise (·.order < ·.order)) (hrule : rule ∈ rules)
    (hnegation : rule.negation = false) (hcanonical : ProjectPath.canonical path = path)
    (hpath : rule.accepts path = true) :
    ignores rules path = true ∨ NegatedBehind rules rule path := by
  have hdecides := decides_deciding? horder path
  rw [ignores, verdict]
  cases hdeciding : deciding? rules path with
  | none =>
    rw [hdeciding] at hdecides
    have hnone := hdecides rule hrule
    rw [hcanonical, hpath] at hnone
    cases hnone
  | some other =>
    rw [hdeciding] at hdecides
    obtain ⟨hother, haccepts, hlast⟩ := hdecides
    rw [hcanonical] at haccepts hlast
    cases hkind : other.negation with
    | false => exact .inl (by simp [hkind])
    | true =>
      -- a rule of the same order would be the rule itself, which is no negation
      have hne : rule.order ≠ other.order := by
        intro heq
        have hnodup : (rules.map (·.order)).Nodup := by
          rw [List.nodup_iff_pairwise_ne, List.pairwise_map]
          exact horder.imp Int.ne_of_lt
        have hsame := List.inj_on_of_nodup_map hnodup hrule hother heq
        rw [hsame, hkind] at hnegation
        cases hnegation
      have hle := hlast rule hrule hpath
      exact .inr ⟨other, hother, hkind, by omega, haccepts⟩

end Rule

namespace ProjectPath

variable {dir path : Text}

/-- What lies below a directory is written as rules see it if the directory is. -/
theorem canonical_below (hdir : dir ≠ []) (hstart : Text.startsWith dir ['/'] = false)
    (hback : '\\' ∉ dir) (hpath : '\\' ∉ path) :
    canonical (dir ++ '/' :: path) = dir ++ '/' :: path := by
  have hall : '\\' ∉ dir ++ '/' :: path := by simp [hback, hpath]
  rw [canonical, Text.swap_eq_self '/' hall]
  refine Text.trimLeft_eq_self fun c hc => decide_eq_false ?_
  rintro rfl
  rw [List.head?_append_of_ne_nil dir hdir, ← Text.startsWith_singleton_iff, hstart] at hc
  cases hc

theorem directoryForm_below (hdir : dir ≠ []) (hstart : Text.startsWith dir ['/'] = false)
    (hback : '\\' ∉ dir) (hpath : '\\' ∉ path) (hne : path ≠ [])
    (hends : Text.endsWith path ['/'] = false) :
    directoryForm (dir ++ '/' :: path) = dir ++ '/' :: path := by
  rw [directoryForm, canonical_below hdir hstart hback hpath]
  refine Text.trimRight_eq_self fun c hc => decide_eq_false ?_
  rintro rfl
  rw [List.getLast?_append_of_ne_nil dir (List.cons_ne_nil _ _),
    List.getLast?_cons_of_ne_nil hne, ← Text.endsWith_singleton_iff, hends] at hc
  cases hc

end ProjectPath

/-- **A directory rule covers what lies below the directory that it marks.** Let a line end with a
slash, but not with two stars and a slash, once it is trimmed, taken its negation sign off and
written with slashes. If its rule describes a directory or what stands for the directory's contents,
it describes everything below the directory, on one line.

If it is no negation, whatever a pass is asked and whatever it went through before, what lies below
the directory is ignored as a file unless a negation further down describes it. It is ignored as a
directory unless negations further down describe both it and what stands for its contents, be they
the same or two. -/
theorem directoryRule_covers (lines : List Text) (n : Nat) (line : Text) (rule : Rule)
    (dir path : Text) (hline : lines[n]? = some line) (hrule : Rule.ofLine? line n = some rule)
    (hslash : Text.endsWith (Rule.bodyOfLine line) ['/'] = true)
    (hstars : Text.endsWith (Rule.bodyOfLine line) ['*', '*', '/'] = false)
    (hdir : '\n' ∉ dir) (hpath : '\n' ∉ path)
    (hmarked : rule.accepts dir = true ∨ rule.accepts (Pass.probe dir) = true) :
    rule.accepts (dir ++ '/' :: path) = true ∧
      (rule.negation = false → dir ≠ [] → Text.startsWith dir ['/'] = false →
        path ≠ [] → Text.endsWith path ['/'] = false → '\\' ∉ dir → '\\' ∉ path →
        ∀ (t : FileTree) (root : Path) (suffix : Text) (calls : List Pass.Call),
          let p := calls.foldl (Pass.Call.run t) (.new (.ofLines lines) root suffix)
          let below := dir ++ '/' :: path
          ((p.isIgnored below).1 = true ∨ Rule.NegatedBehind (Rule.ofLines lines) rule below) ∧
            ((p.isDirectoryIgnored below).1 = true ∨
              Rule.NegatedBehind (Rule.ofLines lines) rule below ∧
                Rule.NegatedBehind (Rule.ofLines lines) rule (Pass.probe below))) := by
  have hbelow : ∀ path, '\n' ∉ path → rule.accepts (dir ++ '/' :: path) = true :=
    fun path hpath => Rule.accepts_of_marked hrule hslash hstars hdir hpath hmarked
  refine ⟨hbelow path hpath, ?_⟩
  intro hnegation hne hstart hpathNe hends hback hpathBack t root suffix calls p below
  obtain ⟨hignored, hdirectory⟩ := Pass.answers_foldl_run t lines root suffix calls
  have hmem : rule ∈ Rule.ofLines lines :=
    Rule.mem_ofLinesFrom.mpr ⟨n, line, hline, by rw [Int.zero_add, hrule]⟩
  have hjudged : ∀ path, '\n' ∉ path → '\\' ∉ path →
      Rule.ignores (Rule.ofLines lines) (dir ++ '/' :: path) = true ∨
        Rule.NegatedBehind (Rule.ofLines lines) rule (dir ++ '/' :: path) :=
    fun path hpath hback' => Rule.ignores_or_negatedBehind (Rule.pairwise_ofLines lines) hmem
      hnegation (ProjectPath.canonical_below hne hstart hback hback') (hbelow path hpath)
  have hself := hjudged path hpath hpathBack
  have hprobe : Rule.ignores (Rule.ofLines lines) (Pass.probe below) = true ∨
      Rule.NegatedBehind (Rule.ofLines lines) rule (Pass.probe below) := by
    -- what stands for the contents of what lies below lies below as well
    have hname : Pass.probe below = dir ++ '/' :: (path ++ '/' :: probeName) := by
      simp [Pass.probe, below]
    rw [hname]
    refine hjudged _ ?_ ?_
    · rw [List.mem_append, not_or]
      exact ⟨hpath, by decide⟩
    · rw [List.mem_append, not_or]
      exact ⟨hpathBack, by decide⟩
  have hform : ProjectPath.directoryForm below = below :=
    ProjectPath.directoryForm_below hne hstart hback hpathBack hpathNe hends
  have hbelowNe : below ≠ [] := List.append_ne_nil_of_left_ne_nil hne _
  rw [hignored, hdirectory]
  refine ⟨hself, ?_⟩
  simp only [Rule.ignoresDirectory, hform, hbelowNe, ne_eq, not_false_eq_true, decide_true,
    Bool.true_and, Bool.or_eq_true]
  -- one of the two answers is enough, so it takes two negations to leave none
  rcases hself with hself | hself
  · exact .inl (.inl hself)
  · rcases hprobe with hprobe | hprobe
    · exact .inl (.inr hprobe)
    · exact .inr ⟨hself, hprobe⟩

/-- A negation takes a directory back by its name, but nothing in it. -/
theorem directoryRule_covers_kept :
    let lines := ["Temp/".toList, "!keep".toList]
    let p := [Pass.Call.addFile "Temp/x".toList].foldl (Pass.Call.run .empty)
      (.new (.ofLines lines) (.ofText ['/']) defaultSidecarSuffix)
    ∃ rule, Rule.ofLine? "Temp/".toList 0 = some rule ∧
      Text.endsWith (Rule.bodyOfLine "Temp/".toList) ['/'] = true ∧
      Text.endsWith (Rule.bodyOfLine "Temp/".toList) ['*', '*', '/'] = false ∧
      rule.accepts (Pass.probe "Temp".toList) = true ∧ rule.negation = false ∧
      rule.accepts "Temp/keep".toList = true ∧
      Rule.NegatedBehind (Rule.ofLines lines) rule "Temp/keep".toList ∧
      (p.isDirectoryIgnored "Temp/keep".toList).1 = true := by
  intro lines p
  refine ⟨_, rfl, by decide, by decide, by decide, rfl, ?_⟩
  obtain ⟨haccepts, hjudged⟩ := directoryRule_covers lines 0 "Temp/".toList _ "Temp".toList
    "keep".toList rfl rfl (by decide) (by decide) (by decide) (by decide) (.inr (by decide))
  obtain ⟨-, hdirectory⟩ := hjudged rfl (by decide) (by decide) (by decide) (by decide) (by decide)
    (by decide) .empty (.ofText ['/']) defaultSidecarSuffix [.addFile "Temp/x".toList]
  refine ⟨haccepts, by decide, hdirectory.resolve_right fun hboth => ?_⟩
  exact absurd hboth.2 (by decide)

/-- Two negations that take a directory back together, one by its name and the other by what is in
it. -/
theorem directory_taken_back_by_two :
    let lines := ["Temp/".toList, "!a".toList, "!a/".toList]
    let below := "Temp/a".toList
    let p := Pass.new (.ofLines lines) (.ofText ['/']) defaultSidecarSuffix
    ∃ rule, Rule.ofLine? "Temp/".toList 0 = some rule ∧ rule.negation = false ∧
      rule.accepts (Pass.probe "Temp".toList) = true ∧ (p.isDirectoryIgnored below).1 = false ∧
      ¬ ∃ other ∈ Rule.ofLines lines, other.negation = true ∧ rule.order < other.order ∧
        other.accepts below = true ∧ other.accepts (Pass.probe below) = true :=
  ⟨_, rfl, rfl, by decide, by decide, by decide⟩

end IgnoredPaths
