import IgnoredPaths.Proofs.Collect

/-!
# What one more rule does

A rule at the end of a rule file speaks last. If it is no negation, it turns verdicts towards
`ignored`, and if it is one, towards `negated`; it never does both. All that a pass contributes
follows the verdicts in one direction: a path that is ignored brings itself and its sidecar along,
a sidecar of a directory is kept unless it is negated, and the completion adds more above more.

- `Verdict.rank`: the order of verdicts.
- `Rule.verdict_append`: what an added rule does to a verdict.
- `Rule.Yields`: rules under which each verdict is at most as under others.
- `Pass.Terms.gathered_mono`, `Findings.completed_mono`: a pass follows the verdicts.
- `collect_append_line`: what one more line does to a whole collection.
-/

namespace IgnoredPaths

/-- How far a verdict goes towards ignoring a path. -/
def Verdict.rank : Verdict → Nat
  | .negated => 0
  | .unmatched => 1
  | .ignored => 2

/-! ## Verdicts -/

namespace Rule

/-- The verdict that a rule gives on the paths that it describes. -/
def decision (rule : Rule) : Verdict := if rule.negation then .negated else .ignored

/-- Under some rules no verdict goes further than under others. -/
def Yields (rules more : List Rule) : Prop :=
  ∀ path, (verdict rules path).rank ≤ (verdict more path).rank

/-- The last rule has its say on the paths that it describes. -/
theorem verdict_append (rules : List Rule) (rule : Rule) (path : Text) :
    verdict (rules ++ [rule]) path =
      if rule.accepts (ProjectPath.canonical path) then rule.decision else verdict rules path := by
  rw [verdict, deciding?, List.reverse_append, List.reverse_singleton, List.singleton_append,
    List.find?_cons]
  cases rule.accepts (ProjectPath.canonical path) with
  | true => rfl
  | false => rfl

theorem yields_append {rules : List Rule} {rule : Rule} (h : rule.negation = false) :
    Yields rules (rules ++ [rule]) := by
  intro path
  rw [verdict_append, decision, h]
  split
  · cases verdict rules path <;> decide
  · exact Nat.le_refl _

theorem append_yields {rules : List Rule} {rule : Rule} (h : rule.negation = true) :
    Yields (rules ++ [rule]) rules := by
  intro path
  rw [verdict_append, decision, h]
  split
  · exact Nat.zero_le _
  · exact Nat.le_refl _

/-- The rule of a line behind others stands behind theirs. -/
theorem ofLines_append (lines : List Text) (line : Text) :
    ofLines (lines ++ [line]) = ofLines lines ++ (ofLine? line lines.length).toList := by
  rw [ofLines, ofLinesFrom_append, Int.zero_add, ofLinesFrom, ofLinesFrom, List.append_nil]
  rfl

/-- What a line is can be told from the first character that is not blank. -/
theorem ofLine?_of_head? (line : Text) (i : Int) :
    match (Text.strip line).head? with
    | none | some '#' => ofLine? line i = none
    | some '!' => ∃ rule, ofLine? line i = some rule ∧ rule.negation = true
    | some _ => ∃ rule, ofLine? line i = some rule ∧ rule.negation = false := by
  split
  · next hhead => rw [ofLine?, List.head?_eq_none_iff.mp hhead]
  · next hhead =>
    obtain ⟨text, htext⟩ := List.head?_eq_some_iff.mp hhead
    rw [ofLine?, htext]
    rfl
  · next hhead =>
    obtain ⟨text, htext⟩ := List.head?_eq_some_iff.mp hhead
    rw [ofLine?, htext]
    exact ⟨_, rfl, rfl⟩
  · next hcomment hnegation hhead =>
    obtain ⟨text, htext⟩ := List.head?_eq_some_iff.mp hhead
    rw [ofLine?, htext]
    split
    · next hnil => cases hnil
    · next hcons => exact absurd (List.cons.inj hcons).1 hcomment
    · next hcons => exact absurd (List.cons.inj hcons).1 hnegation
    · exact ⟨_, rfl, rfl⟩

namespace Yields

variable {rules more : List Rule}

theorem ignores (h : Yields rules more) {path : Text} (hpath : Rule.ignores rules path = true) :
    Rule.ignores more path = true := by
  have hrank := h path
  rw [Rule.ignores, decide_eq_true_iff] at hpath ⊢
  rw [hpath] at hrank
  cases hmore : verdict more path with
  | ignored => rfl
  | unmatched | negated =>
    rw [hmore] at hrank
    exact absurd hrank (by decide)

theorem ignoresDirectory (h : Yields rules more) {dir : Text}
    (hdir : Rule.ignoresDirectory rules dir = true) : Rule.ignoresDirectory more dir = true := by
  simp only [Rule.ignoresDirectory, Bool.and_eq_true, Bool.or_eq_true] at hdir ⊢
  exact ⟨hdir.1, hdir.2.imp h.ignores h.ignores⟩

theorem not_negated (h : Yields rules more) {path : Text} (hpath : verdict rules path ≠ .negated) :
    verdict more path ≠ .negated := by
  intro hmore
  have hrank := h path
  rw [hmore] at hrank
  cases hverdict : verdict rules path with
  | negated => exact hpath hverdict
  | unmatched | ignored =>
    rw [hverdict] at hrank
    exact absurd hrank (by decide)

end Yields

end Rule

/-! ## Contributions -/

namespace Pass.Terms

variable {k : Terms} {more : List Rule} (h : Rule.Yields k.rules more) (t : FileTree)

include h

theorem keeps_mono {dir : Text} (hdir : k.Keeps t dir) : { k with rules := more }.Keeps t dir :=
  ⟨hdir.1, h.not_negated hdir.2⟩

theorem file_mono (path : Text) : k.file t path ≤ { k with rules := more }.file t path :=
  ⟨fun _ hx => ⟨h.ignores hx.1, hx.2⟩, Set.Subset.rfl⟩

theorem directory_mono (path : Text) :
    k.directory t path ≤ { k with rules := more }.directory t path :=
  ⟨fun _ hx => ⟨h.ignoresDirectory hx.1, hx.2.1, keeps_mono h t hx.2.2⟩,
    fun _ hx => ⟨h.ignoresDirectory hx.1, hx.2⟩⟩

theorem parent_mono (path : Text) : k.parent path ≤ { k with rules := more }.parent path :=
  ⟨Set.Subset.rfl, fun _ hx => ⟨hx.1, hx.2.1, h.ignoresDirectory hx.2.2⟩⟩

theorem entry_mono (found : Path × Bool) :
    k.entry t found ≤ { k with rules := more }.entry t found := by
  rw [entry, entry]
  split
  · exact directory_mono h t _
  · exact file_mono h t _

theorem below_mono (dir : Path) : k.below t dir ≤ { k with rules := more }.below t dir :=
  iSup₂_mono fun found _ => entry_mono h t found

theorem indexEntry_mono (path : Text) :
    k.indexEntry t path ≤ { k with rules := more }.indexEntry t path := by
  simp only [indexEntry]
  generalize ProjectPath.directoryForm path = path
  -- whether a path is taken for a file does not depend on the rules
  have hsame : { k with rules := more }.IsIndexFile t path ↔ k.IsIndexFile t path := Iff.rfl
  split
  · exact le_rfl
  · by_cases hfile : k.IsIndexFile t path
    · rw [if_pos hfile, if_pos (hsame.mpr hfile)]
      exact sup_le_sup (file_mono h t path) (parent_mono h path)
    · rw [if_neg hfile, if_neg fun hmore => hfile (hsame.mp hmore)]
      exact directory_mono h t path

theorem taken_mono (found : Path × Bool) :
    k.taken t found ≤ { k with rules := more }.taken t found := by
  rw [taken, taken]
  split
  · exact sup_le_sup (directory_mono h t _) (below_mono h t _)
  · split
    · exact le_rfl
    · exact file_mono h t _

theorem supplemented_mono (known : List Text) (l : List (Path × Bool)) (covered : List Text) :
    k.supplemented t known covered l ≤
      { k with rules := more }.supplemented t known covered l := by
  induction l generalizing covered with
  | nil => exact le_rfl
  | cons found rest ih =>
    -- the scan passes over the same entries under either rules
    have hsame : { k with rules := more }.passesOver known covered found =
        k.passesOver known covered found := rfl
    rw [supplemented, supplemented, hsame]
    split
    · exact ih covered
    · exact sup_le_sup (taken_mono h t found) (ih _)

/-- What a pass gathers over a listing follows the verdicts. -/
theorem gathered_mono (settings : Settings) (listing : List Text) :
    k.gathered t settings listing ≤ { k with rules := more }.gathered t settings listing := by
  refine sup_le_sup (sup_le_sup ?_ ?_) ?_
  · exact iSup₂_mono fun path _ => indexEntry_mono h t path
  · refine iSup₂_mono fun name _ => ?_
    rw [extraRoot, extraRoot]
    split
    · exact below_mono h t _
    · exact le_rfl
  · rw [primaryRoot, primaryRoot]
    split
    · exact supplemented_mono h t _ _ []
    · exact le_rfl

end Pass.Terms

/-- What the completion adds follows what was found and the verdicts. -/
theorem Findings.completed_mono {k : Pass.Terms} {more : List Rule}
    (h : Rule.Yields k.rules more) (t : FileTree) {c d : Findings} (hcd : c ≤ d) :
    c.completed k t ≤ d.completed { k with rules := more } t := by
  rw [completed_eq, completed_eq]
  refine ⟨Set.union_subset_union hcd.1 ?_, Set.union_subset_union hcd.2 ?_⟩
  · rintro x ⟨a, ha, hkeeps, rfl⟩
    exact ⟨a, above_mono hcd ha, Pass.Terms.keeps_mono h t hkeeps, rfl⟩
  · rintro a ⟨ha, hignored⟩
    exact ⟨above_mono hcd ha, h.ignoresDirectory hignored⟩

/-! ## The whole collection -/

/-- The collection by some rules, over a given listing or else over the default index. -/
def collectOver (t : FileTree) (settings : Settings) (listing : Option (List Text))
    (lines : List Text) : Collection :=
  match listing with
  | none => collect t settings (some (.ofLines lines))
  | some listing => (collectListing t settings (.ofLines lines) listing).result

/-- What a collection holds is what its pass gathers, completed. -/
theorem collectOver_spec (t : FileTree) (settings : Settings) (listing : Option (List Text))
    (lines : List Text) :
    let c := ((settings.terms (Rule.ofLines lines)).gathered t settings
      (listing.getD (defaultListing t settings))).completed (settings.terms (Rule.ofLines lines)) t
    (∀ f, f ∈ (collectOver t settings listing lines).files ↔ f ∈ c.1) ∧
      ∀ d, d ∈ (collectOver t settings listing lines).dirs ↔ d ∈ c.2 := by
  intro c
  have hspec : (collectListing t settings (.ofLines lines)
      (listing.getD (defaultListing t settings))).found = c :=
    (collectListing_spec (Matcher.sound_ofLines lines) _).2
  obtain ⟨⟨-, hdirs⟩, -, hfiles⟩ := Pass.result_spec hspec
  cases listing with
  | none => exact ⟨hfiles, hdirs⟩
  | some listing => exact ⟨hfiles, hdirs⟩

/-- Under rules whose verdicts go further, a collection holds more. -/
theorem collectOver_subset {lines more : List Text}
    (h : Rule.Yields (Rule.ofLines lines) (Rule.ofLines more)) (t : FileTree) (settings : Settings)
    (listing : Option (List Text)) :
    (collectOver t settings listing lines).files ⊆ (collectOver t settings listing more).files ∧
      (collectOver t settings listing lines).dirs ⊆ (collectOver t settings listing more).dirs := by
  obtain ⟨hfiles, hdirs⟩ := collectOver_spec t settings listing lines
  obtain ⟨hfilesMore, hdirsMore⟩ := collectOver_spec t settings listing more
  have hle := Findings.completed_mono (k := settings.terms (Rule.ofLines lines)) h t
    (Pass.Terms.gathered_mono (k := settings.terms (Rule.ofLines lines)) h t settings
      (listing.getD (defaultListing t settings)))
  exact ⟨fun f hf => (hfilesMore f).mpr (hle.1 ((hfiles f).mp hf)),
    fun d hd => (hdirsMore d).mpr (hle.2 ((hdirs d).mp hd))⟩

/-- Lines that come to the same rules give the same collection. -/
theorem collectOver_congr {lines more : List Text} (h : Rule.ofLines more = Rule.ofLines lines)
    (t : FileTree) (settings : Settings) (listing : Option (List Text)) :
    collectOver t settings listing more = collectOver t settings listing lines := by
  have hmatcher : Matcher.ofLines more = Matcher.ofLines lines := congrArg (Matcher.mk · []) h
  cases listing with
  | none => exact congrArg (fun m => collect t settings (some m)) hmatcher
  | some listing => exact congrArg (fun m => (collectListing t settings m listing).result) hmatcher

/-- **One more line moves a collection in one direction.** In any file tree, under any settings
and over any listing or the default index, a line added at the end changes nothing if it is blank
or a comment. If it begins with `!`, it takes files and directories away and adds none, and
otherwise it adds some and takes none away. -/
theorem collect_append_line (t : FileTree) (settings : Settings) (listing : Option (List Text))
    (lines : List Text) (line : Text) :
    let before := collectOver t settings listing lines
    let after := collectOver t settings listing (lines ++ [line])
    match (Text.strip line).head? with
    | none | some '#' => after = before
    | some '!' => after.files ⊆ before.files ∧ after.dirs ⊆ before.dirs
    | some _ => before.files ⊆ after.files ∧ before.dirs ⊆ after.dirs := by
  intro before after
  have hrules := Rule.ofLines_append lines line
  have hline := Rule.ofLine?_of_head? line lines.length
  split at hline
  · rw [hline, Option.toList_none, List.append_nil] at hrules
    exact collectOver_congr hrules t settings listing
  · rw [hline, Option.toList_none, List.append_nil] at hrules
    exact collectOver_congr hrules t settings listing
  · obtain ⟨rule, hrule, hnegation⟩ := hline
    rw [hrule, Option.toList_some] at hrules
    exact collectOver_subset (hrules ▸ Rule.append_yields hnegation) t settings listing
  · obtain ⟨rule, hrule, hnegation⟩ := hline
    rw [hrule, Option.toList_some] at hrules
    exact collectOver_subset (hrules ▸ Rule.yields_append hnegation) t settings listing

end IgnoredPaths
