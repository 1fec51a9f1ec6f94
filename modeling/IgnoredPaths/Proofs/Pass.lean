import IgnoredPaths.Collect
import IgnoredPaths.Proofs.Matcher
import Mathlib

/-!
# What the operations of a pass contribute

A pass only grows: every operation joins what it finds to what was found before. What it finds
depends on the file tree and on what the pass judges by (`Pass.Terms`), not on what was found
before, nor on the answers that the matcher and the pass keep.

- `Pass.Terms`: the rules, the root and the ending of sidecars; `Pass.Terms.file`,
  `Pass.Terms.directory`, … are the contributions.
- `Pass.Joins`: a pass after a contribution; `Pass.Joins.trans` and `Pass.joins_foldl` put
  operations together.
- `Pass.addFile_joins`, `Pass.addDirectory_joins`, …: one lemma for each operation.
-/

namespace IgnoredPaths

/-- Whether rules ignore a directory: its path, or the path that stands for its contents. -/
def Rule.ignoresDirectory (rules : List Rule) (dir : Text) : Bool :=
  let dir := ProjectPath.directoryForm dir
  dir ≠ [] && (Rule.ignores rules dir || Rule.ignores rules (Pass.probe dir))

/-- Ignored files and ignored directories. -/
abbrev Findings := Set Text × Set Text

/-- Findings with the same files and the same directories are equal. -/
theorem Findings.ext {c d : Findings} (hfiles : ∀ x, x ∈ c.1 ↔ x ∈ d.1)
    (hdirs : ∀ x, x ∈ c.2 ↔ x ∈ d.2) : c = d :=
  Prod.ext (Set.ext hfiles) (Set.ext hdirs)

theorem Findings.mem_iSup_fst {α : Type} {S : Set α} {c : α → Findings} {x : Text} :
    x ∈ (⨆ a ∈ S, c a).1 ↔ ∃ a ∈ S, x ∈ (c a).1 := by
  simp only [Prod.fst_iSup, Set.iSup_eq_iUnion, Set.mem_iUnion, exists_prop]

theorem Findings.mem_iSup_snd {α : Type} {S : Set α} {c : α → Findings} {x : Text} :
    x ∈ (⨆ a ∈ S, c a).2 ↔ ∃ a ∈ S, x ∈ (c a).2 := by
  simp only [Prod.snd_iSup, Set.iSup_eq_iUnion, Set.mem_iUnion, exists_prop]

/-- What the members of a list contribute, the first one apart. -/
theorem Findings.iSup_cons {α : Type} (c : α → Findings) (a : α) (l : List α) :
    ⨆ b ∈ a :: l, c b = c a ⊔ ⨆ b ∈ l, c b := by
  simp only [List.mem_cons, iSup_or, iSup_sup_eq, iSup_iSup_eq_left]

namespace Pass

/-- What a pass judges by. -/
structure Terms where
  rules : List Rule
  root : Path
  suffix : Text

/-- What a pass judges by. -/
def terms (p : Pass) : Terms := ⟨p.matcher.rules, p.root, p.suffix⟩

/-- What a pass has found. -/
def found (p : Pass) : Findings := ({x | x ∈ p.files}, {x | x ∈ p.dirs})

/-- The answers that a pass keeps are right. -/
structure Sound (p : Pass) : Prop where
  matcher : p.matcher.Sound
  right : ∀ dir answer, (dir, answer) ∈ p.knownDirs →
    answer = (Rule.ignores p.matcher.rules dir || Rule.ignores p.matcher.rules (probe dir))

theorem sound_new {m : Matcher} (h : m.Sound) (root : Path) (suffix : Text) :
    (new m root suffix).Sound :=
  ⟨h, fun _ _ hm => absurd hm List.not_mem_nil⟩

theorem found_new (m : Matcher) (root : Path) (suffix : Text) :
    (new m root suffix).found = ⊥ := by
  refine Findings.ext (fun x => ?_) (fun x => ?_)
  · exact iff_of_false (TextSet.not_mem_empty x) id
  · exact iff_of_false (TextSet.not_mem_empty x) id

/-- A pass `q` is what becomes of `p` when some findings are joined to it. -/
structure Joins (p q : Pass) (c : Findings) : Prop where
  terms : q.terms = p.terms
  sound : q.Sound
  found : q.found = p.found ⊔ c

namespace Joins

variable {p q r : Pass} {c d : Findings}

theorem refl (h : p.Sound) : Joins p p ⊥ := ⟨rfl, h, (sup_bot_eq _).symm⟩

theorem trans (h₁ : Joins p q c) (h₂ : Joins q r d) : Joins p r (c ⊔ d) :=
  ⟨h₂.terms.trans h₁.terms, h₂.sound, by rw [h₂.found, h₁.found, sup_assoc]⟩

theorem trans_bot (h₁ : Joins p q ⊥) (h₂ : Joins q r d) : Joins p r d := by
  have h := h₁.trans h₂
  rwa [bot_sup_eq] at h

theorem congr (h : Joins p q c) (hcd : c = d) : Joins p q d := hcd ▸ h

end Joins

/-- Operations that join what does not depend on the pass join it all, whatever their order. -/
theorem joins_foldl {α : Type} {f : Pass → α → Pass} {k : Terms} {c : α → Findings} :
    ∀ {l : List α} {p : Pass}, p.terms = k → p.Sound →
      (∀ p a, a ∈ l → p.terms = k → p.Sound → Joins p (f p a) (c a)) →
      Joins p (l.foldl f p) (⨆ a ∈ l, c a)
  | [], p, _, hs, _ => (Joins.refl hs).congr (by simp)
  | a :: l, p, hk, hs, h => by
    have ha := h p a List.mem_cons_self hk hs
    have hl := joins_foldl (ha.terms.trans hk) ha.sound fun p b hb =>
      h p b (List.mem_cons_of_mem a hb)
    exact (ha.trans hl).congr (Findings.iSup_cons c a l).symm

/-! ## Questions -/

theorem isIgnored_spec {p : Pass} (h : p.Sound) (path : Text) :
    (p.isIgnored path).1 = Rule.ignores p.terms.rules path ∧
      Joins p (p.isIgnored path).2 ⊥ := by
  refine ⟨h.matcher.isIgnored_fst path, ?_, ⟨h.matcher.isIgnored path, ?_⟩, ?_⟩
  · show Terms.mk (p.matcher.isIgnored path).2.rules p.root p.suffix = _
    rw [Matcher.rules_isIgnored]
    rfl
  · show ∀ dir answer, (dir, answer) ∈ p.knownDirs →
      answer = (Rule.ignores (p.matcher.isIgnored path).2.rules dir ||
        Rule.ignores (p.matcher.isIgnored path).2.rules (probe dir))
    rw [Matcher.rules_isIgnored]
    exact h.right
  · exact (sup_bot_eq _).symm

/-- A pass with one more answer about a directory is sound if the answer is right. -/
theorem Sound.withKnownDir {p : Pass} (h : p.Sound) {dir : Text} {answer : Bool}
    (hanswer : answer = (Rule.ignores p.matcher.rules dir ||
      Rule.ignores p.matcher.rules (probe dir))) :
    Sound { p with knownDirs := (dir, answer) :: p.knownDirs } := by
  refine ⟨h.matcher, fun d b hm => ?_⟩
  rcases List.mem_cons.mp hm with hm | hm
  · obtain ⟨rfl, rfl⟩ := Prod.mk.inj hm
    exact hanswer
  · exact h.right d b hm

theorem isDirectoryIgnored_spec {p : Pass} (h : p.Sound) (dir : Text) :
    (p.isDirectoryIgnored dir).1 = Rule.ignoresDirectory p.terms.rules dir ∧
      Joins p (p.isDirectoryIgnored dir).2 ⊥ := by
  simp only [isDirectoryIgnored, Rule.ignoresDirectory]
  generalize ProjectPath.directoryForm dir = dir
  split
  · next hdir => simp [hdir, Joins.refl h]
  · next hdir =>
    simp only [hdir, ne_eq, not_false_eq_true, decide_true, Bool.true_and]
    split
    · next answer hlookup =>
      obtain ⟨_, _, hknown, -⟩ := List.lookup_eq_some_iff.mp hlookup
      exact ⟨h.right dir answer (hknown ▸ by simp), Joins.refl h⟩
    · obtain ⟨hself, hjself⟩ := isIgnored_spec h dir
      have hrules : (p.isIgnored dir).2.matcher.rules = p.matcher.rules :=
        congrArg Terms.rules hjself.terms
      -- the contents are only asked about when the directory itself is not ignored
      cases hb : (p.isIgnored dir).1 with
      | true =>
        rw [hb] at hself
        simp only [if_true, ← hself, Bool.true_or, true_and]
        refine ⟨hjself.terms, hjself.sound.withKnownDir ?_, hjself.found⟩
        rw [hrules]
        exact (Bool.or_eq_true_iff.mpr (.inl hself.symm)).symm
      | false =>
        rw [hb] at hself
        obtain ⟨hprobe, hjprobe⟩ := isIgnored_spec hjself.sound (probe dir)
        have hrules' := (congrArg Terms.rules hjprobe.terms).trans hrules
        rw [hjself.terms] at hprobe
        have hj := hjself.trans_bot hjprobe
        simp only [Bool.false_eq_true, if_false, ← hself, Bool.false_or]
        refine ⟨hprobe, hj.terms, hjprobe.sound.withKnownDir ?_, hj.found⟩
        rw [hprobe]
        show _ = (Rule.ignores ((p.isIgnored dir).2.isIgnored (probe dir)).2.terms.rules dir || _)
        rw [hj.terms, ← hself, Bool.false_or]
        exact congrArg (Rule.ignores · (probe dir)) hrules'.symm

/-! ## Contributions -/

namespace Terms

/-- Whether the text of a path names a file of the project. -/
def IsFile (k : Terms) (t : FileTree) (path : Text) : Prop :=
  t.isFile (k.root.resolve path) = true

/-- The sidecar of a directory that is there and that no negation takes back. -/
def Keeps (k : Terms) (t : FileTree) (dir : Text) : Prop :=
  k.IsFile t (dir ++ k.suffix) ∧ Rule.verdict k.rules (dir ++ k.suffix) ≠ .negated

/-- What a file contributes: if it is ignored, itself and its sidecar. -/
def file (k : Terms) (t : FileTree) (path : Text) : Findings :=
  ({x | Rule.ignores k.rules path = true ∧
    (x = path ∨ x = path ++ k.suffix ∧ k.IsFile t (path ++ k.suffix))}, ∅)

/-- What a directory contributes: if it is ignored, itself and its sidecar, unless the sidecar is
taken back. -/
def directory (k : Terms) (t : FileTree) (path : Text) : Findings :=
  ({x | Rule.ignoresDirectory k.rules path = true ∧ x = path ++ k.suffix ∧ k.Keeps t path},
    {x | Rule.ignoresDirectory k.rules path = true ∧ x = path})

/-- What the directory of a reported file contributes: if it is ignored, itself. -/
def parent (k : Terms) (path : Text) : Findings :=
  (∅, {x | Text.beforeLast? '/' path = some x ∧ x ≠ [] ∧ Rule.ignoresDirectory k.rules x = true})

/-- What an entry found by a walk contributes. -/
def entry (k : Terms) (t : FileTree) (found : Path × Bool) : Findings :=
  if found.2 then k.directory t (projectRelative k.root found.1)
  else k.file t (projectRelative k.root found.1)

/-- What lies below a directory contributes. -/
def below (k : Terms) (t : FileTree) (dir : Path) : Findings := ⨆ found ∈ t.walk dir, k.entry t found

/-- Whether a reported path is taken for a file. -/
def IsIndexFile (k : Terms) (t : FileTree) (path : Text) : Prop :=
  if ProjectPath.hasExtension path then t.isDirectory (k.root.resolve path) = false
  else k.IsFile t path

open Classical in
/-- What a reported path contributes. -/
noncomputable def indexEntry (k : Terms) (t : FileTree) (path : Text) : Findings :=
  let path := ProjectPath.directoryForm path
  if path = [] then ⊥
  else if k.IsIndexFile t path then k.file t path ⊔ k.parent path
  else k.directory t path

end Terms

/-! ## The operations -/

variable {p : Pass} (t : FileTree)

theorem withFile_joins (h : p.Sound) (path : Text) : Joins p (p.withFile path) ({path}, ∅) := by
  refine ⟨rfl, ⟨h.matcher, h.right⟩, Findings.ext (fun x => ?_) (fun x => ?_)⟩
  · exact TextSet.mem_insert.trans or_comm
  · exact (or_iff_left (Set.notMem_empty x)).symm

theorem withDir_joins (h : p.Sound) (path : Text) : Joins p (p.withDir path) (∅, {path}) := by
  refine ⟨rfl, ⟨h.matcher, h.right⟩, Findings.ext (fun x => ?_) (fun x => ?_)⟩
  · exact (or_iff_left (Set.notMem_empty x)).symm
  · exact TextSet.mem_insert.trans or_comm

theorem sidecar_eq (p : Pass) (path : Text) : p.sidecar path = path ++ p.terms.suffix := rfl

theorem keepsSidecar_iff (p : Pass) (path : Text) :
    p.keepsSidecar t path = true ↔ p.terms.Keeps t path := by
  rw [keepsSidecar, Bool.and_eq_true, decide_eq_true_iff]
  exact Iff.rfl

theorem addFile_spec (h : p.Sound) (path : Text) :
    (p.addFile t path).1 = Rule.ignores p.terms.rules path ∧
      Joins p (p.addFile t path).2 (p.terms.file t path) := by
  obtain ⟨hanswer, hj⟩ := isIgnored_spec h path
  obtain ⟨answer, q, hq⟩ : ∃ answer q, p.isIgnored path = (answer, q) := ⟨_, _, rfl⟩
  rw [hq] at hanswer hj
  rw [addFile, hq]
  cases answer with
  | false =>
    refine ⟨hanswer, hj.congr (Findings.ext (fun x => ?_) fun x => Iff.rfl)⟩
    simp [Terms.file, ← hanswer]
  | true =>
    refine ⟨hanswer, ?_⟩
    have hfile := hj.trans_bot (withFile_joins hj.sound path)
    have hterms : (q.withFile path).terms = p.terms := hfile.terms
    show Joins p (if (q.withFile path).hasSidecar t path then _ else _) _
    split
    · next hside =>
      have hside : p.terms.IsFile t (path ++ p.terms.suffix) := by
        rw [← hterms]
        exact hside
      refine (hfile.trans (withFile_joins hfile.sound _)).congr ?_
      rw [sidecar_eq, hterms]
      refine Findings.ext (fun x => ?_) (fun x => ?_)
      · simp [Terms.file, ← hanswer, hside, or_comm]
      · simp [Terms.file]
    · next hside =>
      have hside : ¬ p.terms.IsFile t (path ++ p.terms.suffix) := by
        rw [← hterms]
        exact hside
      refine hfile.congr (Findings.ext (fun x => ?_) fun x => Iff.rfl)
      simp [Terms.file, ← hanswer, hside]

theorem addDirectory_spec (h : p.Sound) (path : Text) :
    (p.addDirectory t path).1 = Rule.ignoresDirectory p.terms.rules path ∧
      Joins p (p.addDirectory t path).2 (p.terms.directory t path) := by
  obtain ⟨hanswer, hj⟩ := isDirectoryIgnored_spec h path
  obtain ⟨answer, q, hq⟩ : ∃ answer q, p.isDirectoryIgnored path = (answer, q) := ⟨_, _, rfl⟩
  rw [hq] at hanswer hj
  rw [addDirectory, hq]
  cases answer with
  | false =>
    refine ⟨hanswer, hj.congr (Findings.ext (fun x => ?_) (fun x => ?_))⟩
    · simp [Terms.directory, ← hanswer]
    · simp [Terms.directory, ← hanswer]
  | true =>
    refine ⟨hanswer, ?_⟩
    have hdir := hj.trans_bot (withDir_joins hj.sound path)
    have hterms : (q.withDir path).terms = p.terms := hdir.terms
    have hkeeps := keepsSidecar_iff t (q.withDir path) path
    rw [hterms] at hkeeps
    show Joins p (if (q.withDir path).keepsSidecar t path then _ else _) _
    split
    · next hside =>
      rw [hkeeps] at hside
      refine (hdir.trans (withFile_joins hdir.sound _)).congr ?_
      rw [sidecar_eq, hterms]
      refine Findings.ext (fun x => ?_) (fun x => ?_)
      · simp [Terms.directory, ← hanswer, hside]
      · simp [Terms.directory, ← hanswer]
    · next hside =>
      rw [hkeeps] at hside
      refine hdir.congr (Findings.ext (fun x => ?_) (fun x => ?_))
      · simp [Terms.directory, hside]
      · simp [Terms.directory, ← hanswer]

theorem addParent_joins (h : p.Sound) (path : Text) :
    Joins p (addParent path p) (p.terms.parent path) := by
  rw [addParent]
  split
  · next hlast =>
    refine (Joins.refl h).congr (Findings.ext (fun x => Iff.rfl) (fun x => ?_))
    simp [Terms.parent, hlast]
  · next hlast =>
    refine (Joins.refl h).congr (Findings.ext (fun x => Iff.rfl) (fun x => ?_))
    simp only [Terms.parent, hlast, Option.some.injEq, Set.mem_ofPred_eq]
    exact iff_of_false id fun hx => hx.2.1 hx.1.symm
  · next dir hne hlast =>
    obtain ⟨hanswer, hj⟩ := isDirectoryIgnored_spec h dir
    have hmem : ∀ x, x ∈ (p.terms.parent path).2 ↔
        dir = x ∧ x ≠ [] ∧ Rule.ignoresDirectory p.terms.rules x = true := by
      intro x
      simp only [Terms.parent, hlast, Option.some.injEq, Set.mem_ofPred_eq]
    split
    · next q hq =>
      rw [hq] at hanswer hj
      refine (hj.trans_bot (withDir_joins hj.sound dir)).congr ?_
      refine Findings.ext (fun x => Iff.rfl) (fun x => ?_)
      rw [hmem, Set.mem_singleton_iff]
      constructor
      · rintro rfl
        exact ⟨rfl, hne, hanswer.symm⟩
      · exact fun hx => hx.1.symm
    · next q hq =>
      rw [hq] at hanswer hj
      refine hj.congr (Findings.ext (fun x => Iff.rfl) (fun x => ?_))
      rw [hmem]
      refine iff_of_false id ?_
      rintro ⟨rfl, -, hx⟩
      exact Bool.false_ne_true (hanswer.trans hx)

theorem isIndexFile_iff (p : Pass) (path : Text) :
    p.isIndexFile t path = true ↔ p.terms.IsIndexFile t path := by
  simp only [isIndexFile, Terms.IsIndexFile, Terms.IsFile, terms]
  split <;> simp

theorem addIndexEntry_joins (h : p.Sound) (path : Text) :
    Joins p (p.addIndexEntry t path) (p.terms.indexEntry t path) := by
  simp only [addIndexEntry, Terms.indexEntry]
  generalize ProjectPath.directoryForm path = path
  split
  · exact Joins.refl h
  · have hiff := isIndexFile_iff t p path
    by_cases hfile : p.isIndexFile t path = true
    · rw [if_pos hfile, if_pos (hiff.mp hfile)]
      have hj := (addFile_spec t h path).2
      have hparent := addParent_joins hj.sound path
      rw [hj.terms] at hparent
      exact hj.trans hparent
    · rw [if_neg hfile, if_neg fun hk => hfile (hiff.mpr hk)]
      exact (addDirectory_spec t h path).2

theorem addFound_joins (h : p.Sound) (found : Path × Bool) :
    Joins p (addFound t p found) (p.terms.entry t found) := by
  simp only [addFound, Terms.entry]
  split
  · exact (addDirectory_spec t h _).2
  · exact (addFile_spec t h _).2

theorem addBelow_joins (h : p.Sound) (dir : Path) :
    Joins p (p.addBelow t dir) (p.terms.below t dir) := by
  refine joins_foldl (k := p.terms) rfl h fun q found _ hk hs => ?_
  rw [← hk]
  exact addFound_joins t hs found

/-! ## The supplemental scan -/

/-- Whether the supplemental scan passes over an entry: its name is not special, or it was
reported, or it lies below a directory that was taken. -/
def Terms.passesOver (k : Terms) (known covered : List Text) (found : Path × Bool) : Bool :=
  !ProjectPath.isSpecialName found.1.name || known.contains (projectRelative k.root found.1)
    || covered.any fun c => Text.startsWith (projectRelative k.root found.1) (c ++ ['/'])

/-- What an entry contributes that the supplemental scan takes: a directory brings along all that
lies below it, and a sidecar is left to its owner. -/
def Terms.taken (k : Terms) (t : FileTree) (found : Path × Bool) : Findings :=
  if found.2 then k.directory t (projectRelative k.root found.1) ⊔ k.below t found.1
  else if Text.endsWith (projectRelative k.root found.1) k.suffix then ⊥
  else k.file t (projectRelative k.root found.1)

/-- What the supplemental scan contributes. -/
def Terms.supplemented (k : Terms) (t : FileTree) (known : List Text) :
    List Text → List (Path × Bool) → Findings
  | _, [] => ⊥
  | covered, found :: rest =>
    if k.passesOver known covered found then supplemented k t known covered rest
    else
      k.taken t found ⊔ supplemented k t known
        (if found.2 then covered ++ [projectRelative k.root found.1] else covered) rest

/-- What the scan classifies of an entry that it takes: with a directory everything below it, and
a sidecar not at all. -/
def Terms.brought (k : Terms) (t : FileTree) (found : Path × Bool) : List (Path × Bool) :=
  if found.2 then found :: t.walk found.1
  else if Text.endsWith (projectRelative k.root found.1) k.suffix then []
  else [found]

theorem Terms.iSup_brought (k : Terms) (t : FileTree) (found : Path × Bool) :
    ⨆ x ∈ k.brought t found, k.entry t x = k.taken t found := by
  rw [brought, taken]
  split
  · next hdirectory =>
    rw [Findings.iSup_cons, entry, if_pos hdirectory]
    rfl
  · next hfile =>
    split
    · simp
    · rw [Findings.iSup_cons, entry, if_neg hfile]
      simp

/-- One entry, with the terms of the pass in place of the pass: later passes have the same terms. -/
theorem supplementOne_eq {known : List Text} {k : Terms} (hk : p.terms = k) (covered : List Text)
    (found : Path × Bool) : supplementOne t known (covered, p) found =
      if k.passesOver known covered found then (covered, p)
      else (if found.2 then covered ++ [projectRelative k.root found.1] else covered,
        (k.brought t found).foldl (addFound t) p) := by
  subst hk
  obtain ⟨path, isDirectory⟩ := found
  show (if p.terms.passesOver known covered (path, isDirectory) then _ else _) = _
  congr 1
  cases isDirectory with
  | true => rfl
  | false =>
    show (covered, if Text.endsWith (projectRelative p.root path) p.suffix then p
      else (p.addFile t (projectRelative p.root path)).2) = _
    cases hends : Text.endsWith (projectRelative p.root path) p.suffix <;>
      simp [Terms.brought, terms, hends, addFound]

/-- To classify what an entry brings along is to join what the scan takes of it. -/
theorem foldl_brought_joins {k : Terms} (hk : p.terms = k) (h : p.Sound) (found : Path × Bool) :
    Joins p ((k.brought t found).foldl (addFound t) p) (k.taken t found) := by
  refine (joins_foldl hk h fun q x _ hq hs => ?_).congr (k.iSup_brought t found)
  rw [← hq]
  exact addFound_joins t hs x

theorem foldl_supplementOne_joins (known : List Text) (k : Terms) (l : List (Path × Bool))
    (covered : List Text) {p : Pass} (hk : p.terms = k) (h : p.Sound) :
    Joins p (l.foldl (supplementOne t known) (covered, p)).2
      (k.supplemented t known covered l) := by
  induction l generalizing covered p with
  | nil => exact Joins.refl h
  | cons found rest ih =>
    rw [List.foldl_cons, supplementOne_eq t hk, Terms.supplemented]
    split
    · exact ih covered hk h
    · have hone := foldl_brought_joins t hk h found
      exact hone.trans (ih _ (hone.terms.trans hk) hone.sound)

theorem supplement_joins (h : p.Sound) (primary : Path) (known : List Text) :
    Joins p (p.supplement t primary known)
      (if t.isDirectory primary then p.terms.supplemented t known [] (t.walk primary) else ⊥) := by
  rw [supplement]
  split
  · exact foldl_supplementOne_joins t known p.terms (t.walk primary) [] rfl h
  · exact Joins.refl h

end Pass

end IgnoredPaths
