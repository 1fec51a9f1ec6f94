import IgnoredPaths.Proofs.Completion

/-!
# Why something is collected

Whatever operations a pass goes through, in any order and with any arguments, all that it has
collected has a reason in what it has collected and in the rules: a directory is ignored, and a
file is ignored or is the sidecar of something. A reason holds good as the pass goes on, since a
pass only grows.

A directory may be collected although a negation decides its own path: it counts as ignored if
what would be directly in it is ignored. So only among the files is a path that a negation takes
back always a sidecar.

- `Pass.Call`: one operation with its arguments.
- `Pass.Terms.Warrants`: the reasons for a file.
- `Findings.Justified`: findings in which everything has a reason.
- `Pass.Call.run_justified`: one operation. `Pass.reasons_of_foldl_run`: any number of them, in the
  words of the pass itself.
-/

namespace IgnoredPaths

namespace Pass

/-- An operation on a pass, with its arguments. -/
inductive Call where
  | addFile (path : Text)
  | addDirectory (path : Text)
  | addIndexEntry (path : Text)
  | addBelow (dir : Path)
  | supplement (primary : Path) (known : List Text)
  | ensureAncestors
  | addAncestorSidecars
  | complete

/-- The pass after an operation. -/
def Call.run (t : FileTree) (p : Pass) : Call → Pass
  | .addFile path => (p.addFile t path).2
  | .addDirectory path => (p.addDirectory t path).2
  | .addIndexEntry path => p.addIndexEntry t path
  | .addBelow dir => p.addBelow t dir
  | .supplement primary known => p.supplement t primary known
  | .ensureAncestors => p.ensureAncestors
  | .addAncestorSidecars => p.addAncestorSidecars t
  | .complete => p.complete t

/-- The reasons for a file among some findings: it is ignored, or it is there and is the sidecar
of an ignored file among them, or it is there, no negation takes it back, and it is the sidecar of
a directory among them or above them. -/
def Terms.Warrants (k : Terms) (t : FileTree) (c : Findings) (f : Text) : Prop :=
  Rule.ignores k.rules f = true ∨
    ∃ x, f = x ++ k.suffix ∧ k.IsFile t f ∧
      (x ∈ c.1 ∧ Rule.ignores k.rules x = true ∨
        Rule.verdict k.rules f ≠ .negated ∧ (x ∈ c.2 ∨ x ∈ c.above))

end Pass

namespace Findings

variable {k : Pass.Terms} {t : FileTree} {c d : Findings}

/-- A reason stays one when more is found. -/
theorem warrants_mono (h : c ≤ d) {f : Text} (hf : k.Warrants t c f) : k.Warrants t d f := by
  refine hf.imp_right ?_
  rintro ⟨x, hx, hfile, hreason⟩
  exact ⟨x, hx, hfile, hreason.imp (And.imp_left fun hx => h.1 hx)
    (And.imp_right (Or.imp (fun hx => h.2 hx) fun hx => above_mono h hx))⟩

/-- Findings in which all directories are ignored and all files have a reason. -/
structure Justified (k : Pass.Terms) (t : FileTree) (c : Findings) : Prop where
  files : ∀ f ∈ c.1, k.Warrants t c f
  dirs : ∀ d ∈ c.2, Rule.ignoresDirectory k.rules d = true

namespace Justified

theorem bot : Justified k t ⊥ := ⟨fun _ hf => absurd hf id, fun _ hd => absurd hd id⟩

theorem sup (hc : Justified k t c) (hd : Justified k t d) : Justified k t (c ⊔ d) where
  files f hf := hf.elim (fun hf => warrants_mono le_sup_left (hc.files f hf))
    fun hf => warrants_mono le_sup_right (hd.files f hf)
  dirs x hx := hx.elim (hc.dirs x) (hd.dirs x)

theorem iSup {α : Type} {S : Set α} {c : α → Findings} (h : ∀ a ∈ S, Justified k t (c a)) :
    Justified k t (⨆ a ∈ S, c a) where
  files f hf := by
    obtain ⟨a, ha, hf⟩ := mem_iSup_fst.mp hf
    exact warrants_mono (le_iSup₂_of_le a ha le_rfl) ((h a ha).files f hf)
  dirs x hx := by
    obtain ⟨a, ha, hx⟩ := mem_iSup_snd.mp hx
    exact (h a ha).dirs x hx

/-- Ignored directories need no further reason. -/
theorem ignoredDirs {P : Text → Prop} (h : ∀ d, P d → Rule.ignoresDirectory k.rules d = true) :
    Justified k t ((∅, {d | P d}) : Findings) :=
  ⟨fun _ hf => absurd hf (Set.notMem_empty _), h⟩

/-- The sidecars of the directories above justified findings. -/
theorem withAncestorSidecars (h : Justified k t c) :
    Justified k t
      (c ⊔ (({x | ∃ a ∈ c.above, k.Keeps t a ∧ x = a ++ k.suffix}, ∅) : Findings)) where
  files f hf := by
    rcases hf with hf | ⟨a, ha, ⟨hfile, hverdict⟩, rfl⟩
    · exact warrants_mono le_sup_left (h.files f hf)
    · exact .inr ⟨a, rfl, hfile, .inr ⟨hverdict, .inr (above_mono le_sup_left ha)⟩⟩
  dirs x hx := hx.elim (h.dirs x) fun hx => absurd hx (Set.notMem_empty x)

end Justified

end Findings

/-! ## Contributions -/

namespace Pass.Terms

variable (k : Terms) (t : FileTree)

theorem file_justified (path : Text) : Findings.Justified k t (k.file t path) where
  files f hf := by
    obtain ⟨hignored, rfl | ⟨rfl, hfile⟩⟩ := hf
    · exact .inl hignored
    · exact .inr ⟨path, rfl, hfile, .inl ⟨⟨hignored, .inl rfl⟩, hignored⟩⟩
  dirs _ hd := absurd hd (Set.notMem_empty _)

theorem directory_justified (path : Text) : Findings.Justified k t (k.directory t path) where
  files f hf := by
    obtain ⟨hignored, rfl, hfile, hverdict⟩ := hf
    exact .inr ⟨path, rfl, hfile, .inr ⟨hverdict, .inl ⟨hignored, rfl⟩⟩⟩
  dirs d hd := by
    obtain ⟨hignored, rfl⟩ := hd
    exact hignored

theorem parent_justified (path : Text) : Findings.Justified k t (k.parent path) :=
  .ignoredDirs fun _ hd => hd.2.2

theorem entry_justified (found : Path × Bool) : Findings.Justified k t (k.entry t found) := by
  rw [entry]
  split
  · exact k.directory_justified t _
  · exact k.file_justified t _

theorem below_justified (dir : Path) : Findings.Justified k t (k.below t dir) :=
  .iSup fun found _ => k.entry_justified t found

theorem indexEntry_justified (path : Text) : Findings.Justified k t (k.indexEntry t path) := by
  simp only [indexEntry]
  split
  · exact .bot
  · split
    · exact (k.file_justified t _).sup (k.parent_justified t _)
    · exact k.directory_justified t _

theorem taken_justified (found : Path × Bool) : Findings.Justified k t (k.taken t found) := by
  rw [taken]
  split
  · exact (k.directory_justified t _).sup (k.below_justified t _)
  · split
    · exact .bot
    · exact k.file_justified t _

theorem supplemented_justified (known covered : List Text) (l : List (Path × Bool)) :
    Findings.Justified k t (k.supplemented t known covered l) := by
  induction l generalizing covered with
  | nil => exact .bot
  | cons found rest ih =>
    -- an entry is passed over or taken; in either case the rest is scanned with what is covered
    rw [supplemented]
    split
    · exact ih covered
    · exact (k.taken_justified t found).sup (ih _)

end Pass.Terms

/-! ## Operations -/

namespace Pass

variable {k : Terms} {t : FileTree}

/-- What carries over from one operation to the next: what the pass judges by, that its answers
are right, and that all it has found has a reason. -/
structure Accounted (k : Terms) (t : FileTree) (p : Pass) : Prop where
  terms : p.terms = k
  sound : p.Sound
  justified : p.found.Justified k t

/-- To join justified findings keeps a pass accounted for. -/
theorem Joins.accounted {p q : Pass} {c : Findings} (h : Joins p q c) (hp : p.Accounted k t)
    (hc : c.Justified p.terms t) : q.Accounted k t := by
  refine ⟨h.terms.trans hp.terms, h.sound, ?_⟩
  rw [h.found]
  rw [hp.terms] at hc
  exact hp.justified.sup hc

theorem Accounted.ensureAncestors {p : Pass} (h : p.Accounted k t) :
    p.ensureAncestors.Accounted k t :=
  (ensureAncestors_joins h.sound).accounted h (.ignoredDirs fun _ hd => hd.2)

theorem Accounted.addAncestorSidecars {p : Pass} (h : p.Accounted k t) :
    (p.addAncestorSidecars t).Accounted k t := by
  have hjoins := addAncestorSidecars_joins t h.sound
  refine ⟨hjoins.terms.trans h.terms, hjoins.sound, ?_⟩
  rw [hjoins.found, h.terms]
  exact h.justified.withAncestorSidecars

/-- Each operation keeps a pass accounted for. -/
theorem Call.run_justified {p : Pass} (h : p.Accounted k t) (call : Call) :
    (call.run t p).Accounted k t := by
  cases call with
  | addFile path =>
    exact (addFile_spec t h.sound path).2.accounted h (p.terms.file_justified t path)
  | addDirectory path =>
    exact (addDirectory_spec t h.sound path).2.accounted h (p.terms.directory_justified t path)
  | addIndexEntry path =>
    exact (addIndexEntry_joins t h.sound path).accounted h (p.terms.indexEntry_justified t path)
  | addBelow dir => exact (addBelow_joins t h.sound dir).accounted h (p.terms.below_justified t dir)
  | supplement primary known =>
    refine (supplement_joins t h.sound primary known).accounted h ?_
    split
    · exact p.terms.supplemented_justified t known [] _
    · exact .bot
  | ensureAncestors => exact h.ensureAncestors
  | addAncestorSidecars => exact h.addAncestorSidecars
  | complete => exact h.ensureAncestors.addAncestorSidecars

/-- So does any number of operations. -/
theorem Accounted.foldl_run (calls : List Call) {p : Pass} (h : p.Accounted k t) :
    (calls.foldl (Call.run t) p).Accounted k t := by
  induction calls generalizing p with
  | nil => exact h
  | cons call rest ih => exact ih (call.run_justified h)

theorem accounted_new (lines : List Text) (root : Path) (suffix : Text) :
    (new (.ofLines lines) root suffix).Accounted ⟨Rule.ofLines lines, root, suffix⟩ t := by
  refine ⟨rfl, sound_new (Matcher.sound_ofLines lines) root suffix, ?_⟩
  rw [found_new]
  exact .bot

/-- Whatever operations a new pass went through, it answers as the rules of its lines do. -/
theorem answers_foldl_run (t : FileTree) (lines : List Text) (root : Path) (suffix : Text)
    (calls : List Call) :
    let p := calls.foldl (Call.run t) (new (.ofLines lines) root suffix)
    (∀ path, (p.isIgnored path).1 = Rule.ignores (Rule.ofLines lines) path) ∧
      ∀ dir, (p.isDirectoryIgnored dir).1 = Rule.ignoresDirectory (Rule.ofLines lines) dir := by
  intro p
  obtain ⟨hterms, hsound, -⟩ : p.Accounted ⟨Rule.ofLines lines, root, suffix⟩ t :=
    (accounted_new lines root suffix).foldl_run calls
  have hrules : p.terms.rules = Rule.ofLines lines := congrArg Terms.rules hterms
  exact ⟨fun path => hrules ▸ (isIgnored_spec hsound path).1,
    fun dir => hrules ▸ (isDirectoryIgnored_spec hsound dir).1⟩

/-- Where a directory counts as ignored although a negation decides its path, what would be
directly in it is ignored. The path has no slashes at its end. -/
theorem ignores_probe_of_negated {rules : List Rule} {dir : Text}
    (h : Rule.ignoresDirectory rules dir = true) (hverdict : Rule.verdict rules dir = .negated)
    (hdir : ProjectPath.directoryForm dir = ProjectPath.canonical dir) :
    Rule.ignores rules (probe (ProjectPath.directoryForm dir)) = true := by
  have hitself : Rule.ignores rules (ProjectPath.directoryForm dir) = false := by
    rw [hdir, Matcher.ignores_canonical, Rule.ignores, hverdict]
    rfl
  simp only [Rule.ignoresDirectory, hitself, Bool.false_or, Bool.and_eq_true] at h
  exact h.2

/-- **Why something is collected.** In every state that operations on a new pass lead to, in any
order and with any arguments, each collected directory is ignored, and each collected file is
ignored or is a sidecar that is there: of an ignored, collected file, or, if no negation takes it
back, of a collected directory or of a directory above something collected.

So a path that a negation takes back is among the files only as the sidecar of an ignored,
collected file. Among the directories it is, but for slashes at its end, only because what would
be directly in it is ignored. -/
theorem reasons_of_foldl_run (t : FileTree) (lines : List Text) (root : Path) (suffix : Text)
    (calls : List Call) :
    let p := calls.foldl (Call.run t) (new (.ofLines lines) root suffix)
    (∀ d ∈ p.dirs, (p.isDirectoryIgnored d).1 = true) ∧
    (∀ f ∈ p.files, (p.isIgnored f).1 = true ∨
      ∃ x, f = x ++ suffix ∧ t.isFile (root.resolve f) = true ∧
        (x ∈ p.files ∧ (p.isIgnored x).1 = true ∨
          p.matcher.verdict f ≠ .negated ∧
            (x ∈ p.dirs ∨ ∃ y ∈ p.collected, x ∈ ProjectPath.ancestors y))) ∧
    (∀ f ∈ p.files, p.matcher.verdict f = .negated →
      ∃ x ∈ p.files, (p.isIgnored x).1 = true ∧ f = x ++ suffix ∧
        t.isFile (root.resolve f) = true) ∧
    ∀ d ∈ p.dirs, p.matcher.verdict d = .negated →
      ProjectPath.directoryForm d = ProjectPath.canonical d →
        (p.isIgnored (probe (ProjectPath.directoryForm d))).1 = true := by
  intro p
  obtain ⟨hterms, hsound, hfiles, hdirs⟩ : p.Accounted ⟨Rule.ofLines lines, root, suffix⟩ t :=
    (accounted_new lines root suffix).foldl_run calls
  have hrules : p.terms.rules = Rule.ofLines lines := congrArg Terms.rules hterms
  have hignored : ∀ path, (p.isIgnored path).1 = Rule.ignores (Rule.ofLines lines) path :=
    fun path => hrules ▸ (isIgnored_spec hsound path).1
  have hdirectory : ∀ d, (p.isDirectoryIgnored d).1 =
      Rule.ignoresDirectory (Rule.ofLines lines) d :=
    fun d => hrules ▸ (isDirectoryIgnored_spec hsound d).1
  have hverdict : ∀ path, p.matcher.verdict path = Rule.verdict (Rule.ofLines lines) path :=
    fun path => congrArg (Rule.verdict · path) hrules
  simp only [hignored, hdirectory, hverdict]
  refine ⟨hdirs, fun f hf => ?_, fun f hf hnegated => ?_, fun d hd hnegated hform => ?_⟩
  · refine (hfiles f hf).imp_right ?_
    rintro ⟨x, hx, hfile, hreason⟩
    refine ⟨x, hx, hfile, hreason.imp_right (And.imp_right (Or.imp_right ?_))⟩
    rintro ⟨y, hy, ha⟩
    exact ⟨y, TextSet.mem_union.mpr hy, ha⟩
  · -- of the reasons for a file, only that of an ignored file's sidecar allows a negation
    rcases hfiles f hf with hf | ⟨x, hx, hfile, ⟨hmem, hx'⟩ | ⟨hkept, -⟩⟩
    · rw [Rule.ignores, hnegated] at hf
      cases hf
    · exact ⟨x, hmem, hx', hx, hfile⟩
    · exact absurd hnegated hkept
  · exact ignores_probe_of_negated (hdirs d hd) hnegated hform

/-- A directory whose own path a negation takes back, and in which everything is ignored, is
collected without being the sidecar of anything. -/
theorem negated_directory_collected :
    let t := (FileTree.empty.insert [] "Assets".toList .directory).insert ["Assets".toList]
      "Temp".toList .directory
    let lines := ["!Temp".toList, "Temp/".toList]
    let p := [Call.addIndexEntry "Assets/Temp".toList].foldl (Call.run t)
      (new (.ofLines lines) (.ofText ['/']) defaultSidecarSuffix)
    ¬ ∀ path ∈ p.collected, p.matcher.verdict path = .negated →
      ∃ x ∈ p.files, (p.isIgnored x).1 = true ∧ path = x ++ defaultSidecarSuffix := by
  intro t lines p h
  have hfiles : p.files = ∅ := by decide
  obtain ⟨x, hx, -⟩ := h "Assets/Temp".toList (by decide) (by decide)
  rw [hfiles] at hx
  exact TextSet.not_mem_empty x hx

end Pass

end IgnoredPaths
