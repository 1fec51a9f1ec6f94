import IgnoredPaths.Proofs.ClosedForm
import IgnoredPaths.Proofs.Ordinary

/-!
# What is collected is there

The index guesses from the text of a path what the path leads to, and a pass adds texts that
nothing has reported. In a tree without links all these guesses are right: what is collected as a
file is a file, and what is collected as a directory is a directory.

- `Findings.present`: the findings that are right, an upper bound for what a pass finds.
- `FileTree.isDirectory_of_mem_ancestors`: what is above something present is a directory.
- `present_of_mem_collect`: what a collection holds is there.
-/

namespace IgnoredPaths

/-- The findings that are ordinary texts and lead to files and to directories. -/
def Findings.present (t : FileTree) (root : Path) : Findings :=
  ({f | ProjectPath.IsOrdinary f ∧ t.isFile (root.resolve f) = true},
    {d | ProjectPath.IsOrdinary d ∧ t.isDirectory (root.resolve d) = true})

/-! ## Entries that are shown -/

namespace FileTree

variable {t : FileTree} {root : Path} {dir path : Text} {trail : Trail} {e : Entry}

theorem Shows.isFile (h : t.Shows root dir trail e) (hlink : t.NoLink)
    (hdir : ProjectPath.StaysInside dir) (hfile : e.isDirectory = false) :
    t.isFile (root.resolve (ProjectPath.descend dir trail.reverse)) = true := by
  obtain ⟨_, -, hstat⟩ := h.stat hdir.1 (h.ne_link hlink)
  cases e with
  | file content mtime => exact isFile_iff.mpr ⟨_, content, mtime, hstat⟩
  | directory => cases hfile
  | link target => exact absurd rfl (h.ne_link hlink target)

theorem Shows.isDirectory_descend (h : t.Shows root dir trail .directory)
    (hdir : ProjectPath.StaysInside dir) :
    t.isDirectory (root.resolve (ProjectPath.descend dir trail.reverse)) = true := by
  obtain ⟨_, -, hstat⟩ := h.stat hdir.1 Entry.directory_ne_link
  exact isDirectory_iff.mpr ⟨_, hstat⟩

/-- What is above a path that leads somewhere is a directory. -/
theorem isDirectory_of_mem_ancestors (hpath : ProjectPath.IsOrdinary path) {l : Location}
    (hstat : t.stat (root.resolve path) = .ok (l, e)) {a : Text}
    (ha : a ∈ ProjectPath.ancestors path) : t.isDirectory (root.resolve a) = true := by
  have hordinary := hpath.of_mem_ancestors ha
  obtain ⟨⟨rest, hrest⟩, hne⟩ := (hpath.mem_ancestors_iff hordinary).mp ha
  have hrestNe : rest ≠ [] := by
    rintro rfl
    rw [List.append_nil] at hrest
    exact hne (by rw [← hordinary.joinWith, hrest, hpath.joinWith])
  have hnames : ∀ s ∈ Path.segmentsOf a ++ rest, IsSegment s := by
    rw [hrest]
    exact fun s hs => Path.isSegment_of_mem_segmentsOf hs
  rw [hpath.staysInside.resolve, ← hrest] at hstat
  rw [hordinary.staysInside.resolve]
  exact isDirectory_iff.mpr (stat_extend_of_append hnames hrestNe hstat)

end FileTree

/-! ## What a pass finds -/

namespace Settings

variable {t : FileTree} {settings : Settings} {x : Text}

/-- The files that are judged are files. -/
theorem present_of_mem_candidateFiles (hlink : t.NoLink)
    (hprimary : ProjectPath.StaysInside settings.primaryRoot)
    (h : x ∈ settings.candidateFiles t) :
    ProjectPath.IsOrdinary x ∧ t.isFile (settings.projectRoot.resolve x) = true := by
  rcases h with ⟨trail, e, hshows, hfile, rfl, -⟩ | ⟨root, hroot, trail, e, hshows, hfile, rfl⟩
  · exact ⟨Pass.Terms.isOrdinary_of_shows hshows hprimary, hshows.isFile hlink hprimary hfile⟩
  · have hinside := staysInside_of_mem_acceptedExtraRoots hroot
    exact ⟨Pass.Terms.isOrdinary_of_shows hshows hinside, hshows.isFile hlink hinside hfile⟩

/-- The directories that are judged are directories. -/
theorem present_of_mem_candidateDirs (hprimary : ProjectPath.StaysInside settings.primaryRoot)
    (h : x ∈ settings.candidateDirs t) :
    ProjectPath.IsOrdinary x ∧ t.isDirectory (settings.projectRoot.resolve x) = true := by
  obtain ⟨root, hroot, trail, hshows, rfl⟩ := h
  have hinside : ProjectPath.StaysInside root := by
    rcases List.mem_cons.mp hroot with rfl | hroot
    · exact hprimary
    · exact staysInside_of_mem_acceptedExtraRoots hroot
  exact ⟨Pass.Terms.isOrdinary_of_shows hshows hinside, hshows.isDirectory_descend hinside⟩

/-- What is judged to be ignored is there. -/
theorem plain_le_present (hlink : t.NoLink)
    (hprimary : ProjectPath.IsOrdinary settings.primaryRoot)
    (hsuffix : '/' ∉ settings.sidecarSuffix) (rules : List Rule) :
    ((settings.plainFiles t rules, settings.plainDirs t rules) : Findings) ≤
      Findings.present t settings.projectRoot := by
  refine ⟨?_, ?_⟩
  · rintro x (⟨f, hf, -, rfl | ⟨rfl, hfile⟩⟩ | ⟨d, hd, -, rfl, hfile, -⟩)
    · exact present_of_mem_candidateFiles hlink hprimary.staysInside hf
    · have hordinary := (present_of_mem_candidateFiles hlink hprimary.staysInside hf).1
      exact ⟨hordinary.append hsuffix, hfile⟩
    · have hordinary := (present_of_mem_candidateDirs hprimary.staysInside hd).1
      exact ⟨hordinary.append hsuffix, hfile⟩
  · rintro x (⟨hd, -⟩ | ⟨rfl, -, name, e, hshows, -⟩)
    · exact present_of_mem_candidateDirs hprimary.staysInside hd
    · exact ⟨hprimary, hshows.isDirectory⟩

end Settings

namespace Findings

variable {t : FileTree} {root : Path} {c : Findings} {a : Text}

/-- What is above something present is an ordinary text and a directory. -/
theorem present_of_mem_above (h : c ≤ present t root) (ha : a ∈ c.above) :
    ProjectPath.IsOrdinary a ∧ t.isDirectory (root.resolve a) = true := by
  obtain ⟨x, hx, ha⟩ := ha
  obtain ⟨hordinary, l, e, hstat⟩ :
      ProjectPath.IsOrdinary x ∧ ∃ l e, t.stat (root.resolve x) = .ok (l, e) := by
    rcases hx with hx | hx
    · obtain ⟨hordinary, hfile⟩ := h.1 hx
      obtain ⟨l, content, mtime, hstat⟩ := FileTree.isFile_iff.mp hfile
      exact ⟨hordinary, l, _, hstat⟩
    · obtain ⟨hordinary, hdirectory⟩ := h.2 hx
      obtain ⟨l, hstat⟩ := FileTree.isDirectory_iff.mp hdirectory
      exact ⟨hordinary, l, _, hstat⟩
  exact ⟨hordinary.of_mem_ancestors ha,
    FileTree.isDirectory_of_mem_ancestors hordinary hstat ha⟩

/-- The completion of findings that are there adds such findings. -/
theorem completed_le_present {k : Pass.Terms} (hsuffix : '/' ∉ k.suffix)
    (h : c ≤ present t k.root) : c.completed k t ≤ present t k.root := by
  rw [completed_eq]
  refine ⟨Set.union_subset h.1 ?_, Set.union_subset h.2 fun a ha => present_of_mem_above h ha.1⟩
  rintro x ⟨a, ha, hkeeps, rfl⟩
  exact ⟨(present_of_mem_above h ha).1.append hsuffix, hkeeps.1⟩

end Findings

/-- In a tree without links, what is collected as a file is a file, and what is collected as a
directory is a directory, each known by an ordinary text. No file is listed twice. -/
theorem present_of_mem_collect {t : FileTree} {settings : Settings} (lines : List Text)
    (hlink : t.NoLink) (hlegible : t.Legible settings.projectRoot)
    (hprimary : ProjectPath.IsOrdinary settings.primaryRoot)
    (hsuffix : '/' ∉ settings.sidecarSuffix) :
    let c := collect t settings (some (.ofLines lines))
    (∀ f ∈ c.files, ProjectPath.IsOrdinary f ∧
      t.isFile (settings.projectRoot.resolve f) = true) ∧
    (∀ d ∈ c.dirs, ProjectPath.IsOrdinary d ∧
      t.isDirectory (settings.projectRoot.resolve d) = true) ∧
    c.files.Nodup := by
  intro c
  have hspec : (collectListing t settings (.ofLines lines) (defaultListing t settings)).found = _ :=
    (collectListing_spec (Matcher.sound_ofLines lines) _).2
  rw [Settings.gathered_eq hlink hlegible hprimary hsuffix, Settings.judged_eq] at hspec
  obtain ⟨⟨-, hdirs⟩, hascending, hfiles⟩ := Pass.result_spec hspec
  have hle := Findings.completed_le_present (k := settings.terms (Rule.ofLines lines)) hsuffix
    (Settings.plain_le_present hlink hprimary hsuffix (Rule.ofLines lines))
  refine ⟨fun f hf => hle.1 ((hfiles f).mp hf), fun d hd => hle.2 ((hdirs d).mp hd), ?_⟩
  exact hascending.imp fun h => ne_of_lt h

end IgnoredPaths
