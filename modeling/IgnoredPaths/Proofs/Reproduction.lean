import IgnoredPaths.Proofs.Gains
import IgnoredPaths.Proofs.Present

/-!
# What an export reproduces

An export into a new folder repeats there what the listed paths lead to. Two listed paths never
stand in each other's way, since what the folder holds under some names is always of the kind that
these names lead to from the root: nothing is asked of the order of the paths.

Locked directories are no hindrance, as nothing is listed; only the folder needs a name that an
entry may have.

- `FileTree.Mirrors`: what holds of a folder while it is filled.
- `FileTree.Mirrors.exportDirs`, `FileTree.Mirrors.exportFiles`: the loops of an export.
- `Reproduced`: what a collection comes to in a folder.
- `fillFolder_gains`: a folder that is filled with paths of files and directories.
- `exportCollection_reproduces`: what is collected is reproduced.
-/

namespace IgnoredPaths

namespace FileTree

variable {t₀ t t' : FileTree} {root destination : Path} {folder l : Location}
  {names : List Text}

/-- The names on a path that leads somewhere are names of entries. -/
theorem isName_of_stat {e : Entry} (h : t.stat (root.extend names) = .ok (l, e))
    (hnames : ∀ n ∈ names, LeadsDown n) : ∀ n ∈ names, IsName n := by
  intro n hn
  have hmem : n ∈ (root.extend names).segments := by
    rw [root.segments_extend fun n hn => (hnames n hn).1]
    exact List.mem_append_right _ hn
  obtain ⟨_, _, hget⟩ := exists_get?_of_stat h hmem (hnames n hn).2
  exact isName_of_get? hget

/-- The first names on a path to a directory lead to a directory. -/
theorem stat_of_prefix {outer : List Text} (h : t.stat (root.extend names) = .ok (l, .directory))
    (hnames : ∀ n ∈ names, LeadsDown n) (houter : outer <+: names) :
    ∃ dir, t.stat (root.extend outer) = .ok (dir, .directory) := by
  obtain ⟨rest, rfl⟩ := houter
  by_cases hrest : rest = []
  · rw [hrest, List.append_nil] at h
    exact ⟨l, h⟩
  · exact stat_extend_of_append (fun n hn => (hnames n hn).1) hrest h

/-- A folder that is being filled: all else is as it was, and under some names the folder holds
what these lead to from the root. -/
structure Mirrors (t₀ : FileTree) (root destination : Path) (folder : Location) (t : FileTree) :
    Prop where
  vacant : t₀.get? folder = none
  fills : Fills folder t₀ t
  isFolder : t.IsFolder destination folder
  same : ∀ trail e, trail ≠ [] → t.get? (trail ++ folder) = some e →
    ∃ l, t₀.stat (root.extend trail.reverse) = .ok (l, e)

/-- What a file contributes to a folder: the directories above it, and itself. -/
def copied (t₀ : FileTree) (root : Path) (file : Text) : Set (Trail × Entry) :=
  along (Path.segmentsOf file).dropLast ∪
    {p | p.1.reverse = Path.segmentsOf file ∧ ∃ content mtime,
      t₀.read (root.resolve file) = .ok (content, mtime) ∧ p.2 = .file content mtime}

/-- A file contributes the directories above it and one entry under its name. -/
theorem copied_eq {file name : Text} {outer : List Text} {content : ByteArray} {mtime : Int}
    (hsegments : Path.segmentsOf file = outer ++ [name])
    (hread : t₀.read (root.resolve file) = .ok (content, mtime)) :
    copied t₀ root file = along outer ∪ {(name :: outer.reverse, .file content mtime)} := by
  rw [copied, hsegments, List.dropLast_concat, hread]
  congr 1
  refine Set.ext fun ⟨trail, e⟩ => ⟨?_, ?_⟩
  · rintro ⟨htrail, _, _, hsame, rfl⟩
    cases hsame
    rw [← List.reverse_reverse trail, htrail, List.reverse_concat]
    rfl
  · rintro ⟨rfl, rfl⟩
    exact ⟨List.reverse_cons.trans (by rw [List.reverse_reverse]), content, mtime, rfl, rfl⟩

namespace Mirrors

/-- Along names that lead to a directory from the root, a folder holds only directories. -/
theorem passable (h : Mirrors t₀ root destination folder t)
    (hstat : t₀.stat (root.extend names) = .ok (l, .directory))
    (hnames : ∀ n ∈ names, LeadsDown n) : t.Passable folder names := by
  intro outer houter e he
  by_cases hnil : outer = []
  · rw [hnil, List.reverse_nil, List.nil_append, get?_of_stat h.isFolder.stat] at he
    exact (Option.some.inj he).symm
  · obtain ⟨m, hm⟩ := h.same outer.reverse e (fun hrev => hnil (List.reverse_eq_nil_iff.mp hrev)) he
    obtain ⟨dir, hdir⟩ := stat_of_prefix hstat hnames houter
    rw [List.reverse_reverse, hdir] at hm
    exact (congrArg Prod.snd (Except.ok.inj hm)).symm

/-- A folder stays a mirror when it gains what the names lead to from the root. -/
theorem of_gains (h : Mirrors t₀ root destination folder t) {new : Set (Trail × Entry)}
    (hfills : Fills folder t t') (hgains : Gains folder new t t')
    (hnew : ∀ p ∈ new, p.1 ≠ [] → ∃ l, t₀.stat (root.extend p.1.reverse) = .ok (l, p.2)) :
    Mirrors t₀ root destination folder t' where
  vacant := h.vacant
  fills := h.fills.trans hfills
  isFolder := h.isFolder.of_fills hfills
  same trail e htrail he := by
    rcases (hgains trail e).mp he with he | he
    · exact h.same trail e htrail he
    · exact hnew (trail, e) he htrail

/-- What was found before the export is found all along. -/
theorem stat_eq (h : Mirrors t₀ root destination folder t) {p : Path} {e : Entry}
    (hstat : t₀.stat p = .ok (l, e)) : t.stat p = .ok (l, e) :=
  stat_mono h.fills.kept (h.fills.kept_of_vacant h.vacant (get?_of_stat hstat)) hstat

/-- A directory, with those above it. -/
theorem makeDirectories (h : Mirrors t₀ root destination folder t)
    (hstat : t₀.stat (root.extend names) = .ok (l, .directory))
    (hnames : ∀ n ∈ names, LeadsDown n) :
    ∃ t', t.makeDirectories (destination.extend names) true = (t', none) ∧
      Mirrors t₀ root destination folder t' ∧ Gains folder (along names) t t' := by
  obtain ⟨t', hmake, hgains⟩ := h.isFolder.makeDirectories_of_passable (isName_of_stat hstat hnames)
    (h.passable hstat hnames)
  have hfills := h.isFolder.fills_makeDirectories hnames true
  rw [hmake] at hfills
  refine ⟨t', hmake, h.of_gains hfills hgains ?_, hgains⟩
  rintro ⟨trail, e⟩ ⟨htrail, rfl⟩ -
  exact stat_of_prefix hstat hnames htrail

/-- A file, with the directories above it. -/
theorem exportFile (h : Mirrors t₀ root destination folder t) {file : Text}
    (hfile : ProjectPath.IsOrdinary file) {content : ByteArray} {mtime : Int}
    (hstat : t₀.stat (root.resolve file) = .ok (l, .file content mtime)) :
    ∃ t', IgnoredPaths.exportFile t (root.resolve file) (destination.resolve file) = (t', none) ∧
      Mirrors t₀ root destination folder t' ∧ Gains folder (copied t₀ root file) t t' := by
  have hinside := hfile.staysInside
  have hnames := hinside.leadsDown
  obtain ⟨outer, name, hsegments⟩ :=
    (List.eq_nil_or_concat' (Path.segmentsOf file)).resolve_left hfile.segments_ne_nil
  have htarget := hinside.resolve destination
  have hread : t₀.read (root.resolve file) = .ok (content, mtime) := by rw [read, hstat]
  have hcopied := copied_eq hsegments hread
  have hfound : t₀.stat (root.extend (outer ++ [name])) = .ok (l, .file content mtime) := by
    rw [← hsegments, ← hinside.resolve, hstat]
  rw [hsegments] at hnames htarget
  obtain ⟨houter, hname⟩ := List.forall_mem_append.mp (isName_of_stat hfound hnames)
  have houter : ∀ n ∈ outer, LeadsDown n := fun n hn => (houter n hn).leadsDown
  have hname : IsName name := hname name List.mem_cons_self
  -- the directories above
  obtain ⟨dir, hdir⟩ := stat_extend_of_append (fun n hn => (hnames n hn).1)
    (List.cons_ne_nil name []) hfound
  obtain ⟨t₁, hmake, hmirrors, hgains⟩ := h.makeDirectories hdir houter
  have hplace : t₁.get? (outer.reverse ++ folder) = some .directory :=
    (hgains _ _).mpr (.inr ⟨(List.reverse_reverse outer).symm ▸ List.prefix_refl outer, rfl⟩)
  -- the source is not at the place of the copy, since nothing was there
  have hother : l ≠ name :: (outer.reverse ++ folder) := by
    rintro rfl
    have hbelow : folder <:+ name :: (outer.reverse ++ folder) :=
      (List.suffix_append outer.reverse folder).trans (List.suffix_cons name _)
    have hnone := get?_of_vacant h.vacant hbelow
    rw [get?_of_stat hstat] at hnone
    cases hnone
  -- what is at the place of the copy now is of the file's own kind
  have hfree : ∀ e, t₁.get? (name :: (outer.reverse ++ folder)) = some e →
      e = .file content mtime := by
    intro e he
    obtain ⟨m, hm⟩ := hmirrors.same (name :: outer.reverse) e (List.cons_ne_nil _ _) he
    rw [List.reverse_cons, List.reverse_reverse, hfound] at hm
    exact (congrArg Prod.snd (Except.ok.inj hm)).symm
  obtain ⟨t₂, hcopy, hget⟩ := copyFile_extend
    (stat_extend_names hmirrors.isFolder.stat hplace Entry.directory_ne_link) hname (hmirrors.stat_eq hstat) hother
    hfree
  have hexport : IgnoredPaths.exportFile t (root.resolve file) (destination.resolve file) =
      (t₂, none) := by
    rw [Path.extend_extend] at hcopy
    rw [IgnoredPaths.exportFile, htarget, Path.parent_extend destination outer hname.1, hmake]
    exact hcopy
  have hgainsAll : Gains folder (copied t₀ root file) t t₂ := by
    rw [hcopied]
    exact hgains.trans (.singleton hget hfree)
  have hfills := h.isFolder.fills_exportFile (root.resolve file) hinside
  rw [hexport] at hfills
  refine ⟨t₂, hexport, h.of_gains hfills hgainsAll ?_, hgainsAll⟩
  rw [hcopied]
  rintro ⟨trail, e⟩ (⟨htrail, rfl⟩ | ⟨rfl, rfl⟩) -
  · exact stat_of_prefix hdir houter htrail
  · exact ⟨l, by rw [List.reverse_cons, List.reverse_reverse, hfound]⟩

/-! ## The loops of an export -/

theorem exportDirs {dirs : List Text} {s : ExportState}
    (h : Mirrors t₀ root destination folder s.tree)
    (hdirs : ∀ d ∈ dirs, ProjectPath.IsOrdinary d ∧ t₀.isDirectory (root.resolve d) = true) :
    ∃ tree, IgnoredPaths.exportDirs destination dirs s =
        ({ s with tree := tree, dirsCreated := s.dirsCreated + dirs.length }, none) ∧
      Mirrors t₀ root destination folder tree ∧
      Gains folder {p | ∃ d ∈ dirs, p ∈ along (Path.segmentsOf d)} s.tree tree := by
  induction dirs generalizing s with
  | nil => exact ⟨s.tree, rfl, h, .nil _⟩
  | cons d rest ih =>
    obtain ⟨hordinary, hdirectory⟩ := hdirs d List.mem_cons_self
    obtain ⟨l, hstat⟩ := isDirectory_iff.mp hdirectory
    have hinside := hordinary.staysInside
    rw [hinside.resolve] at hstat
    obtain ⟨t', hmake, hmirrors, hgains⟩ := h.makeDirectories hstat hinside.leadsDown
    obtain ⟨tree, hrun, hmirrors', hgains'⟩ :=
      @ih ⟨t', s.dirsCreated + 1, s.filesCopied, s.messages⟩
        hmirrors fun x hx => hdirs x (List.mem_cons_of_mem d hx)
    refine ⟨tree, ?_, hmirrors', hgains.cons hgains'⟩
    rw [IgnoredPaths.exportDirs, hinside.resolve, hmake]
    refine hrun.trans ?_
    rw [List.length_cons, Nat.add_assoc, Nat.add_comm 1]

theorem exportFiles {files : List Text} {s : ExportState}
    (h : Mirrors t₀ root destination folder s.tree)
    (hfiles : ∀ f ∈ files, ProjectPath.IsOrdinary f ∧ t₀.isFile (root.resolve f) = true) :
    ∃ tree, IgnoredPaths.exportFiles root destination files s =
        ({ s with
            tree := tree
            filesCopied := s.filesCopied + files.length
            messages := s.messages ++ files.map .copied }, none) ∧
      Mirrors t₀ root destination folder tree ∧
      Gains folder {p | ∃ f ∈ files, p ∈ copied t₀ root f} s.tree tree := by
  induction files generalizing s with
  | nil =>
    refine ⟨s.tree, ?_, h, .nil _⟩
    rw [IgnoredPaths.exportFiles, List.map_nil, List.append_nil]
    rfl
  | cons f rest ih =>
    obtain ⟨hordinary, hfile⟩ := hfiles f List.mem_cons_self
    obtain ⟨l, content, mtime, hstat⟩ := isFile_iff.mp hfile
    obtain ⟨t', hexport, hmirrors, hgains⟩ := h.exportFile hordinary hstat
    have hstill : s.tree.isFile (root.resolve f) = true :=
      isFile_iff.mpr ⟨l, content, mtime, h.stat_eq hstat⟩
    obtain ⟨tree, hrun, hmirrors', hgains'⟩ :=
      @ih ⟨t', s.dirsCreated, s.filesCopied + 1, s.messages ++ [.copied f]⟩
        hmirrors fun x hx => hfiles x (List.mem_cons_of_mem f hx)
    refine ⟨tree, ?_, hmirrors', hgains.cons hgains'⟩
    simp only [IgnoredPaths.exportFiles, hstill, hexport, if_true]
    refine hrun.trans ?_
    rw [List.length_cons, Nat.add_assoc, Nat.add_comm 1, List.map_cons, List.append_assoc,
      List.singleton_append]

end Mirrors

end FileTree

/-! ## The folder of an export -/

/-- What a collection comes to in a folder: one copy of each file, the directories, and those
above them and above the files. -/
structure Reproduced (t : FileTree) (c : Collection) (root : Path) (folder : Location)
    (t' : FileTree) : Prop where
  /-- All listed files can be read. -/
  readable : ∀ f ∈ c.files, ∃ content mtime, t.read (root.resolve f) = .ok (content, mtime)
  /-- No two files are copied to one place. -/
  distinct : (c.files.map Path.segmentsOf).Nodup
  file : ∀ trail content mtime, t'.get? (trail ++ folder) = some (.file content mtime) ↔
    ∃ f ∈ c.files, Path.segmentsOf f = trail.reverse ∧
      t.read (root.resolve f) = .ok (content, mtime)
  directory : ∀ trail, t'.get? (trail ++ folder) = some .directory ↔
    trail = [] ∨ ∃ d, Path.segmentsOf d = trail.reverse ∧
      (d ∈ c.dirs ∨ ∃ x ∈ c.dirs ++ c.files, d ∈ ProjectPath.ancestors x)
  link : ∀ trail target, t'.get? (trail ++ folder) ≠ some (.link target)

/-- What an export adds: its folder, and what the listed paths contribute. -/
def exported (t : FileTree) (c : Collection) (root : Path) : Set (Trail × Entry) :=
  {([], .directory)} ∪ {p | ∃ d ∈ c.dirs, p ∈ FileTree.along (Path.segmentsOf d)} ∪
    {p | ∃ f ∈ c.files, p ∈ FileTree.copied t root f}

section

variable {t : FileTree} {c : Collection} {root parent : Path} {l : Location} {name : Text}
  {trail : Trail} {content : ByteArray} {mtime : Int}

theorem mem_exported_iff {e : Entry} : (trail, e) ∈ exported t c root ↔
    (trail = [] ∧ e = .directory ∨ ∃ d ∈ c.dirs, (trail, e) ∈ FileTree.along (Path.segmentsOf d)) ∨
      ∃ f ∈ c.files, (trail, e) ∈ FileTree.copied t root f := by
  simp only [exported, Set.mem_union, Set.mem_singleton_iff, Prod.mk.injEq, Set.mem_ofPred_eq]

theorem file_mem_exported_iff : (trail, .file content mtime) ∈ exported t c root ↔
    ∃ f ∈ c.files, Path.segmentsOf f = trail.reverse ∧
      t.read (root.resolve f) = .ok (content, mtime) := by
  rw [mem_exported_iff]
  constructor
  · rintro ((⟨-, he⟩ | ⟨d, -, -, he⟩) | ⟨f, hf, ⟨-, he⟩ | ⟨htrail, _, _, hread, he⟩⟩)
    · cases he
    · cases he
    · cases he
    · cases he
      exact ⟨f, hf, htrail.symm, hread⟩
  · rintro ⟨f, hf, hsegments, hread⟩
    exact .inr ⟨f, hf, .inr ⟨hsegments.symm, content, mtime, hread, rfl⟩⟩

theorem directory_mem_exported_iff (hdirs : ∀ d ∈ c.dirs, ProjectPath.IsOrdinary d)
    (hfiles : ∀ f ∈ c.files, ProjectPath.IsOrdinary f) :
    (trail, .directory) ∈ exported t c root ↔ trail = [] ∨ ∃ d, Path.segmentsOf d = trail.reverse ∧
      (d ∈ c.dirs ∨ ∃ x ∈ c.dirs ++ c.files, d ∈ ProjectPath.ancestors x) := by
  rw [mem_exported_iff]
  by_cases htrail : trail = []
  · exact iff_of_true (.inl (.inl ⟨htrail, rfl⟩)) (.inl htrail)
  · have hne : trail.reverse ≠ [] := fun hnil => htrail (List.reverse_eq_nil_iff.mp hnil)
    constructor
    · rintro ((⟨hnil, -⟩ | ⟨d, hd, hfirst, -⟩) | ⟨f, hf, ⟨hfirst, -⟩ | ⟨-, _, _, -, he⟩⟩)
      · exact .inl hnil
      · rcases (hdirs d hd).prefix_iff.mp hfirst with hself | habove
        · exact .inr ⟨d, hself.symm, .inl hd⟩
        · obtain ⟨a, ha, hsegments⟩ := ((hdirs d hd).prefix_dropLast_iff hne).mp habove
          exact .inr ⟨a, hsegments, .inr ⟨d, List.mem_append_left _ hd, ha⟩⟩
      · obtain ⟨a, ha, hsegments⟩ := ((hfiles f hf).prefix_dropLast_iff hne).mp hfirst
        exact .inr ⟨a, hsegments, .inr ⟨f, List.mem_append_right _ hf, ha⟩⟩
      · cases he
    · rintro (hnil | ⟨d, hsegments, hd | ⟨x, hx, hd⟩⟩)
      · exact absurd hnil htrail
      · exact .inl (.inr ⟨d, hd, hsegments.symm ▸ List.prefix_refl _, rfl⟩)
      · rcases List.mem_append.mp hx with hx | hx
        · have habove := ((hdirs x hx).prefix_dropLast_iff hne).mpr ⟨d, hd, hsegments⟩
          exact .inl (.inr ⟨x, hx, (hdirs x hx).prefix_iff.mpr (.inr habove), rfl⟩)
        · have habove := ((hfiles x hx).prefix_dropLast_iff hne).mpr ⟨d, hd, hsegments⟩
          exact .inr ⟨x, hx, .inl ⟨habove, rfl⟩⟩

theorem link_not_mem_exported (target : Text) : (trail, .link target) ∉ exported t c root := by
  rw [mem_exported_iff]
  rintro ((⟨-, he⟩ | ⟨d, -, -, he⟩) | ⟨f, hf, ⟨-, he⟩ | ⟨-, _, _, -, he⟩⟩)
  · cases he
  · cases he
  · cases he
  · cases he

/-- A folder that was not there and has gained what an export adds reproduces the collection. -/
theorem reproduced_of_gains {folder : Location} {t' : FileTree} (hvacant : t.get? folder = none)
    (hdirs : ∀ d ∈ c.dirs, ProjectPath.IsOrdinary d)
    (hfiles : ∀ f ∈ c.files, ProjectPath.IsOrdinary f ∧ t.isFile (root.resolve f) = true)
    (hnodup : c.files.Nodup) (h : FileTree.Gains folder (exported t c root) t t') :
    Reproduced t c root folder t' := by
  have hget : ∀ trail e, t'.get? (trail ++ folder) = some e ↔ (trail, e) ∈ exported t c root := by
    refine fun trail e => (h trail e).trans (or_iff_right ?_)
    rw [FileTree.get?_of_vacant hvacant (List.suffix_append trail folder)]
    nofun
  refine ⟨fun f hf => ?_, ?_, fun trail content mtime => ?_, fun trail => ?_,
    fun trail target => ?_⟩
  · obtain ⟨_, content, mtime, hstat⟩ := FileTree.isFile_iff.mp (hfiles f hf).2
    exact ⟨content, mtime, by rw [FileTree.read, hstat]⟩
  · refine hnodup.map_on fun f hf g hg hsame => ?_
    rw [← (hfiles f hf).1.joinWith, hsame, (hfiles g hg).1.joinWith]
  · exact (hget trail _).trans file_mem_exported_iff
  · exact (hget trail _).trans (directory_mem_exported_iff hdirs fun f hf => (hfiles f hf).1)
  · exact fun he => link_not_mem_exported target ((hget trail _).mp he)

/-- A new folder is filled without a fault, and gains what the listed paths lead to. -/
theorem fillFolder_gains (hparent : t.stat parent = .ok (l, .directory)) (hadmits : t.Admits l name)
    (hdirs : ∀ d ∈ c.dirs, ProjectPath.IsOrdinary d ∧ t.isDirectory (root.resolve d) = true)
    (hfiles : ∀ f ∈ c.files, ProjectPath.IsOrdinary f ∧ t.isFile (root.resolve f) = true) :
    ∃ tree, fillFolder t c root (parent.extend [name]) =
        (⟨tree, c.dirs.length, c.files.length, c.files.map .copied⟩, none) ∧
      tree.stat (parent.extend [name]) = .ok (name :: l, .directory) ∧
      FileTree.Gains (name :: l) (exported t c root) t tree := by
  have hnew : FileTree.Gains (name :: l) {([], .directory)} t (t.insert l name .directory) := by
    refine .singleton (FileTree.get?_insert hadmits) fun d hd => ?_
    rw [List.nil_append, hadmits.2.2] at hd
    cases hd
  have hmirrors : FileTree.Mirrors t root (parent.extend [name]) (name :: l)
      (t.insert l name .directory) := by
    refine ⟨hadmits.2.2, .insert (List.suffix_refl _) nofun,
      FileTree.isFolder_insert hparent hadmits, fun trail e htrail he => ?_⟩
    rcases (hnew trail e).mp he with he | he
    · rw [FileTree.get?_of_vacant hadmits.2.2 (List.suffix_append trail _)] at he
      cases he
    · exact absurd (congrArg Prod.fst (Set.mem_singleton_iff.mp he)) htrail
  have hmake : t.makeDirectories (parent.extend [name]) false =
      (t.insert l name .directory, none) := by
    have hcases := FileTree.makeDirectories_extend_of_stat hparent hadmits.1.leadsDown
    exact (hcases.resolve_right fun hnot => hnot.1 hadmits).2
  obtain ⟨t₁, hdirsRun, hmirrors₁, hgains₁⟩ :=
    @FileTree.Mirrors.exportDirs _ _ _ _ _ ⟨t.insert l name .directory, 0, 0, []⟩ hmirrors hdirs
  obtain ⟨t₂, hfilesRun, hmirrors₂, hgains₂⟩ :=
    @FileTree.Mirrors.exportFiles _ _ _ _ _ ⟨t₁, 0 + c.dirs.length, 0, []⟩ hmirrors₁ hfiles
  refine ⟨t₂, ?_, hmirrors₂.isFolder.stat, (hnew.trans hgains₁).trans hgains₂⟩
  rw [fillFolder, hmake]
  simp only [hdirsRun]
  refine hfilesRun.trans ?_
  simp only [Nat.zero_add, List.nil_append]

/-- An export of paths that are there succeeds and reproduces what they lead to. -/
theorem exportCollection_of_present (hparent : t.stat parent = .ok (l, .directory))
    (hlink : t.NoLink) (hname : checkFolderName name = .ok ())
    (hallows : AllowsFolder t parent name)
    (hdirs : ∀ d ∈ c.dirs, ProjectPath.IsOrdinary d ∧ t.isDirectory (root.resolve d) = true)
    (hfiles : ∀ f ∈ c.files, ProjectPath.IsOrdinary f ∧ t.isFile (root.resolve f) = true)
    (hnodup : c.files.Nodup) :
    let run := exportCollection t c root parent name false
    (∃ destination folder, destinationOf t parent name = .ok destination ∧
      run.answer = .ok ⟨destination, c.dirs.length, c.files.length⟩ ∧
      t.get? folder = none ∧ run.tree.stat destination = .ok (folder, .directory) ∧
      Reproduced t c root folder run.tree) ∧
    run.messages = c.files.map .copied := by
  intro run
  obtain ⟨n, hadmits, hdestination⟩ :=
    exists_destinationOf hname hparent (fun n target => hlink (n :: l) target) hallows
  obtain ⟨tree, hfill, hfolder, hgains⟩ := fillFolder_gains hparent hadmits hdirs hfiles
  have hrun : run = ⟨.ok ⟨parent.extend [numberedName name n], c.dirs.length, c.files.length⟩, tree,
      c.files.map .copied⟩ := by
    show exportCollection t c root parent name false = _
    simp only [exportCollection, hdestination, Bool.false_eq_true, if_false, hfill]
  rw [hrun]
  refine ⟨⟨_, _, hdestination, rfl, hadmits.2.2, hfolder, ?_⟩, rfl⟩
  exact reproduced_of_gains hadmits.2.2 (fun d hd => (hdirs d hd).1) hfiles hnodup hgains

end

/-- **What is collected is reproduced.** In a tree without links and without backslashes in names,
a collection over the default index is exported without an error to any directory under any
accepted name, if the names that are tried for the folder are names that an entry may have. The
new folder then holds, apart from itself, one copy of each collected file, with its content and
modification time, the collected directories, the directories above both, and nothing else. All
directories and files are counted, and all files are reported as copied, none as missing. Any
directories may be locked. The root is not written as two slashes alone, which no canonical path
is (`FileTree.toText_ne_of_canonical`). -/
theorem exportCollection_reproduces (t : FileTree) (settings : Settings) (lines : List Text)
    (parent : Path) (name : Text) (hlink : t.NoLink) (hback : t.NoBackslash)
    (hroot : settings.projectRoot.toText ≠ ['/', '/'])
    (hprimary : ProjectPath.IsOrdinary settings.primaryRoot)
    (hsuffix : '/' ∉ settings.sidecarSuffix) (hparent : t.isDirectory parent = true)
    (hname : checkFolderName name = .ok ()) (hallows : AllowsFolder t parent name) :
    let c := collect t settings (some (.ofLines lines))
    let run := exportCollection t c settings.projectRoot parent name false
    (∃ destination folder, destinationOf t parent name = .ok destination ∧
      run.answer = .ok ⟨destination, c.dirs.length, c.files.length⟩ ∧
      t.get? folder = none ∧ run.tree.stat destination = .ok (folder, .directory) ∧
      Reproduced t c settings.projectRoot folder run.tree) ∧
    run.messages = c.files.map .copied := by
  intro c run
  obtain ⟨hfiles, hdirs, hnodup⟩ :=
    present_of_mem_collect lines hlink ⟨hback, hroot⟩ hprimary hsuffix
  obtain ⟨l, hparent⟩ := FileTree.isDirectory_iff.mp hparent
  exact exportCollection_of_present hparent hlink hname hallows hdirs hfiles hnodup

/-- The hidden file of `hiddenNotes` is reproduced in a folder next to its directory. -/
theorem hiddenNotes_reproduced :
    let t := hiddenNotes
    let settings := Settings.initial (.ofText ['/'])
    let parent := Path.ofText ['/']
    let c := collect t settings (some (.ofLines ["*.txt".toList]))
    let run := exportCollection t c settings.projectRoot parent "out".toList false
    t.NoLink ∧ t.NoBackslash ∧ settings.projectRoot.toText ≠ ['/', '/'] ∧
      ProjectPath.IsOrdinary settings.primaryRoot ∧ '/' ∉ settings.sidecarSuffix ∧
      t.isDirectory parent = true ∧ checkFolderName "out".toList = .ok () ∧
      AllowsFolder t parent "out".toList ∧
      ∃ folder, run.tree.get? (["a.txt".toList, ".b".toList, defaultPrimaryRoot] ++ folder) =
        some (.file .empty 0) := by
  intro t settings parent c run
  have hlink : t.NoLink := FileTree.noLink_of_entries (by decide)
  have hback : t.NoBackslash := FileTree.noBackslash_of_entries (by decide)
  have hroot : settings.projectRoot.toText ≠ ['/', '/'] := by decide
  have hprimary : ProjectPath.IsOrdinary settings.primaryRoot := by
    unfold ProjectPath.IsOrdinary
    decide
  have hsuffix : '/' ∉ settings.sidecarSuffix := by decide
  have hparent : t.isDirectory parent = true := by decide
  have hname : checkFolderName "out".toList = .ok () := by decide
  have hallows : AllowsFolder t parent "out".toList := by
    intro n hn
    cases n with
    | zero => decide
    | succ n =>
      -- nothing has the first name
      exact absurd (hn 0 (Nat.succ_pos n)) (by decide)
  refine ⟨hlink, hback, hroot, hprimary, hsuffix, hparent, hname, hallows, ?_⟩
  obtain ⟨⟨_, folder, -, -, -, -, hreproduced⟩, -⟩ := exportCollection_reproduces t settings
    ["*.txt".toList] parent "out".toList hlink hback hroot hprimary hsuffix hparent hname hallows
  refine ⟨folder, (hreproduced.file _ _ _).mpr ⟨"Assets/.b/a.txt".toList, ?_, by decide, by decide⟩⟩
  decide +kernel

end IgnoredPaths
