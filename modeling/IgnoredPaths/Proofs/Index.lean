import IgnoredPaths.Proofs.Collect
import IgnoredPaths.Proofs.Project

/-!
# What the default index reports

The default index reports the primary root and what is visible below it, without entries that
have a special name or lie below one that has, and without sidecar files.

- `ProjectPath.IsOrdinary`: how a primary root is written.
- `Settings.Indexed`: which entries the index is for.
- `Settings.mem_defaultListing_iff`: what it reports.
- `Settings.mem_reported_iff`: what a pass takes from it.
-/

namespace IgnoredPaths

namespace ProjectPath

/-- A path of ordinary segments: none is empty, none stays where it is and none leads up. -/
def IsOrdinary (path : Text) : Prop :=
  ∀ piece ∈ Text.split '/' path, piece ≠ [] ∧ piece ≠ hereSegment ∧ piece ≠ upSegment

variable {path : Text}

theorem IsOrdinary.segmentsOf (h : IsOrdinary path) : Path.segmentsOf path = Text.split '/' path :=
  List.filter_eq_self.mpr fun piece hpiece =>
    decide_eq_true ⟨(h piece hpiece).1, (h piece hpiece).2.1⟩

theorem IsOrdinary.segments_ne_nil (h : IsOrdinary path) : Path.segmentsOf path ≠ [] :=
  h.segmentsOf ▸ Text.split_ne_nil '/' path

theorem IsOrdinary.joinWith (h : IsOrdinary path) :
    Text.joinWith '/' (Path.segmentsOf path) = path :=
  h.segmentsOf ▸ Text.joinWith_split '/' path

theorem IsOrdinary.anchorOf (h : IsOrdinary path) : Path.anchorOf path = .relative :=
  h.joinWith ▸ Path.anchorOf_joinWith fun _ => Path.isSegment_of_mem_segmentsOf

end ProjectPath

namespace Settings

variable {t : FileTree} {settings : Settings}

/-- Whether an entry below the primary root is one that the default index is for: no special name
is on the way to it, and it is no sidecar file. -/
def Indexed (settings : Settings) (trail : Trail) (e : Entry) : Prop :=
  (∀ name ∈ trail, ProjectPath.isSpecialName name = false) ∧
    (e.isDirectory = true ∨
      Text.endsWith (ProjectPath.descend settings.primaryRoot trail.reverse)
        settings.sidecarSuffix = false)

/-- The ending of the text of an entry is that of its name. -/
theorem endsWith_descend (dir : Text) (name : Text) (outer : Trail) {ending : Text}
    (hending : '/' ∉ ending) :
    Text.endsWith (ProjectPath.descend dir (name :: outer).reverse) ending =
      Text.endsWith name ending := by
  rw [ProjectPath.descend, List.reverse_cons, ← List.append_assoc]
  exact ProjectPath.endsWith_joinWith hending

/-- The walk of the index reports the entries that the index is for. -/
theorem indexed_iff {trail : Trail} {e : Entry}
    (h : t.Shows settings.projectRoot settings.primaryRoot trail e)
    (hsuffix : '/' ∉ settings.sidecarSuffix) :
    FileTree.Unskipped ProjectPath.isSpecialName trail e ∧
        isIndexed settings.sidecarSuffix
          (settings.primaryRootPath.extend trail.reverse, e.isDirectory) = true ↔
      settings.Indexed trail e := by
  obtain ⟨name, outer, rfl⟩ := List.exists_cons_of_ne_nil h.ne_nil
  have hname : (settings.primaryRootPath.extend (name :: outer).reverse).name = name :=
    h.name_extend
  rw [Indexed, endsWith_descend _ _ _ hsuffix, isIndexed, hname, FileTree.Unskipped]
  cases e.isDirectory with
  | true => simp
  | false =>
    simp only [Bool.false_eq_true, if_false, List.tail_cons, Bool.false_or, Bool.not_or,
      Bool.and_eq_true, Bool.not_eq_true', List.mem_cons, forall_eq_or_imp, false_or]
    constructor
    · rintro ⟨houter, hspecial, hends⟩
      exact ⟨⟨hspecial, houter⟩, hends⟩
    · rintro ⟨⟨hspecial, houter⟩, hends⟩
      exact ⟨houter, hspecial, hends⟩

/-- The project knows its primary root as it is written. -/
theorem projectRelative_primaryRootPath (hlegible : t.Legible settings.projectRoot)
    (hprimary : ProjectPath.IsOrdinary settings.primaryRoot)
    (hdirectory : t.isDirectory settings.primaryRootPath = true) :
    projectRelative settings.projectRoot settings.primaryRootPath = settings.primaryRoot := by
  obtain ⟨l, hstat⟩ := FileTree.isDirectory_iff.mp hdirectory
  rw [primaryRootPath, projectRelative_eq
    (Path.leadsOn_resolve hprimary.anchorOf hprimary.segments_ne_nil) hlegible.notDoubleRoot
    (hlegible.noBackslash.of_stat hstat), hprimary.joinWith]

/-- What a scan finds in ascending order is listed as it is found. -/
theorem defaultListing_of_pairwise (hdirectory : t.isDirectory settings.primaryRootPath = true)
    {listing : List Text}
    (hfound : projectRelative settings.projectRoot settings.primaryRootPath ::
      ((t.walkSkipping ProjectPath.isSpecialName settings.primaryRootPath).filter
        (isIndexed settings.sidecarSuffix)).map
          (fun p => projectRelative settings.projectRoot p.1) = listing)
    (hsorted : listing.Pairwise fun a b => Text.le a b = true) :
    defaultListing t settings = listing := by
  subst hfound
  have hlisting : defaultListing t settings = List.mergeSort _ Text.le := if_pos hdirectory
  exact hlisting.trans (List.mergeSort_of_pairwise hsorted)

/-- The default index reports the text of the primary root and those of what its walk finds. -/
theorem mem_defaultListing_iff_text (hdirectory : t.isDirectory settings.primaryRootPath = true)
    {path : Text} : path ∈ defaultListing t settings ↔
      path = projectRelative settings.projectRoot settings.primaryRootPath ∨
        ∃ found ∈ t.walkSkipping ProjectPath.isSpecialName settings.primaryRootPath,
          isIndexed settings.sidecarSuffix found = true ∧
            path = projectRelative settings.projectRoot found.1 := by
  have hlisting : defaultListing t settings =
      (projectRelative settings.projectRoot settings.primaryRootPath ::
        ((t.walkSkipping ProjectPath.isSpecialName settings.primaryRootPath).filter
          (isIndexed settings.sidecarSuffix)).map
            fun p => projectRelative settings.projectRoot p.1).mergeSort Text.le :=
    if_pos hdirectory
  rw [hlisting, List.mem_mergeSort, List.mem_cons, List.mem_map]
  simp only [List.mem_filter, and_assoc, eq_comm]

/-- What the default index reports. -/
theorem mem_defaultListing_iff (hlegible : t.Legible settings.projectRoot)
    (hprimary : ProjectPath.IsOrdinary settings.primaryRoot)
    (hsuffix : '/' ∉ settings.sidecarSuffix)
    (hdirectory : t.isDirectory settings.primaryRootPath = true) {path : Text} :
    path ∈ defaultListing t settings ↔ path = settings.primaryRoot ∨
      ∃ trail e, t.Shows settings.projectRoot settings.primaryRoot trail e ∧
        settings.Indexed trail e ∧
          path = ProjectPath.descend settings.primaryRoot trail.reverse := by
  rw [mem_defaultListing_iff_text hdirectory,
    projectRelative_primaryRootPath hlegible hprimary hdirectory]
  refine or_congr_right ?_
  constructor
  · rintro ⟨found, hwalk, hindexed, rfl⟩
    obtain ⟨trail, e, hshows, hskip, rfl⟩ := (FileTree.mem_walkSkipping_iff hdirectory).mp hwalk
    exact ⟨trail, e, hshows, (indexed_iff hshows hsuffix).mp ⟨hskip, hindexed⟩,
      hshows.projectRelative hlegible hprimary.anchorOf⟩
  · rintro ⟨trail, e, hshows, hindexed, rfl⟩
    obtain ⟨hskip, hindexed⟩ := (indexed_iff hshows hsuffix).mpr hindexed
    have hwalk := (FileTree.mem_walkSkipping_iff hdirectory).mpr ⟨trail, e, hshows, hskip, rfl⟩
    exact ⟨_, hwalk, hindexed, (hshows.projectRelative hlegible hprimary.anchorOf).symm⟩

/-- The default index reports paths as they are read. -/
theorem map_directoryForm_defaultListing (hlegible : t.Legible settings.projectRoot)
    (hprimary : ProjectPath.IsOrdinary settings.primaryRoot)
    (hsuffix : '/' ∉ settings.sidecarSuffix)
    (hdirectory : t.isDirectory settings.primaryRootPath = true) :
    (defaultListing t settings).map ProjectPath.directoryForm = defaultListing t settings := by
  refine (List.map_congr_left fun path hpath => ?_).trans (List.map_id _)
  rcases (mem_defaultListing_iff hlegible hprimary hsuffix hdirectory).mp hpath with
    rfl | ⟨trail, e, hshows, -, rfl⟩
  · obtain ⟨l, hstat⟩ := FileTree.isDirectory_iff.mp hdirectory
    have hsegments := (settings.projectRoot.segments_resolve hprimary.anchorOf).2
    have hform := ProjectPath.directoryForm_joinWith
      (fun s hs => ⟨(Path.isSegment_of_mem_segmentsOf hs).1,
        (Path.isSegment_of_mem_segmentsOf hs).2.2⟩)
      fun s hs => hlegible.noBackslash.of_stat hstat s
        (hsegments ▸ List.mem_append_right settings.projectRoot.segments hs)
    rwa [hprimary.joinWith] at hform
  · exact hshows.directoryForm hlegible.noBackslash hprimary.anchorOf

/-- Of what the default index reports, a pass takes all but the primary root. -/
theorem mem_reported_iff (hlegible : t.Legible settings.projectRoot)
    (hprimary : ProjectPath.IsOrdinary settings.primaryRoot)
    (hsuffix : '/' ∉ settings.sidecarSuffix)
    (hdirectory : t.isDirectory settings.primaryRootPath = true) {path : Text} :
    path ∈ settings.reported (defaultListing t settings) ↔
      ∃ trail e, t.Shows settings.projectRoot settings.primaryRoot trail e ∧
        settings.Indexed trail e ∧
          path = ProjectPath.descend settings.primaryRoot trail.reverse := by
  rw [reported, List.mem_filter,
    map_directoryForm_defaultListing hlegible hprimary hsuffix hdirectory,
    mem_defaultListing_iff hlegible hprimary hsuffix hdirectory]
  constructor
  · rintro ⟨rfl | h, hstart⟩
    · have hlength := (List.isPrefixOf_iff_prefix.mp hstart).length_le
      rw [List.length_append, List.length_singleton] at hlength
      omega
    · exact h
  · intro h
    refine ⟨.inr h, ?_⟩
    obtain ⟨trail, e, hshows, -, rfl⟩ := h
    have hrest : trail.reverse ≠ [] := fun h => hshows.ne_nil (List.reverse_eq_nil_iff.mp h)
    have hstart := (ProjectPath.startsWith_joinWith_iff hprimary.segments_ne_nil
      (fun s hs => (Path.isSegment_of_mem_segmentsOf hs).2.2)
      fun s hs => (ProjectPath.isSegment_descend hshows.isSegment s hs).2.2).mpr
        ⟨trail.reverse, hrest, rfl⟩
    rwa [hprimary.joinWith] at hstart

/-- Where the primary root is no directory, nothing is reported. -/
theorem isDirectory_of_mem_reported {path : Text}
    (h : path ∈ settings.reported (defaultListing t settings)) :
    t.isDirectory settings.primaryRootPath = true := by
  by_contra hno
  have hlisting : defaultListing t settings = [] := if_neg hno
  rw [hlisting] at h
  cases h

/-- What a pass takes from the default index is the text of an entry that its walk finds, unless the
primary root itself is taken. -/
theorem exists_shows_of_mem_reported_text
    (hself : Text.startsWith (ProjectPath.directoryForm
      (projectRelative settings.projectRoot settings.primaryRootPath))
        (settings.primaryRoot ++ ['/']) = false) {path : Text}
    (h : path ∈ settings.reported (defaultListing t settings)) :
    ∃ trail e, t.Shows settings.projectRoot settings.primaryRoot trail e ∧
      path = ProjectPath.directoryForm (projectRelative settings.projectRoot
        (settings.primaryRootPath.extend trail.reverse)) := by
  have hdirectory := isDirectory_of_mem_reported h
  obtain ⟨hmem, hstart⟩ := List.mem_filter.mp h
  obtain ⟨listed, hlisted, rfl⟩ := List.mem_map.mp hmem
  rcases (mem_defaultListing_iff_text hdirectory).mp hlisted with rfl | ⟨found, hfound, -, rfl⟩
  · rw [hself] at hstart
    cases hstart
  · obtain ⟨trail, e, hshows, -, rfl⟩ := (FileTree.mem_walkSkipping_iff hdirectory).mp hfound
    exact ⟨trail, e, hshows, rfl⟩

/-- The default index reports no entry with a special name. -/
theorem not_mem_defaultListing {name : Text} {outer : Trail} {e : Entry}
    (hlegible : t.Legible settings.projectRoot)
    (hprimary : ProjectPath.IsOrdinary settings.primaryRoot)
    (hsuffix : '/' ∉ settings.sidecarSuffix)
    (h : t.Shows settings.projectRoot settings.primaryRoot (name :: outer) e)
    (hname : ProjectPath.isSpecialName name = true) :
    ProjectPath.descend settings.primaryRoot (name :: outer).reverse ∉
      (defaultListing t settings).map ProjectPath.directoryForm := by
  rw [map_directoryForm_defaultListing hlegible hprimary hsuffix h.isDirectory,
    mem_defaultListing_iff hlegible hprimary hsuffix h.isDirectory]
  rintro (heq | ⟨trail, e', hshows, hindexed, heq⟩)
  · -- the primary root itself is reached through no names
    have hself : settings.primaryRoot = ProjectPath.descend settings.primaryRoot [] := by
      rw [ProjectPath.descend, List.append_nil, hprimary.joinWith]
    have hnil := ProjectPath.descend_inj h.isSegment (fun _ hm => absurd hm List.not_mem_nil)
      (heq.trans hself)
    exact h.ne_nil (List.reverse_eq_nil_iff.mp hnil)
  · obtain rfl := List.reverse_injective
      (ProjectPath.descend_inj h.isSegment hshows.isSegment heq)
    rw [hindexed.1 name List.mem_cons_self] at hname
    cases hname

end Settings

/-! ## What a reported entry contributes -/

namespace Pass.Terms

variable {k : Terms} {t : FileTree} {dir : Text} {trail : Trail} {e : Entry}

/-- What is reported is taken for a file exactly if it is one. -/
theorem isIndexFile_descend_iff (h : t.Shows k.root dir trail e) (hlink : t.NoLink)
    (hdir : Path.anchorOf dir = .relative) :
    k.IsIndexFile t (ProjectPath.descend dir trail.reverse) ↔ e.isDirectory = false := by
  obtain ⟨l, -, hstat⟩ := h.stat hdir (h.ne_link hlink)
  have hdirectory : t.isDirectory (k.root.resolve (ProjectPath.descend dir trail.reverse)) =
      e.isDirectory := by
    rw [FileTree.isDirectory, hstat]
  have hfile : t.isFile (k.root.resolve (ProjectPath.descend dir trail.reverse)) = e.isFile := by
    rw [FileTree.isFile, hstat]
  rw [IsIndexFile, IsFile, hdirectory, hfile]
  cases e with
  | directory => simp [Entry.isDirectory, Entry.isFile]
  | file => simp [Entry.isDirectory, Entry.isFile]
  | link target => exact absurd rfl (h.ne_link hlink target)

/-- No directory is taken for a file. -/
theorem not_isIndexFile_of_directory (h : t.Shows k.root dir trail .directory)
    (hdir : Path.anchorOf dir = .relative) :
    ¬ k.IsIndexFile t (ProjectPath.descend dir trail.reverse) := by
  obtain ⟨l, -, hstat⟩ := h.stat hdir Entry.directory_ne_link
  rw [IsIndexFile, IsFile, FileTree.isDirectory, FileTree.isFile, hstat]
  simp [Entry.isDirectory, Entry.isFile]

open Classical in
/-- A reported entry contributes what its path is taken for, and a file its directory as well. -/
theorem indexEntry_eq (h : t.Shows k.root dir trail e) (hlegible : t.Legible k.root)
    (hdir : Path.anchorOf dir = .relative) :
    k.indexEntry t (ProjectPath.descend dir trail.reverse) =
      if k.IsIndexFile t (ProjectPath.descend dir trail.reverse) then
        k.file t (ProjectPath.descend dir trail.reverse) ⊔
          k.parent (ProjectPath.descend dir trail.reverse)
      else k.directory t (ProjectPath.descend dir trail.reverse) := by
  have hne : ProjectPath.descend dir trail.reverse ≠ [] := by
    refine Text.joinWith_ne_nil (List.append_ne_nil_of_right_ne_nil _ fun hnil =>
      h.ne_nil (List.reverse_eq_nil_iff.mp hnil)) fun s hs => ?_
    exact (ProjectPath.isSegment_descend h.isSegment s hs).1
  simp only [indexEntry, h.directoryForm hlegible.noBackslash hdir, if_neg hne]

/-- Without links, a reported entry contributes what it contributes on a walk, and a file its
directory as well. -/
theorem indexEntry_descend (h : t.Shows k.root dir trail e) (hlink : t.NoLink)
    (hlegible : t.Legible k.root) (hdir : Path.anchorOf dir = .relative) :
    k.indexEntry t (ProjectPath.descend dir trail.reverse) =
      k.shown t dir trail e ⊔
        if e.isDirectory then ⊥ else k.parent (ProjectPath.descend dir trail.reverse) := by
  rw [indexEntry_eq h hlegible hdir]
  simp only [isIndexFile_descend_iff h hlink hdir, shown]
  cases e.isDirectory <;> simp

/-- The directory of a reported file is the one on the way to it. -/
theorem mem_parent_descend_iff {name : Text} (hname : '/' ∉ name)
    (hdir : Path.segmentsOf dir ≠ []) (houter : ∀ n ∈ trail.reverse, IsSegment n) {x : Text} :
    x ∈ (k.parent (ProjectPath.descend dir (name :: trail).reverse)).2 ↔
      x = ProjectPath.descend dir trail.reverse ∧ Rule.ignoresDirectory k.rules x = true := by
  have hsegments : Path.segmentsOf dir ++ trail.reverse ≠ [] :=
    List.append_ne_nil_of_left_ne_nil hdir _
  have hne : ProjectPath.descend dir trail.reverse ≠ [] :=
    Text.joinWith_ne_nil hsegments fun s hs => (ProjectPath.isSegment_descend houter s hs).1
  have hlast : Text.beforeLast? '/' (ProjectPath.descend dir (name :: trail).reverse) =
      some (ProjectPath.descend dir trail.reverse) := by
    rw [ProjectPath.descend, List.reverse_cons, ← List.append_assoc]
    exact ProjectPath.beforeLast?_joinWith hsegments hname
  simp only [parent, hlast, Option.some.injEq, Set.mem_ofPred_eq]
  constructor
  · rintro ⟨rfl, -, hignored⟩
    exact ⟨rfl, hignored⟩
  · rintro ⟨rfl, hignored⟩
    exact ⟨rfl, hne, hignored⟩

end Pass.Terms

end IgnoredPaths
