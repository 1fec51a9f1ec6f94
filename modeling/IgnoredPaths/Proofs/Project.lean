import IgnoredPaths.FileTree.Canonical
import IgnoredPaths.Proofs.Pass
import IgnoredPaths.Proofs.Resolve
import IgnoredPaths.Proofs.Walk

/-!
# Entries of a project

What is visible below a directory of a project is known by the text of the directory and the
names on the way. In a tree whose names hold no backslashes this text leads back to the entry,
and a pass that meets the entry on a walk judges it by this text.

- `FileTree.Shows`: an entry is visible below a directory of the project.
- `FileTree.Shows.resolve`, `FileTree.Shows.stat`: where the text of an entry leads.
- `FileTree.Shows.projectRelative`: the text that a pass gives to an entry.
- `FileTree.shows_append_iff`: a directory on the way to an entry shows it as well.
- `Pass.Terms.below_le`, `Pass.Terms.shown_le_below`: what lies below a directory contributes what
  its entries contribute.
-/

namespace IgnoredPaths

namespace FileTree

/-- No name holds a backslash. -/
def NoBackslash (t : FileTree) : Prop :=
  ∀ name parent e, t.get? (name :: parent) = some e → '\\' ∉ name

/-- The texts of the entries of a project lead back to them: no name holds a backslash, and the
project root is not written as two slashes alone. -/
structure Legible (t : FileTree) (root : Path) : Prop where
  noBackslash : t.NoBackslash
  notDoubleRoot : root.toText ≠ ['/', '/']

/-- No entry is a symbolic link. -/
def NoLink (t : FileTree) : Prop := ∀ l target, t.get? l ≠ some (.link target)

/-- An entry is visible below the directory of a project that a text names. -/
def Shows (t : FileTree) (root : Path) (dir : Text) (trail : Trail) (e : Entry) : Prop :=
  ∃ l, t.stat (root.resolve dir) = .ok (l, .directory) ∧ t.Visible l trail e

variable {t : FileTree} {root : Path} {dir : Text} {trail : Trail} {e : Entry}

/-- No backslash is in a path that leads somewhere. -/
theorem NoBackslash.of_stat (h : t.NoBackslash) {p : Path} {l : Location} {d : Entry}
    (hp : t.stat p = .ok (l, d)) : ∀ s ∈ p.segments, '\\' ∉ s := by
  intro s hs
  by_cases hup : s = upSegment
  · rw [hup]
    decide
  · obtain ⟨_, _, hget⟩ := exists_get?_of_stat hp hs hup
    exact h _ _ _ hget

theorem noBackslash_of_entries (h : ∀ p ∈ t.entries, ∀ name ∈ p.1, '\\' ∉ name) :
    t.NoBackslash := by
  intro name parent e hget
  have hmem := (get?_eq_some_iff (List.cons_ne_nil name parent)).mp hget
  exact h _ hmem name List.mem_cons_self

theorem noLink_of_entries (h : ∀ p ∈ t.entries, p.2.isDirectory = true ∨ p.2.isFile = true) :
    t.NoLink := by
  intro l target hget
  have hne : l ≠ [] := by
    rintro rfl
    cases hget
  rcases h _ ((get?_eq_some_iff hne).mp hget) with hkind | hkind
  · cases hkind
  · cases hkind

/-- A canonical path starts at the root directory, written with one slash. -/
theorem anchor_of_canonical {p q : Path} (h : t.canonical p = .ok q) : q.anchor = .root := by
  rw [canonical] at h
  split at h
  · cases h
  · split at h
    · cases h
      rfl
    · simp only at h
      split at h
      · cases h
      · cases h
        rfl

/-- A canonical path, as the root of a project is, is not written as two slashes alone. -/
theorem toText_ne_of_canonical {p q : Path} (h : t.canonical p = .ok q) :
    q.toText ≠ ['/', '/'] :=
  Path.toText_ne_of_anchor (anchor_of_canonical h)

theorem NoLink.ne_link (h : t.NoLink) {l : Location} (hget : t.get? l = some e) (target : Text) :
    e ≠ .link target :=
  fun he => h l target (he ▸ hget)

namespace Shows

theorem ne_nil (h : t.Shows root dir trail e) : trail ≠ [] := h.choose_spec.2.1

/-- What lies on the way to an entry is a directory. -/
theorem outer {rest : Trail} (h : t.Shows root dir (rest ++ trail) e) (hrest : rest ≠ [])
    (htrail : trail ≠ []) : t.Shows root dir trail .directory := by
  obtain ⟨l, hl, hvisible⟩ := h
  exact ⟨l, hl, ((visible_append_iff hrest htrail).mp hvisible).1⟩

/-- The names on the way tell the entry. -/
theorem unique {d : Entry} (h : t.Shows root dir trail e) (h' : t.Shows root dir trail d) :
    e = d := by
  obtain ⟨l, hl, hvisible⟩ := h
  obtain ⟨l', hl', hvisible'⟩ := h'
  obtain rfl := stat_unique hl hl'
  exact Option.some.inj (hvisible.2.1.symm.trans hvisible'.2.1)

theorem isDirectory (h : t.Shows root dir trail e) : t.isDirectory (root.resolve dir) = true :=
  isDirectory_iff.mpr ⟨h.choose, h.choose_spec.1⟩

theorem exists_get? (h : t.Shows root dir trail e) {name : Text} (hname : name ∈ trail) :
    ∃ parent d, t.get? (name :: parent) = some d :=
  exists_get?_of_mem h.choose_spec.2.2.1 hname

theorem isSegment (h : t.Shows root dir trail e) : ∀ name ∈ trail.reverse, IsSegment name := by
  intro name hname
  obtain ⟨_, _, hget⟩ := h.exists_get? (List.mem_reverse.mp hname)
  exact (isName_of_get? hget).1

/-- The path on which a walk finds an entry leads on from the root of the project. -/
theorem leadsOn (h : t.Shows root dir trail e) (hdir : Path.anchorOf dir = .relative) :
    root.LeadsOn ((root.resolve dir).extend trail.reverse)
      (Path.segmentsOf dir ++ trail.reverse) where
  anchor := (root.segments_resolve hdir).1
  segments := by
    rw [Path.segments_extend _ h.isSegment, (root.segments_resolve hdir).2, List.append_assoc]
  ne_nil := List.append_ne_nil_of_right_ne_nil _ fun hnil =>
    h.ne_nil (List.reverse_eq_nil_iff.mp hnil)

/-- A walk finds an entry under its own name. -/
theorem name_extend {name : Text} (h : t.Shows root dir (name :: trail) e) :
    ((root.resolve dir).extend (name :: trail).reverse).name = name := by
  have hsegments := h.isSegment
  rw [List.reverse_cons] at hsegments ⊢
  exact Path.name_extend _ hsegments

theorem ne_link (h : t.Shows root dir trail e) (hlink : t.NoLink) (target : Text) :
    e ≠ .link target :=
  hlink.ne_link h.choose_spec.2.2.1 target

/-- The text of an entry means the path on which a walk finds it. -/
theorem resolve (h : t.Shows root dir trail e) (hdir : Path.anchorOf dir = .relative) :
    root.resolve (ProjectPath.descend dir trail.reverse) =
      (root.resolve dir).extend trail.reverse :=
  ProjectPath.resolve_descend root hdir h.isSegment

/-- The text of an entry leads to it. -/
theorem stat (h : t.Shows root dir trail e) (hdir : Path.anchorOf dir = .relative)
    (hlink : ∀ target, e ≠ .link target) :
    ∃ l, t.stat (root.resolve dir) = .ok (l, .directory) ∧
      t.stat (root.resolve (ProjectPath.descend dir trail.reverse)) = .ok (trail ++ l, e) := by
  have hresolve := h.resolve hdir
  obtain ⟨l, hstat, hne, hget, -⟩ := h
  refine ⟨l, hstat, ?_⟩
  rw [hresolve]
  exact stat_extend hstat hget hlink hne

/-- No backslash is on the way to an entry. -/
theorem not_mem_backslash (h : t.Shows root dir trail e) (hback : t.NoBackslash)
    (hdir : Path.anchorOf dir = .relative) :
    ∀ s ∈ root.segments ++ (Path.segmentsOf dir ++ trail.reverse), '\\' ∉ s := by
  intro s hs
  rw [← List.append_assoc] at hs
  rcases List.mem_append.mp hs with hs | hs
  · obtain ⟨l, hstat, -⟩ := h
    rw [← (root.segments_resolve hdir).2] at hs
    exact hback.of_stat hstat s hs
  · obtain ⟨_, _, hget⟩ := h.exists_get? (List.mem_reverse.mp hs)
    exact hback _ _ _ hget

/-- The text of an entry is read as it is. -/
theorem directoryForm (h : t.Shows root dir trail e) (hback : t.NoBackslash)
    (hdir : Path.anchorOf dir = .relative) :
    ProjectPath.directoryForm (ProjectPath.descend dir trail.reverse) =
      ProjectPath.descend dir trail.reverse := by
  refine ProjectPath.directoryForm_joinWith (fun s hs => ?_) fun s hs => ?_
  · have hseg := ProjectPath.isSegment_descend h.isSegment s hs
    exact ⟨hseg.1, hseg.2.2⟩
  · exact h.not_mem_backslash hback hdir s (List.mem_append_right _ hs)

/-- A pass knows an entry found by a walk by its text. -/
theorem projectRelative (h : t.Shows root dir trail e) (hlegible : t.Legible root)
    (hdir : Path.anchorOf dir = .relative) :
    projectRelative root ((root.resolve dir).extend trail.reverse) =
      ProjectPath.descend dir trail.reverse := by
  refine projectRelative_eq (h.leadsOn hdir) hlegible.notDoubleRoot ?_
  rw [(h.leadsOn hdir).segments]
  exact h.not_mem_backslash hlegible.noBackslash hdir

end Shows

/-- A directory on the way to an entry shows it as well. -/
theorem shows_append_iff {rest : Trail} (h : t.Shows root dir trail .directory)
    (hdir : Path.anchorOf dir = .relative) (hrest : rest ≠ []) :
    t.Shows root dir (rest ++ trail) e ↔
      t.Shows root (ProjectPath.descend dir trail.reverse) rest e := by
  obtain ⟨l, hl, hstat⟩ := h.stat hdir Entry.directory_ne_link
  obtain ⟨l', hl', hvis⟩ := h
  obtain rfl := stat_unique hl hl'
  constructor
  · rintro ⟨l', hl', hvis'⟩
    obtain rfl := stat_unique hl hl'
    exact ⟨_, hstat, ((visible_append_iff hrest hvis.1).mp hvis').2⟩
  · rintro ⟨l', hl', hvis'⟩
    obtain rfl := stat_unique hstat hl'
    exact ⟨l, hl, (visible_append_iff hrest hvis.1).mpr ⟨hvis, hvis'⟩⟩

/-- An entry whose text begins with that of a directory and a slash lies below the directory. -/
theorem Shows.exists_append_of_startsWith {inner : Trail} {d : Entry}
    (h : t.Shows root dir inner e) (houter : t.Shows root dir trail d)
    (hstart : Text.startsWith (ProjectPath.descend dir inner.reverse)
      (ProjectPath.descend dir trail.reverse ++ ['/']) = true) :
    ∃ rest, rest ≠ [] ∧ inner = rest ++ trail := by
  have hne : Path.segmentsOf dir ++ trail.reverse ≠ [] :=
    List.append_ne_nil_of_right_ne_nil _ fun hnil =>
      houter.ne_nil (List.reverse_eq_nil_iff.mp hnil)
  obtain ⟨rest, hrest, heq⟩ := (ProjectPath.startsWith_joinWith_iff hne
    (fun s hs => (ProjectPath.isSegment_descend houter.isSegment s hs).2.2)
    fun s hs => (ProjectPath.isSegment_descend h.isSegment s hs).2.2).mp hstart
  rw [List.append_assoc] at heq
  have hinner := congrArg List.reverse (List.append_cancel_left heq)
  rw [List.reverse_reverse, List.reverse_append, List.reverse_reverse] at hinner
  exact ⟨rest.reverse, fun hnil => hrest (List.reverse_eq_nil_iff.mp hnil), hinner⟩

/-- Where a walk finds something, there is a directory. -/
theorem isDirectory_of_mem_walkSkipping {skip : Text → Bool} {p : Path} {found : Path × Bool}
    (h : found ∈ t.walkSkipping skip p) : t.isDirectory p = true := by
  cases hstat : t.stat p with
  | error f =>
    rw [walkSkipping, hstat] at h
    cases h
  | ok place =>
    obtain ⟨l, d⟩ := place
    obtain ⟨trail, _, -, ⟨hne, -, hlist⟩, -⟩ := (mem_walkSkipping hstat found).mp h
    have hdirectory := (isSome_list?_iff.mp (hlist [] List.nil_suffix hne.symm)).1
    rw [List.nil_append, get?_of_stat hstat] at hdirectory
    exact isDirectory_iff.mpr ⟨l, hstat.trans (by rw [Option.some.inj hdirectory])⟩

/-- A walk below a directory of the project finds what is visible there, unless it is skipped. -/
theorem mem_walkSkipping_iff {skip : Text → Bool} {found : Path × Bool}
    (h : t.isDirectory (root.resolve dir) = true) :
    found ∈ t.walkSkipping skip (root.resolve dir) ↔ ∃ trail e,
      t.Shows root dir trail e ∧ Unskipped skip trail e ∧
        found = ((root.resolve dir).extend trail.reverse, e.isDirectory) := by
  obtain ⟨l, hl⟩ := isDirectory_iff.mp h
  rw [mem_walkSkipping hl]
  constructor
  · rintro ⟨trail, e, rfl, hvis, hskip⟩
    exact ⟨trail, e, ⟨l, hl, hvis⟩, hskip, rfl⟩
  · rintro ⟨trail, e, ⟨l', hl', hvis⟩, hskip, rfl⟩
    obtain rfl := stat_unique hl hl'
    exact ⟨trail, e, rfl, hvis, hskip⟩

theorem exists_shows_of_mem_walkSkipping {skip : Text → Bool} {found : Path × Bool}
    (h : found ∈ t.walkSkipping skip (root.resolve dir)) : ∃ trail e, t.Shows root dir trail e ∧
      found = ((root.resolve dir).extend trail.reverse, e.isDirectory) := by
  obtain ⟨trail, e, hshows, -, heq⟩ :=
    (mem_walkSkipping_iff (isDirectory_of_mem_walkSkipping h)).mp h
  exact ⟨trail, e, hshows, heq⟩

theorem Shows.mem_walk (h : t.Shows root dir trail e) :
    ((root.resolve dir).extend trail.reverse, e.isDirectory) ∈ t.walk (root.resolve dir) :=
  (mem_walkSkipping_iff h.isDirectory).mpr ⟨trail, e, h, fun _ _ => rfl, rfl⟩

end FileTree

namespace Pass.Terms

variable {k : Terms} {t : FileTree} {dir : Text} {trail : Trail} {e : Entry}

/-- What an entry contributes that is visible below a directory. -/
def shown (k : Terms) (t : FileTree) (dir : Text) (trail : Trail) (e : Entry) : Findings :=
  if e.isDirectory then k.directory t (ProjectPath.descend dir trail.reverse)
  else k.file t (ProjectPath.descend dir trail.reverse)

theorem entry_extend (h : t.Shows k.root dir trail e) (hlegible : t.Legible k.root)
    (hdir : Path.anchorOf dir = .relative) :
    k.entry t ((k.root.resolve dir).extend trail.reverse, e.isDirectory) =
      k.shown t dir trail e := by
  rw [entry, shown, h.projectRelative hlegible hdir]

/-- What is visible below a directory is part of what lies below it. -/
theorem shown_le_below (h : t.Shows k.root dir trail e) (hlegible : t.Legible k.root)
    (hdir : Path.anchorOf dir = .relative) :
    k.shown t dir trail e ≤ k.below t (k.root.resolve dir) := by
  rw [← entry_extend h hlegible hdir]
  exact le_iSup₂_of_le _ h.mem_walk le_rfl

/-- What lies below a directory is what is visible there. -/
theorem below_le {c : Findings} (hdirectory : t.isDirectory (k.root.resolve dir) = true)
    (hlegible : t.Legible k.root) (hdir : Path.anchorOf dir = .relative)
    (h : ∀ trail e, t.Shows k.root dir trail e → k.shown t dir trail e ≤ c) :
    k.below t (k.root.resolve dir) ≤ c := by
  refine iSup₂_le fun found hfound => ?_
  obtain ⟨trail, e, hshows, -, rfl⟩ := (FileTree.mem_walkSkipping_iff hdirectory).mp hfound
  rw [entry_extend hshows hlegible hdir]
  exact h trail e hshows

/-- What lies below a directory on the way lies below the first one. -/
theorem below_le_below (h : t.Shows k.root dir trail .directory) (hlegible : t.Legible k.root)
    (hdir : Path.anchorOf dir = .relative) :
    k.below t (k.root.resolve (ProjectPath.descend dir trail.reverse)) ≤
      k.below t (k.root.resolve dir) := by
  obtain ⟨l, -, hstat⟩ := h.stat hdir Entry.directory_ne_link
  have hinner : Path.anchorOf (ProjectPath.descend dir trail.reverse) = .relative :=
    ProjectPath.anchorOf_descend h.isSegment
  refine below_le (FileTree.isDirectory_iff.mpr ⟨_, hstat⟩) hlegible hinner fun rest e hrest => ?_
  have houter := (FileTree.shows_append_iff h hdir hrest.ne_nil).mpr hrest
  refine le_trans (le_of_eq ?_) (shown_le_below houter hlegible hdir)
  rw [shown, shown, ProjectPath.descend_descend h.isSegment, List.reverse_append]

end Pass.Terms

end IgnoredPaths
