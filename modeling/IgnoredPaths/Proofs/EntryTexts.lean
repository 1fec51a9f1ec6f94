import IgnoredPaths.Proofs.DryRun
import IgnoredPaths.Proofs.Justification
import IgnoredPaths.Proofs.Ordinary

/-!
# Where the texts of entries lead

Of an entry that a walk finds a pass keeps only the text: the path, without what leads to the
project root, and with slashes in place of backslashes. Seen from the root again, the text means
the path that it was taken from as long as no name behind the root holds a backslash and the root
does not end with one. A name with a backslash is read as two names, and behind a root that ends
with a backslash a slash is left over, so that the text is absolute.

Nothing is said about what a text means that does not lead back. It may be another entry, which is
then collected in place of the one that was found, or none.

- `FileTree.named?`: the entry that a path names.
- `Path.PlainBehind`, `Path.Recoverable`: which texts differ, and which lead back.
- `Path.LeadsOn.segments_resolve_projectRelative`, `Path.LeadsOn.recoverable_of_segments_resolve`:
  when the text of a path means the path.
- `FileTree.named?_resolve_ne`: where it does not, it names another entry if there are no links.
- `Pass.Terms.mem_entry`, `Pass.Terms.mem_indexEntry`: which files an entry adds.
- `projectRelative_identifies`: what this comes to for walks, passes and the default index.
-/

namespace IgnoredPaths

/-! ## What a path names -/

namespace FileTree

variable {t : FileTree} {p q : Path} {l : Location} {e : Entry}

/-- The entry that a path names, if there is one. Unlike where a path leads, a link at the end is
itself what is named. -/
def named? (t : FileTree) (p : Path) : Option (Location × Entry) :=
  match t.place p with
  | .ok (parent, name) => (t.get? (name :: parent)).map fun e => (name :: parent, e)
  -- a path without segments, or one that leads up at its end, has no name for a place
  | .error .occupied => (t.stat p).toOption
  | .error _ => none

/-- What a path names is told by its segments. -/
theorem named?_congr (h : p.segments = q.segments) : t.named? p = t.named? q := by
  obtain ⟨anchor, segments, hmeaningful⟩ := p
  obtain ⟨anchor', segments', hmeaningful'⟩ := q
  obtain rfl : segments = segments' := h
  rfl

/-- A path that leads somewhere names something. -/
theorem isSome_named?_of_stat (h : t.stat p = .ok (l, e)) : (t.named? p).isSome = true := by
  -- there is no place for a directory at the path, so its place is taken
  have hmake := makeDirectory_of_stat h
  rw [makeDirectory, makeEntry] at hmake
  rw [named?]
  cases hplace : t.place p with
  | error f =>
    rw [hplace] at hmake
    obtain rfl : f = .occupied := Option.some.inj (Prod.mk.inj hmake).2
    rw [h]
    rfl
  | ok found =>
    obtain ⟨parent, name⟩ := found
    rw [hplace] at hmake
    simp only [Option.isSome_map]
    by_contra hvacant
    simp only [hvacant, if_false] at hmake
    cases (Prod.mk.inj hmake).2

theorem isSome_named?_of_isFile (h : t.isFile p = true) : (t.named? p).isSome = true := by
  obtain ⟨l, content, mtime, hstat⟩ := isFile_iff.mp h
  exact isSome_named?_of_stat hstat

/-- In a directory that is there, a path with one more name names what has the name there. -/
theorem named?_extend {name : Text} (hp : t.stat p = .ok (l, .directory))
    (hget : t.get? (name :: l) = some e) : t.named? (p.extend [name]) = some (name :: l, e) := by
  obtain ⟨hsegment, hup, hbarred, hlong⟩ := isName_of_get? hget
  have hplace := place_extend hp ⟨hsegment, hup⟩
  simp only [hbarred, hlong, Bool.false_eq_true, if_false] at hplace
  rw [named?, hplace]
  simp only [hget, Option.map_some]

/-- In a tree without links, what a path names is at the location that it spells. -/
theorem eq_location_of_named? (hlink : t.NoLink) (h : t.named? p = some (l, e)) :
    l = p.location := by
  rw [named?] at h
  cases hplace : t.place p with
  | error f =>
    rw [hplace] at h
    cases f with
    | occupied =>
      cases hstat : t.stat p with
      | error f =>
        rw [hstat] at h
        cases h
      | ok found =>
        rw [hstat] at h
        cases h
        exact eq_location_of_stat hlink hstat
    | _ => cases h
  | ok found =>
    obtain ⟨parent, name⟩ := found
    obtain ⟨hstat, hself, hdown⟩ := place_eq_ok hplace
    simp only [hplace] at h
    obtain ⟨_, -, heq⟩ := Option.map_eq_some_iff.mp h
    obtain ⟨rfl, rfl⟩ := Prod.mk.inj heq
    have hnames : ∀ n ∈ [name], LeadsDown n := fun n hn => List.mem_singleton.mp hn ▸ hdown
    rw [hself, Path.location_extend _ hnames, eq_location_of_stat hlink hstat]
    rfl

/-- What a walk finds is named by the path on which it is found. -/
theorem Shows.named? {root : Path} {dir : Text} {trail : Trail} (h : t.Shows root dir trail e) :
    ∃ l, t.stat (root.resolve dir) = .ok (l, .directory) ∧
      t.named? ((root.resolve dir).extend trail.reverse) = some (trail ++ l, e) := by
  obtain ⟨l, hstat, hne, hget, -⟩ := h
  obtain ⟨name, outer, rfl⟩ := List.exists_cons_of_ne_nil hne
  have houter : t.get? (outer.reverse.reverse ++ l) = some .directory := by
    rw [List.reverse_reverse]
    exact get?_parent hget
  have hdirectory := stat_extend_names hstat houter Entry.directory_ne_link
  rw [List.reverse_reverse] at hdirectory
  refine ⟨l, hstat, ?_⟩
  rw [List.reverse_cons, ← Path.extend_extend]
  exact named?_extend hdirectory hget

end FileTree

/-! ## What a text means -/

namespace Path

variable {root path other : Path} {rest : List Text}

/-- No name behind the root holds a backslash. -/
def PlainBehind (root path : Path) : Prop :=
  ∀ s ∈ path.segments.drop root.segments.length, '\\' ∉ s

instance (root path : Path) : Decidable (PlainBehind root path) :=
  inferInstanceAs (Decidable (∀ _ ∈ _, _))

/-- A path whose text leads back to it from the root. -/
def Recoverable (root path : Path) : Prop := PlainBehind root path ∧ ¬ root.EndsInBackslash

instance (root path : Path) : Decidable (Recoverable root path) :=
  inferInstanceAs (Decidable (_ ∧ _))

/-- The segments that the text of a path means hold no backslash. -/
theorem not_mem_segmentsOf_projectRelative {s : Text}
    (h : s ∈ segmentsOf (projectRelative root path)) : '\\' ∉ s :=
  fun hs => ProjectPath.not_mem_relative _ _ (Text.mem_of_mem_split (List.mem_filter.mp h).1 hs)

namespace LeadsOn

theorem plainBehind_iff (h : root.LeadsOn path rest) :
    PlainBehind root path ↔ ∀ s ∈ rest, '\\' ∉ s := by
  rw [PlainBehind, h.segments, List.drop_left]

/-- The text of a path without backslashes behind the root, slashes in front apart, is what follows
the root. -/
theorem directoryForm_projectRelative (h : root.LeadsOn path rest)
    (hplain : PlainBehind root path) :
    ProjectPath.directoryForm (projectRelative root path) = Text.joinWith '/' rest := by
  rw [h.plainBehind_iff] at hplain
  obtain ⟨front, hslashes, -, htext⟩ := exists_projectRelative_eq root
  rw [htext path rest h hplain, ProjectPath.directoryForm_append hslashes]
  exact ProjectPath.directoryForm_joinWith
    (fun s hs => ⟨(h.isSegment s hs).1, (h.isSegment s hs).2.2⟩) hplain

/-- Its segments are those behind the root, whatever slashes stand in front. -/
theorem segmentsOf_projectRelative (h : root.LeadsOn path rest) (hplain : PlainBehind root path) :
    segmentsOf (projectRelative root path) = rest := by
  obtain ⟨front, hslashes, -, htext⟩ := exists_projectRelative_eq root
  rw [htext path rest h (h.plainBehind_iff.mp hplain), segmentsOf_append hslashes,
    segmentsOf_joinWith h.isSegment]

/-- Without slashes in front, it means the path, also behind a root that ends with a backslash. -/
theorem segments_resolve_directoryForm (h : root.LeadsOn path rest)
    (hplain : PlainBehind root path) :
    (root.resolve (ProjectPath.directoryForm (projectRelative root path))).segments =
      path.segments := by
  rw [h.directoryForm_projectRelative hplain,
    (root.segments_resolve (anchorOf_joinWith h.isSegment)).2, segmentsOf_joinWith h.isSegment,
    h.segments]

/-- Paths without backslashes behind the root that are known by the same text are the same. -/
theorem eq_of_projectRelative_eq {more : List Text} (h : root.LeadsOn path rest)
    (hother : root.LeadsOn other more) (hplain : PlainBehind root path)
    (hplain' : PlainBehind root other)
    (heq : projectRelative root path = projectRelative root other) : path = other := by
  have hsegments := congrArg segmentsOf heq
  rw [h.segmentsOf_projectRelative hplain, hother.segmentsOf_projectRelative hplain'] at hsegments
  refine eq_of_segments (h.anchor.trans hother.anchor.symm) ?_
  rw [h.segments, hother.segments, hsegments]

/-- Behind a root that ends with a backslash a slash is left over, so the text does not start at the
root any more. -/
theorem anchorOf_projectRelative_ne (h : root.LeadsOn path rest) (hplain : PlainBehind root path)
    (hends : root.EndsInBackslash) : anchorOf (projectRelative root path) ≠ .relative := by
  obtain ⟨front, hslashes, hfront, htext⟩ := exists_projectRelative_eq root
  have hne : front ≠ [] := fun hnil => (hfront.mp hnil).2 hends
  obtain ⟨c, more, rfl⟩ := List.exists_cons_of_ne_nil hne
  obtain ⟨rfl, -⟩ := List.forall_mem_cons.mp hslashes
  rw [htext path rest h (h.plainBehind_iff.mp hplain)]
  exact anchorOf_cons_slash _

/-- If the text of a path means the path, no name behind the root holds a backslash and the root
does not end with one. -/
theorem recoverable_of_segments_resolve (h : root.LeadsOn path rest)
    (heq : (root.resolve (projectRelative root path)).segments = path.segments) :
    Recoverable root path := by
  rw [segments_resolve_eq, h.segments] at heq
  have hplain : PlainBehind root path := by
    refine h.plainBehind_iff.mpr fun s hs => ?_
    split at heq
    · rw [List.append_cancel_left_eq] at heq
      exact not_mem_segmentsOf_projectRelative (heq ▸ hs)
    · rw [List.nil_append] at heq
      exact not_mem_segmentsOf_projectRelative (heq ▸ List.mem_append_right root.segments hs)
  refine ⟨hplain, fun hends => ?_⟩
  -- the segments of the root would be missing, and there are some
  obtain ⟨outer, last, hroot, -⟩ := hends.exists_segments
  rw [if_neg (h.anchorOf_projectRelative_ne hplain hends), h.segmentsOf_projectRelative hplain,
    List.nil_append] at heq
  have hnil := List.self_eq_append_left.mp heq
  exact List.append_ne_nil_of_right_ne_nil outer (List.cons_ne_nil last []) (hroot ▸ hnil)

/-- If no name behind the root holds a backslash and the root does not end with one, the text means
the path. -/
theorem segments_resolve_projectRelative (h : root.LeadsOn path rest)
    (hrecoverable : Recoverable root path) :
    (root.resolve (projectRelative root path)).segments = path.segments := by
  obtain ⟨hplain, hends⟩ := hrecoverable
  rw [segments_resolve_eq, h.segmentsOf_projectRelative hplain, h.segments]
  by_cases hdouble : root.toText = ['/', '/']
  · -- a slash is left over, but no segment leads to the root
    rw [(segments_of_toText hdouble).2, ite_self]
  · obtain ⟨front, -, hfront, htext⟩ := exists_projectRelative_eq root
    have hrelative : anchorOf (projectRelative root path) = .relative := by
      rw [htext path rest h (h.plainBehind_iff.mp hplain), hfront.mpr ⟨hdouble, hends⟩]
      exact anchorOf_joinWith h.isSegment
    rw [if_pos hrelative]

end LeadsOn

end Path

/-! ## Other entries -/

/-- Steps none of which leads to a name of some kind lead to no more names of this kind. -/
theorem Step.countP_blindly_le {P : Text → Bool} (l : Location) {steps : List Step}
    (h : ∀ n, .name n ∈ steps → P n = false) : (blindly l steps).countP P ≤ l.countP P := by
  induction steps generalizing l with
  | nil => exact le_rfl
  | cons step rest ih =>
    have hrest : ∀ n, .name n ∈ rest → P n = false :=
      fun n hn => h n (List.mem_cons_of_mem step hn)
    cases step with
    | here => exact ih l hrest
    | up => exact (ih l.tail hrest).trans (List.tail_sublist l).countP_le
    | name n =>
      have hn : ¬ P n = true := Bool.eq_false_iff.mp (h n List.mem_cons_self)
      exact (ih (n :: l) hrest).trans (List.countP_cons_of_neg hn).le

/-- How many names of a location hold a backslash. -/
def Location.backslashes (l : Location) : Nat := l.countP (·.contains '\\')

namespace Path

variable {root path : Path} {rest : List Text}

/-- The location of a root that ends with a backslash has a name with a backslash. -/
theorem EndsInBackslash.backslashes_pos (h : root.EndsInBackslash) :
    0 < root.location.backslashes := by
  obtain ⟨outer, last, hsegments, hback⟩ := h.exists_segments
  have hsegment : IsSegment last := root.meaningful last
    (hsegments ▸ List.mem_append_right outer List.mem_cons_self)
  have hup : last ≠ upSegment := by
    rintro rfl
    exact absurd hback (by decide)
  rw [location, Step.ofPath, hsegments, List.map_append, Step.blindly_append, List.map_singleton,
    Step.ofPiece_eq_name hsegment hup]
  exact List.countP_pos_iff.mpr ⟨last, List.mem_cons_self, List.contains_iff_mem.mpr hback⟩

/-- What a text means holds no more backslashes than the way to the root does, and none if it does
not start there. -/
theorem backslashes_resolve_le (root path : Path) :
    (root.resolve (projectRelative root path)).location.backslashes ≤
      if anchorOf (projectRelative root path) = .relative then root.location.backslashes else 0 := by
  have hnames : ∀ n, .name n ∈ (segmentsOf (projectRelative root path)).map Step.ofPiece →
      n.contains '\\' = false := by
    intro n hn
    obtain ⟨s, hs, hname⟩ := List.mem_map.mp hn
    obtain rfl := Step.eq_of_ofPiece_eq_name hname
    exact Bool.eq_false_iff.mpr fun hm =>
      not_mem_segmentsOf_projectRelative hs (List.contains_iff_mem.mp hm)
  rw [location, Step.ofPath, segments_resolve_eq, List.map_append, Step.blindly_append]
  refine (Step.countP_blindly_le _ hnames).trans ?_
  split
  · exact le_rfl
  · exact le_rfl

/-- If a text does not mean the path that it was taken from, it spells another location, unless the
path leads up again behind the root. -/
theorem LeadsOn.location_resolve_ne (h : root.LeadsOn path rest) (hdown : ∀ s ∈ rest, LeadsDown s)
    (hnot : ¬ Recoverable root path) :
    (root.resolve (projectRelative root path)).location ≠ path.location := by
  have hself : path = root.extend rest := by
    refine eq_of_segments h.anchor ?_
    rw [h.segments, root.segments_extend h.isSegment]
  have hcount : path.location.backslashes =
      rest.countP (·.contains '\\') + root.location.backslashes := by
    rw [hself, location_extend _ hdown, Location.backslashes, List.countP_append,
      List.countP_reverse]
    rfl
  have hle := backslashes_resolve_le root path
  intro heq
  rw [heq, hcount] at hle
  by_cases hplain : PlainBehind root path
  · have hends : root.EndsInBackslash := not_not.mp fun hends => hnot ⟨hplain, hends⟩
    rw [if_neg (h.anchorOf_projectRelative_ne hplain hends)] at hle
    have hpos := hends.backslashes_pos
    omega
  · rw [h.plainBehind_iff] at hplain
    push Not at hplain
    obtain ⟨s, hs, hback⟩ := hplain
    have hpos : 0 < rest.countP (·.contains '\\') :=
      List.countP_pos_iff.mpr ⟨s, hs, List.contains_iff_mem.mpr hback⟩
    split at hle <;> omega

end Path

namespace FileTree

variable {t : FileTree} {root : Path} {dir : Text} {trail : Trail} {e : Entry}

/-- In a tree without links, what is found on a path that its text does not lead back to is not
what the text means. -/
theorem named?_resolve_ne (h : t.Shows root dir trail e) (hlink : t.NoLink)
    (hdir : ProjectPath.StaysInside dir)
    (hnot : ¬ Path.Recoverable root ((root.resolve dir).extend trail.reverse)) {l : Location}
    (hnamed : t.named? ((root.resolve dir).extend trail.reverse) = some (l, e)) :
    t.named? (root.resolve (projectRelative root ((root.resolve dir).extend trail.reverse))) ≠
      some (l, e) := by
  intro hsame
  have hdown : ∀ s ∈ Path.segmentsOf dir ++ trail.reverse, LeadsDown s := by
    intro s hs
    rcases List.mem_append.mp hs with hs | hs
    · exact hdir.leadsDown s hs
    · obtain ⟨_, _, hget⟩ := h.exists_get? (List.mem_reverse.mp hs)
      exact (isName_of_get? hget).leadsDown
  refine (h.leadsOn hdir.1).location_resolve_ne hdown hnot ?_
  rw [← eq_location_of_named? hlink hsame, ← eq_location_of_named? hlink hnamed]

/-- What the text of an entry that a walk finds leads back to. -/
theorem named?_of_mem_walkSkipping {skip : Text → Bool} {found : Path × Bool}
    (hdir : Path.anchorOf dir = .relative)
    (hfound : found ∈ t.walkSkipping skip (root.resolve dir)) :
    let back := root.resolve (projectRelative root found.1)
    ∃ l e, t.named? found.1 = some (l, e) ∧ found.2 = e.isDirectory ∧
      (Path.Recoverable root found.1 →
        back.segments = found.1.segments ∧ t.named? back = some (l, e)) ∧
      (¬ Path.Recoverable root found.1 → back.segments ≠ found.1.segments ∧
        (t.NoLink → ProjectPath.StaysInside dir → t.named? back ≠ some (l, e))) := by
  intro back
  obtain ⟨trail, e, h, rfl⟩ := exists_shows_of_mem_walkSkipping hfound
  obtain ⟨l, -, hnamed⟩ := h.named?
  refine ⟨trail ++ l, e, hnamed, rfl, fun hrecoverable => ?_, fun hnot => ?_⟩
  · have hsegments := (h.leadsOn hdir).segments_resolve_projectRelative hrecoverable
    exact ⟨hsegments, (named?_congr hsegments).trans hnamed⟩
  · exact ⟨mt (h.leadsOn hdir).recoverable_of_segments_resolve hnot,
      fun hlink hinside => named?_resolve_ne h hlink hinside hnot hnamed⟩

/-- Of what a walk finds without backslashes behind the root, each entry has a text of its own. -/
theorem eq_of_mem_walk {found other : Path × Bool} (hdir : Path.anchorOf dir = .relative)
    (hfound : found ∈ t.walk (root.resolve dir)) (hother : other ∈ t.walk (root.resolve dir))
    (hplain : Path.PlainBehind root found.1) (hplain' : Path.PlainBehind root other.1)
    (heq : projectRelative root found.1 = projectRelative root other.1) : found = other := by
  obtain ⟨trail, e, h, rfl⟩ := exists_shows_of_mem_walkSkipping hfound
  obtain ⟨inner, d, h', rfl⟩ := exists_shows_of_mem_walkSkipping hother
  have hpath := (h.leadsOn hdir).eq_of_projectRelative_eq (h'.leadsOn hdir) hplain hplain' heq
  obtain ⟨l, -, hnamed⟩ := h.named?
  obtain ⟨l', -, hnamed'⟩ := h'.named?
  -- the path tells the entry, and the entry whether it is a directory
  rw [hpath, hnamed', Option.some.injEq, Prod.mk.injEq] at hnamed
  rw [hpath, hnamed.2]

end FileTree

/-! ## The files that a pass adds -/

namespace Pass.Terms

variable {k : Terms} {t : FileTree} {f : Text}

/-- A file that an entry found by a walk adds is the entry itself, or is there. -/
theorem mem_entry {found : Path × Bool} (h : f ∈ (k.entry t found).1) :
    found.2 = false ∧ f = projectRelative k.root found.1 ∨ k.IsFile t f := by
  rw [entry] at h
  split at h
  · obtain ⟨-, rfl, hfile, -⟩ := h
    exact .inr hfile
  · next hkind =>
    rcases h with ⟨-, rfl | ⟨rfl, hfile⟩⟩
    · exact .inl ⟨Bool.eq_false_iff.mpr hkind, rfl⟩
    · exact .inr hfile

/-- A file that a reported path adds is the path, or is there. -/
theorem mem_indexEntry {path : Text} (h : f ∈ (k.indexEntry t path).1) :
    f = ProjectPath.directoryForm path ∨ k.IsFile t f := by
  simp only [indexEntry] at h
  split at h
  · exact absurd h (Set.notMem_empty f)
  · split at h
    · rcases h with ⟨-, rfl | ⟨rfl, hfile⟩⟩ | h
      · exact .inl rfl
      · exact .inr hfile
      · exact absurd h (Set.notMem_empty f)
    · obtain ⟨-, rfl, hfile, -⟩ := h
      exact .inr hfile

end Pass.Terms

namespace Settings

variable {t : FileTree} {settings : Settings}

/-- The primary root is not among what a pass takes from the index, in any tree. -/
theorem not_startsWith_primaryRoot (hprimary : ProjectPath.IsOrdinary settings.primaryRoot) :
    Text.startsWith (ProjectPath.directoryForm
      (projectRelative settings.projectRoot settings.primaryRootPath))
        (settings.primaryRoot ++ ['/']) = false := by
  refine Bool.eq_false_iff.mpr fun hstart => ?_
  have hfront := List.isPrefixOf_iff_prefix.mp hstart
  have hlead : settings.projectRoot.LeadsOn settings.primaryRootPath _ :=
    Path.leadsOn_resolve hprimary.anchorOf hprimary.segments_ne_nil
  have hplain : Path.PlainBehind settings.projectRoot settings.primaryRootPath := by
    refine hlead.plainBehind_iff.mpr fun s hs hback => ?_
    have hmem : '\\' ∈ settings.primaryRoot :=
      Text.mem_of_mem_split (List.mem_filter.mp hs).1 hback
    exact ProjectPath.not_mem_directoryForm _ (hfront.subset (List.mem_append_left _ hmem))
  rw [hlead.directoryForm_projectRelative hplain, hprimary.joinWith] at hfront
  have hlength := hfront.length_le
  rw [List.length_append, List.length_singleton] at hlength
  omega

end Settings

/-- The files that a pass adds for what lies below a directory are there, except for texts that do
not lead back to what was found. -/
theorem Pass.mem_files_addBelow {t : FileTree} {k : Pass.Terms} {p : Pass} (hk : p.terms = k)
    (hp : p.Sound) {dir f : Text} (hdir : Path.anchorOf dir = .relative)
    (hf : f ∈ (p.addBelow t (k.root.resolve dir)).files) : f ∈ p.files ∨
      (t.named? (k.root.resolve f)).isSome = true ∨
        ∃ found ∈ t.walk (k.root.resolve dir), found.2 = false ∧
          ¬ Path.Recoverable k.root found.1 ∧ f = projectRelative k.root found.1 := by
  have hjoins := addBelow_joins t hp (k.root.resolve dir)
  have hmem : f ∈ (p.addBelow t (k.root.resolve dir)).found.1 := hf
  rw [hjoins.found, hk] at hmem
  refine hmem.imp_right fun hbelow => ?_
  obtain ⟨found, hfound, hentry⟩ := Findings.mem_iSup_fst.mp hbelow
  rcases Terms.mem_entry hentry with ⟨hkind, rfl⟩ | hfile
  · obtain ⟨l, e, -, -, hback, -⟩ := FileTree.named?_of_mem_walkSkipping hdir hfound
    by_cases hrecoverable : Path.Recoverable k.root found.1
    · exact .inl (Option.isSome_of_mem (hback hrecoverable).2)
    · exact .inr ⟨found, hfound, hkind, hrecoverable, rfl⟩
  · exact .inl (FileTree.isSome_named?_of_isFile hfile)

/-- The files that a pass adds for what the default index reports are there, except for entries with
a backslash behind the root. -/
theorem mem_files_startPass {t : FileTree} {settings : Settings} {m : Matcher} (hm : m.Sound)
    (hprimary : ProjectPath.IsOrdinary settings.primaryRoot) {f : Text}
    (hf : f ∈ (startPass t settings m (defaultListing t settings)).files) :
    (t.named? (settings.projectRoot.resolve f)).isSome = true ∨
      ∃ found ∈ t.walk settings.primaryRootPath,
        ¬ Path.PlainBehind settings.projectRoot found.1 ∧
          f = ProjectPath.directoryForm (projectRelative settings.projectRoot found.1) := by
  have hjoins : Pass.Joins _ (startPass t settings m (defaultListing t settings)) _ :=
    startPass_joins hm (defaultListing t settings)
  have hmem : f ∈ (startPass t settings m (defaultListing t settings)).found.1 := hf
  rw [hjoins.found, Pass.found_new, bot_sup_eq] at hmem
  obtain ⟨path, hpath, hentry⟩ := Findings.mem_iSup_fst.mp hmem
  rcases Pass.Terms.mem_indexEntry hentry with rfl | hfile
  · obtain ⟨trail, e, hshows, rfl⟩ := Settings.exists_shows_of_mem_reported_text
      (Settings.not_startsWith_primaryRoot hprimary) hpath
    rw [ProjectPath.directoryForm_directoryForm]
    by_cases hplain : Path.PlainBehind settings.projectRoot
        (settings.primaryRootPath.extend trail.reverse)
    · obtain ⟨l, -, hnamed⟩ := hshows.named?
      have hsegments :=
        (hshows.leadsOn hprimary.anchorOf).segments_resolve_directoryForm hplain
      exact .inl (Option.isSome_of_mem ((FileTree.named?_congr hsegments).trans hnamed))
    · exact .inr ⟨_, hshows.mem_walk, hplain, rfl⟩
  · exact .inl (FileTree.isSome_named?_of_isFile hfile)

/-- **Which entries the texts of a pass identify.** In any file tree, for any project root and any
directory that is named from it: a text by which a walk from the directory is known leads back to
the path of the entry, and so to the entry, if no name behind the root holds a backslash and the
root does not end with one. If this is not so, the text leads to another path, and in a tree without
links to another entry or to none.

So entries without backslashes behind the root have different texts. Each file that a pass adds for
what lies below the directory, after any operations before, is the text of an entry, except for
texts that do not lead back. So is each file that it adds for what the default index reports, except
for names with backslashes; a root that ends with one does no harm there, as the index is read
without slashes in front. -/
theorem projectRelative_identifies (t : FileTree) (root : Path) (dir : Text)
    (hdir : Path.anchorOf dir = .relative) :
    (∀ skip, ∀ found ∈ t.walkSkipping skip (root.resolve dir),
      let back := root.resolve (projectRelative root found.1)
      ∃ l e, t.named? found.1 = some (l, e) ∧ found.2 = e.isDirectory ∧
        (Path.Recoverable root found.1 →
          back.segments = found.1.segments ∧ t.named? back = some (l, e)) ∧
        (¬ Path.Recoverable root found.1 → back.segments ≠ found.1.segments ∧
          (t.NoLink → ProjectPath.StaysInside dir → t.named? back ≠ some (l, e)))) ∧
    (∀ found ∈ t.walk (root.resolve dir), ∀ other ∈ t.walk (root.resolve dir),
      Path.PlainBehind root found.1 → Path.PlainBehind root other.1 →
        projectRelative root found.1 = projectRelative root other.1 → found = other) ∧
    (∀ (lines : List Text) (suffix : Text) (calls : List Pass.Call),
      let p := calls.foldl (Pass.Call.run t) (Pass.new (.ofLines lines) root suffix)
      ∀ f ∈ (p.addBelow t (root.resolve dir)).files, f ∈ p.files ∨
        (t.named? (root.resolve f)).isSome = true ∨
          ∃ found ∈ t.walk (root.resolve dir), found.2 = false ∧
            ¬ Path.Recoverable root found.1 ∧ f = projectRelative root found.1) ∧
    ∀ (settings : Settings) (lines : List Text), settings.projectRoot = root →
      settings.primaryRoot = dir → ProjectPath.IsOrdinary dir →
        ∀ f ∈ (startPass t settings (.ofLines lines) (defaultListing t settings)).files,
          (t.named? (root.resolve f)).isSome = true ∨
            ∃ found ∈ t.walk (root.resolve dir), ¬ Path.PlainBehind root found.1 ∧
              f = ProjectPath.directoryForm (projectRelative root found.1) := by
  refine ⟨fun skip found hfound => FileTree.named?_of_mem_walkSkipping hdir hfound,
    fun found hfound other hother hplain hplain' heq =>
      FileTree.eq_of_mem_walk hdir hfound hother hplain hplain' heq,
    fun lines suffix calls => ?_, ?_⟩
  · intro p f hf
    have hp : p.Accounted ⟨Rule.ofLines lines, root, suffix⟩ t :=
      (Pass.accounted_new lines root suffix).foldl_run calls
    exact Pass.mem_files_addBelow hp.terms hp.sound hdir hf
  · rintro settings lines rfl rfl hprimary f hf
    exact mem_files_startPass (Matcher.sound_ofLines lines) hprimary hf

/-- A log whose name holds a backslash, alone in the primary root. -/
def splitLog : FileTree :=
  (FileTree.empty.insert [] "Assets".toList .directory).insert ["Assets".toList]
    "a\\b.log".toList (.file .empty 0)

/-- The same, beside a directory with a log. -/
def sharedLog : FileTree :=
  (splitLog.insert ["Assets".toList] "a".toList .directory).insert ["a".toList, "Assets".toList]
    "b.log".toList (.file .empty 0)

/-- A log in a project whose root ends with a backslash. -/
def slantedLog : FileTree :=
  ((FileTree.empty.insert [] "q\\".toList .directory).insert ["q\\".toList] "Assets".toList
    .directory).insert ["Assets".toList, "q\\".toList] "b.log".toList (.file .empty 0)

theorem sharedLog_shows :
    sharedLog.Shows (.ofText ['/']) "Assets".toList ["b.log".toList, "a".toList]
      (.file .empty 0) := by
  refine ⟨["Assets".toList], by decide, (FileTree.visible_append_iff
    (List.cons_ne_nil "b.log".toList []) (List.cons_ne_nil "a".toList [])).mpr ⟨?_, ?_⟩⟩
  · exact FileTree.visible_singleton.mpr (by decide)
  · exact FileTree.visible_singleton.mpr (by decide)

/-- A log without a backslash is told by its text, also where another one has the same text. -/
theorem sharedLog_identified :
    let t := sharedLog
    let root := Path.ofText ['/']
    let dir := "Assets".toList
    let log := (root.resolve dir).extend ["a".toList, "b.log".toList]
    Path.anchorOf dir = .relative ∧ (log, false) ∈ t.walk (root.resolve dir) ∧
      Path.Recoverable root log ∧ projectRelative root log = "Assets/a/b.log".toList ∧
        ∃ l, t.named? log = some (l, .file .empty 0) ∧
          t.named? (root.resolve "Assets/a/b.log".toList) = some (l, .file .empty 0) := by
  intro t root dir log
  have hdir : Path.anchorOf dir = .relative := by decide
  have hfound : (log, false) ∈ t.walk (root.resolve dir) := sharedLog_shows.mem_walk
  have hrecoverable : Path.Recoverable root log := by decide
  have htext : projectRelative root log = "Assets/a/b.log".toList := by decide
  obtain ⟨l, e, hnamed, -, hback, -⟩ :=
    (projectRelative_identifies t root dir hdir).1 (fun _ => false) _ hfound
  have hkind : t.named? log = some (["b.log".toList, "a".toList, "Assets".toList],
      .file .empty 0) := by decide
  obtain ⟨rfl, rfl⟩ := Prod.mk.inj (Option.some.inj (hnamed.symm.trans hkind))
  refine ⟨hdir, hfound, hrecoverable, htext, _, hnamed, ?_⟩
  rw [← htext]
  exact (hback hrecoverable).2

/-- A backslash in a name: the text of the log names nothing, and the file that a walk or the index
adds is not there, unless there is another log by this text. A backslash at the end of the root: no
text below it leads back. -/
theorem splitLog_misread :
    let root := Path.ofText ['/']
    let dir := "Assets".toList
    let slanted := Path.ofText "/q\\".toList
    let settings := Settings.initial root
    let m := Matcher.ofLines ["*.log".toList]
    ¬ (∀ found ∈ splitLog.walk (root.resolve dir),
      splitLog.named? (root.resolve (projectRelative root found.1)) = splitLog.named? found.1) ∧
    ¬ (∀ f ∈ ((Pass.new m root defaultSidecarSuffix).addBelow splitLog (root.resolve dir)).files,
      (splitLog.named? (root.resolve f)).isSome = true) ∧
    ¬ (∀ f ∈ (startPass splitLog settings m (defaultListing splitLog settings)).files,
      (splitLog.named? (root.resolve f)).isSome = true) ∧
    ¬ (∀ found ∈ sharedLog.walk (root.resolve dir), ∀ other ∈ sharedLog.walk (root.resolve dir),
      projectRelative root found.1 = projectRelative root other.1 → found = other) ∧
    ¬ (∀ found ∈ slantedLog.walk (slanted.resolve dir),
      slantedLog.named? (slanted.resolve (projectRelative slanted found.1)) =
        slantedLog.named? found.1) := by
  intro root dir slanted settings m
  refine ⟨by decide +kernel, fun h => ?_, fun h => ?_, fun h => ?_, by decide +kernel⟩
  · exact absurd (h "Assets/a/b.log".toList (by decide +kernel)) (by decide)
  · have hlisting : defaultListing splitLog settings =
        ["Assets".toList, "Assets/a/b.log".toList] :=
      Settings.defaultListing_of_pairwise (by decide) (by decide +kernel) (by decide)
    rw [hlisting] at h
    exact absurd (h "Assets/a/b.log".toList (by decide +kernel)) (by decide)
  · have hsplit : sharedLog.Shows root dir ["a\\b.log".toList] (.file .empty 0) :=
      ⟨["Assets".toList], by decide, FileTree.visible_singleton.mpr (by decide)⟩
    exact absurd (h _ hsplit.mem_walk _ sharedLog_shows.mem_walk (by decide)) (by decide)

end IgnoredPaths
