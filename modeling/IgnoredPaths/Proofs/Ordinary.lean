import IgnoredPaths.Proofs.ExportFrame
import IgnoredPaths.Proofs.Index
import IgnoredPaths.Proofs.Roots
import IgnoredPaths.Proofs.Supplement

/-!
# Where collected paths lead

Everything that a pass adds is the text of an entry found by a walk, the text of a directory above
one, or one of these with the ending of sidecars. If no root leads up and the ending holds no
slash, all these texts consist of ordinary segments, so that they lead on from any directory.

A primary root need not be written in ordinary segments for that, and the tree may hold links.

- `ProjectPath.IsOrdinary.append`, `ProjectPath.IsOrdinary.of_mem_ancestors`: ordinary texts with
  an ending, and the texts above them.
- `ProjectPath.IsOrdinary.prefix_dropLast_iff`: the first names of an ordinary text.
- `Findings.ordinary`: the findings that are ordinary texts, an upper bound for what the
  operations of a pass contribute.
- `isOrdinary_of_mem_collect`: what a collection holds is ordinary.
-/

namespace IgnoredPaths

namespace ProjectPath

variable {path dir : Text} {segments names : List Text}

theorem isOrdinary_joinWith (hne : segments ≠ []) (h : ∀ s ∈ segments, LeadsDown s) :
    IsOrdinary (Text.joinWith '/' segments) := by
  rw [IsOrdinary, Text.split_joinWith hne fun s hs => (h s hs).1.2.2]
  exact fun s hs => ⟨(h s hs).1.1, (h s hs).1.2.1, (h s hs).2⟩

theorem IsOrdinary.leadsDown (h : IsOrdinary path) : ∀ s ∈ Text.split '/' path, LeadsDown s :=
  fun s hs => ⟨⟨(h s hs).1, (h s hs).2.1, Text.not_mem_of_mem_split hs⟩, (h s hs).2.2⟩

theorem IsOrdinary.staysInside (h : IsOrdinary path) : StaysInside path :=
  ⟨h.anchorOf, fun hup => (h _ (h.segmentsOf ▸ hup)).2.2 rfl⟩

/-- What stands before a slash in an ordinary text is ordinary. -/
theorem IsOrdinary.of_append_cons {rest : Text} (h : IsOrdinary (path ++ '/' :: rest)) :
    IsOrdinary path := by
  rw [IsOrdinary, Text.split_append_cons] at h
  exact fun s hs => h s (List.mem_append_left _ hs)

/-- A name that leads down does so with any ending that holds no slash. -/
theorem leadsDown_append {name ending : Text} (h : LeadsDown name) (hending : '/' ∉ ending) :
    LeadsDown (name ++ ending) := by
  obtain ⟨⟨hne, hhere, hslash⟩, hup⟩ := h
  obtain ⟨c, rest, rfl⟩ := List.exists_cons_of_ne_nil hne
  refine ⟨⟨List.cons_ne_nil _ _, fun heq => ?_, ?_⟩, fun heq => ?_⟩
  · obtain ⟨rfl, hrest⟩ := List.cons.inj heq
    rw [(List.append_eq_nil_iff.mp hrest).1] at hhere
    exact hhere rfl
  · rw [List.mem_append, not_or]
    exact ⟨hslash, hending⟩
  · obtain ⟨rfl, hrest⟩ := List.cons.inj heq
    rcases List.append_eq_singleton_iff.mp hrest with ⟨rfl, -⟩ | ⟨rfl, -⟩
    · exact hhere rfl
    · exact hup rfl

/-- An ordinary text with an ending that holds no slash is ordinary. -/
theorem IsOrdinary.append (h : IsOrdinary path) {ending : Text} (hending : '/' ∉ ending) :
    IsOrdinary (path ++ ending) := by
  have hdown := h.leadsDown
  rcases List.eq_nil_or_concat' (Text.split '/' path) with hnil | ⟨outer, name, hsplit⟩
  · exact absurd hnil (Text.split_ne_nil '/' path)
  · rw [hsplit] at hdown
    have hname := leadsDown_append
      (hdown name (List.mem_append_right outer List.mem_cons_self)) hending
    have hpath : path ++ ending = Text.joinWith '/' (outer ++ [name ++ ending]) := by
      rw [← Text.joinWith_split '/' path, hsplit]
      by_cases houter : outer = []
      · rw [houter]
        rfl
      · rw [Text.joinWith_append houter (List.cons_ne_nil _ _),
          Text.joinWith_append houter (List.cons_ne_nil _ _), List.append_assoc]
        rfl
    rw [hpath]
    refine isOrdinary_joinWith (List.append_ne_nil_of_right_ne_nil _ (List.cons_ne_nil _ _)) ?_
    refine List.forall_mem_append.mpr ⟨fun s hs => hdown s (List.mem_append_left [name] hs), ?_⟩
    exact fun s hs => List.mem_singleton.mp hs ▸ hname

theorem IsOrdinary.trim_eq (h : IsOrdinary path) : Text.trim (· = '/') path = path := by
  have hplain : ∀ s ∈ Path.segmentsOf path, s ≠ [] ∧ '/' ∉ s := by
    intro s hs
    have hseg := Path.isSegment_of_mem_segmentsOf hs
    exact ⟨hseg.1, hseg.2.2⟩
  rw [← h.joinWith, Text.trim, Text.trimLeft_joinWith hplain, Text.trimRight_joinWith hplain]

/-- The directories above an ordinary path are ordinary. -/
theorem IsOrdinary.of_mem_ancestors (h : IsOrdinary path) {a : Text} (ha : a ∈ ancestors path) :
    IsOrdinary a := by
  obtain ⟨-, rest, hrest⟩ := mem_ancestors.mp ha
  rw [h.trim_eq] at hrest
  rw [hrest] at h
  exact h.of_append_cons

/-- An ending that holds no slash changes nothing above an ordinary path. -/
theorem IsOrdinary.ancestors_append (h : IsOrdinary path) {ending a : Text}
    (hending : '/' ∉ ending) : a ∈ ancestors (path ++ ending) ↔ a ∈ ancestors path := by
  rw [mem_ancestors, mem_ancestors, (h.append hending).trim_eq, h.trim_eq]
  refine and_congr_right fun _ => ⟨?_, ?_⟩
  · rintro ⟨rest, hrest⟩
    rcases List.append_eq_append_iff.mp hrest with ⟨more, -, hmore⟩ | ⟨more, hmore, hslash⟩
    · exact absurd (hmore ▸ List.mem_append_right more List.mem_cons_self) hending
    · rcases List.cons_eq_append_iff.mp hslash with ⟨-, heq⟩ | ⟨inner, rfl, -⟩
      · exact absurd (heq ▸ List.mem_cons_self) hending
      · exact ⟨inner, hmore⟩
  · rintro ⟨rest, rfl⟩
    exact ⟨rest ++ ending, by simp⟩

/-- The directories above an ordinary path are those of its first segments. -/
theorem IsOrdinary.mem_ancestors_iff (h : IsOrdinary path) {a : Text} (ha : IsOrdinary a) :
    a ∈ ancestors path ↔ Path.segmentsOf a <+: Path.segmentsOf path ∧ a ≠ path := by
  rw [mem_ancestors, h.trim_eq]
  constructor
  · rintro ⟨-, rest, rfl⟩
    refine ⟨?_, fun heq => ?_⟩
    · rw [h.segmentsOf, ha.segmentsOf, Text.split_append_cons]
      exact List.prefix_append _ _
    · have hlength := congrArg List.length heq
      rw [List.length_append, List.length_cons] at hlength
      omega
  · rintro ⟨⟨rest, hrest⟩, hne⟩
    have hpath := h.joinWith
    have hrestNe : rest ≠ [] := by
      rintro rfl
      rw [← hrest, List.append_nil, ha.joinWith] at hpath
      exact hne hpath
    rw [← hrest, Text.joinWith_append ha.segments_ne_nil hrestNe, ha.joinWith] at hpath
    have hane : Text.joinWith '/' (Path.segmentsOf a) ≠ [] :=
      Text.joinWith_ne_nil ha.segments_ne_nil fun s hs => (Path.isSegment_of_mem_segmentsOf hs).1
    exact ⟨ha.joinWith ▸ hane, _, hpath.symm⟩

theorem IsOrdinary.prefix_iff (h : IsOrdinary path) : names <+: Path.segmentsOf path ↔
    names = Path.segmentsOf path ∨ names <+: (Path.segmentsOf path).dropLast := by
  obtain ⟨outer, name, hsegments⟩ :=
    (List.eq_nil_or_concat' (Path.segmentsOf path)).resolve_left h.segments_ne_nil
  rw [hsegments, List.dropLast_concat, List.prefix_concat_iff]

/-- The names above the last one of an ordinary path are the segments of directories above it. -/
theorem IsOrdinary.prefix_dropLast_iff (h : IsOrdinary path) (hne : names ≠ []) :
    names <+: (Path.segmentsOf path).dropLast ↔
      ∃ a ∈ ancestors path, Path.segmentsOf a = names := by
  constructor
  · intro hfirst
    have hall : names <+: Path.segmentsOf path := h.prefix_iff.mpr (.inr hfirst)
    have hdown : ∀ s ∈ names, LeadsDown s := fun s hs => h.staysInside.leadsDown s (hall.subset hs)
    have hsegments : Path.segmentsOf (Text.joinWith '/' names) = names :=
      Path.segmentsOf_joinWith fun s hs => (hdown s hs).1
    refine ⟨Text.joinWith '/' names, ?_, hsegments⟩
    refine (h.mem_ancestors_iff (isOrdinary_joinWith hne hdown)).mpr ⟨hsegments.symm ▸ hall, ?_⟩
    intro hself
    rw [hself] at hsegments
    have hlength := hfirst.length_le
    rw [← hsegments, List.length_dropLast] at hlength
    have hpos := List.length_pos_of_ne_nil h.segments_ne_nil
    omega
  · rintro ⟨a, ha, rfl⟩
    have hordinary := h.of_mem_ancestors ha
    obtain ⟨hfirst, hother⟩ := (h.mem_ancestors_iff hordinary).mp ha
    refine (h.prefix_iff.mp hfirst).resolve_left fun heq => hother ?_
    rw [← hordinary.joinWith, heq, h.joinWith]

/-- The directory of an ordinary path is ordinary. -/
theorem IsOrdinary.of_beforeLast? (h : IsOrdinary path)
    (hdir : Text.beforeLast? '/' path = some dir) : IsOrdinary dir := by
  obtain ⟨rest, rfl⟩ := Text.exists_of_beforeLast? hdir
  exact h.of_append_cons

/-- What is found from a directory that stays inside is known by an ordinary text. -/
theorem isOrdinary_descend (hdir : StaysInside dir) (hnames : ∀ name ∈ names, LeadsDown name)
    (hne : names ≠ []) : IsOrdinary (descend dir names) :=
  isOrdinary_joinWith (List.append_ne_nil_of_right_ne_nil _ hne)
    (List.forall_mem_append.mpr ⟨hdir.leadsDown, hnames⟩)

end ProjectPath

/-! ## What a pass adds -/

namespace Findings

/-- The findings that are ordinary texts. -/
def ordinary : Findings := ({x | ProjectPath.IsOrdinary x}, {x | ProjectPath.IsOrdinary x})

/-- The completion of ordinary findings adds ordinary ones. -/
theorem completed_le_ordinary {k : Pass.Terms} (t : FileTree) (hsuffix : '/' ∉ k.suffix)
    {c : Findings} (h : c ≤ ordinary) : c.completed k t ≤ ordinary := by
  have habove : ∀ a ∈ c.above, ProjectPath.IsOrdinary a := by
    rintro a ⟨x, hx | hx, ha⟩
    · exact (h.1 hx).of_mem_ancestors ha
    · exact (h.2 hx).of_mem_ancestors ha
  rw [completed_eq]
  refine ⟨Set.union_subset h.1 ?_, Set.union_subset h.2 fun a ha => habove a ha.1⟩
  rintro x ⟨a, ha, -, rfl⟩
  exact (habove a ha).append hsuffix

end Findings

namespace Pass.Terms

variable {k : Terms} {t : FileTree} {path dir : Text} {trail : Trail} {e : Entry}

theorem file_le_ordinary (hsuffix : '/' ∉ k.suffix) (h : ProjectPath.IsOrdinary path) :
    k.file t path ≤ Findings.ordinary := by
  refine ⟨?_, Set.empty_subset _⟩
  rintro x ⟨-, rfl | ⟨rfl, -⟩⟩
  · exact h
  · exact h.append hsuffix

theorem directory_le_ordinary (hsuffix : '/' ∉ k.suffix) (h : ProjectPath.IsOrdinary path) :
    k.directory t path ≤ Findings.ordinary := by
  refine ⟨?_, ?_⟩
  · rintro x ⟨-, rfl, -⟩
    exact h.append hsuffix
  · rintro x ⟨-, rfl⟩
    exact h

theorem parent_le_ordinary (h : ProjectPath.IsOrdinary path) :
    k.parent path ≤ Findings.ordinary :=
  ⟨Set.empty_subset _, fun _ hx => h.of_beforeLast? hx.1⟩

theorem indexEntry_le_ordinary (hsuffix : '/' ∉ k.suffix) (h : ProjectPath.IsOrdinary path)
    (hform : ProjectPath.directoryForm path = path) :
    k.indexEntry t path ≤ Findings.ordinary := by
  simp only [indexEntry, hform]
  split
  · exact bot_le
  · split
    · exact sup_le (file_le_ordinary hsuffix h) (parent_le_ordinary h)
    · exact directory_le_ordinary hsuffix h

/-- The text of an entry that a directory shows is ordinary. -/
theorem isOrdinary_of_shows {root : Path} (h : t.Shows root dir trail e)
    (hdir : ProjectPath.StaysInside dir) :
    ProjectPath.IsOrdinary (ProjectPath.descend dir trail.reverse) := by
  refine ProjectPath.isOrdinary_descend hdir (fun name hname => ?_) fun hnil =>
    h.ne_nil (List.reverse_eq_nil_iff.mp hnil)
  obtain ⟨_, _, hget⟩ := h.exists_get? (List.mem_reverse.mp hname)
  exact (FileTree.isName_of_get? hget).leadsDown

theorem shown_le_ordinary (hsuffix : '/' ∉ k.suffix) (h : t.Shows k.root dir trail e)
    (hdir : ProjectPath.StaysInside dir) : k.shown t dir trail e ≤ Findings.ordinary := by
  rw [shown]
  split
  · exact directory_le_ordinary hsuffix (isOrdinary_of_shows h hdir)
  · exact file_le_ordinary hsuffix (isOrdinary_of_shows h hdir)

theorem below_le_ordinary (hsuffix : '/' ∉ k.suffix) (hlegible : t.Legible k.root)
    (hdir : ProjectPath.StaysInside dir)
    (hdirectory : t.isDirectory (k.root.resolve dir) = true) :
    k.below t (k.root.resolve dir) ≤ Findings.ordinary :=
  below_le hdirectory hlegible hdir.1 fun _ _ hshows => shown_le_ordinary hsuffix hshows hdir

theorem taken_le_ordinary (hsuffix : '/' ∉ k.suffix) (hlegible : t.Legible k.root)
    (hdir : ProjectPath.StaysInside dir) (h : t.Shows k.root dir trail e) :
    k.taken t ((k.root.resolve dir).extend trail.reverse, e.isDirectory) ≤ Findings.ordinary := by
  have hbelow := taken_le_below h hlegible hdir.1
  exact hbelow.trans (below_le_ordinary hsuffix hlegible hdir h.isDirectory)

end Pass.Terms

/-! ## A whole pass -/

namespace Settings

variable {t : FileTree} {settings : Settings}

/-- A text of segments can only begin with the primary root and a slash if the primary root is a
text of segments as well. -/
theorem segmentsOf_of_startsWith {segments : List Text} (h : ∀ s ∈ segments, IsSegment s)
    (hstart : Text.startsWith (Text.joinWith '/' segments) (settings.primaryRoot ++ ['/']) = true) :
    Path.segmentsOf settings.primaryRoot = Text.split '/' settings.primaryRoot ∧
      ∃ rest, rest ≠ [] ∧ segments = Text.split '/' settings.primaryRoot ++ rest := by
  rw [← Text.joinWith_split '/' settings.primaryRoot] at hstart
  obtain ⟨rest, hrest, rfl⟩ := (ProjectPath.startsWith_joinWith_iff
    (Text.split_ne_nil '/' settings.primaryRoot)
    (fun s hs => Text.not_mem_of_mem_split hs) fun s hs => (h s hs).2.2).mp hstart
  refine ⟨List.filter_eq_self.mpr fun s hs => ?_, rest, hrest, rfl⟩
  have hseg := h s (List.mem_append_left rest hs)
  exact decide_eq_true ⟨hseg.1, hseg.2.1⟩

/-- A text of segments that begins with the primary root and a slash has the segments of the
primary root, and more. -/
theorem exists_segments_of_startsWith {segments : List Text} (h : ∀ s ∈ segments, IsSegment s)
    (hstart : Text.startsWith (Text.joinWith '/' segments) (settings.primaryRoot ++ ['/']) = true) :
    Path.segmentsOf settings.primaryRoot ≠ [] ∧
      ∃ rest, rest ≠ [] ∧ segments = Path.segmentsOf settings.primaryRoot ++ rest := by
  obtain ⟨hall, hrest⟩ := segmentsOf_of_startsWith h hstart
  rw [hall]
  exact ⟨Text.split_ne_nil '/' settings.primaryRoot, hrest⟩

/-- Where the index reports the primary root itself, a pass does not take it, however it is
written. -/
theorem primaryRoot_not_reported (hback : t.NoBackslash)
    (hroot : settings.projectRoot.anchor = .root)
    (hprimary : Path.anchorOf settings.primaryRoot = .relative)
    (hdirectory : t.isDirectory settings.primaryRootPath = true) :
    Text.startsWith (ProjectPath.directoryForm
      (projectRelative settings.projectRoot settings.primaryRootPath))
        (settings.primaryRoot ++ ['/']) = false := by
  refine Bool.eq_false_iff.mpr fun hstart => ?_
  obtain ⟨hanchor, hsegments⟩ := settings.projectRoot.segments_resolve hprimary
  obtain ⟨l, hstat⟩ := FileTree.isDirectory_iff.mp hdirectory
  have hplain : ∀ s ∈ settings.projectRoot.segments ++ Path.segmentsOf settings.primaryRoot,
      IsSegment s ∧ '\\' ∉ s := by
    intro s hs
    rw [← hsegments] at hs
    exact ⟨settings.primaryRootPath.meaningful s hs, hback.of_stat hstat s hs⟩
  -- what is reported would have to have more segments than the primary root itself
  by_cases hnil : Path.segmentsOf settings.primaryRoot = []
  · have hself : settings.primaryRootPath = settings.projectRoot := by
      refine Path.eq_of_segments hanchor ?_
      rw [primaryRootPath, hsegments, hnil, List.append_nil]
    rw [hself, directoryForm_projectRelative_self hroot fun s hs =>
      (hplain s (List.mem_append_left _ hs)).2] at hstart
    exact (exists_segments_of_startsWith settings.projectRoot.meaningful hstart).1 hnil
  · rw [primaryRootPath, projectRelative_eq (Path.leadsOn_resolve hprimary hnil)
      (Path.toText_ne_of_anchor hroot) fun s hs => (hplain s (hsegments ▸ hs)).2,
      ProjectPath.directoryForm_joinWith
        (fun s hs => ⟨(hplain s (List.mem_append_right _ hs)).1.1,
          (hplain s (List.mem_append_right _ hs)).1.2.2⟩)
        fun s hs => (hplain s (List.mem_append_right _ hs)).2] at hstart
    obtain ⟨-, rest, hrest, hmore⟩ := exists_segments_of_startsWith
      (fun s hs => (hplain s (List.mem_append_right _ hs)).1) hstart
    have hlength := congrArg List.length hmore
    rw [List.length_append] at hlength
    exact hrest (List.length_eq_zero_iff.mp (by omega))

/-- What a pass takes from the default index is visible below the primary root, however that is
written. -/
theorem exists_shows_of_mem_reported (hback : t.NoBackslash)
    (hroot : settings.projectRoot.anchor = .root)
    (hprimary : Path.anchorOf settings.primaryRoot = .relative) {path : Text}
    (h : path ∈ settings.reported (defaultListing t settings)) :
    ∃ trail e, t.Shows settings.projectRoot settings.primaryRoot trail e ∧
      path = ProjectPath.descend settings.primaryRoot trail.reverse := by
  obtain ⟨trail, e, hshows, rfl⟩ := exists_shows_of_mem_reported_text
    (primaryRoot_not_reported hback hroot hprimary (isDirectory_of_mem_reported h)) h
  refine ⟨trail, e, hshows, ?_⟩
  rw [primaryRootPath, hshows.projectRelative ⟨hback, Path.toText_ne_of_anchor hroot⟩ hprimary,
    hshows.directoryForm hback hprimary]

/-- What a pass gathers over the default index is ordinary. -/
theorem gathered_le_ordinary (hback : t.NoBackslash) (hroot : settings.projectRoot.anchor = .root)
    (hprimary : ProjectPath.StaysInside settings.primaryRoot)
    (hsuffix : '/' ∉ settings.sidecarSuffix) (rules : List Rule) :
    (settings.terms rules).gathered t settings (defaultListing t settings) ≤
      Findings.ordinary := by
  have hlegible : t.Legible settings.projectRoot := ⟨hback, Path.toText_ne_of_anchor hroot⟩
  refine sup_le (sup_le (iSup₂_le fun path hpath => ?_) (iSup₂_le fun root hmem => ?_)) ?_
  · obtain ⟨trail, e, hshows, rfl⟩ := exists_shows_of_mem_reported hback hroot hprimary.1 hpath
    exact Pass.Terms.indexEntry_le_ordinary hsuffix (Pass.Terms.isOrdinary_of_shows hshows hprimary)
      (hshows.directoryForm hback hprimary.1)
  · rw [Pass.Terms.extraRoot]
    split
    · next hdirectory =>
      exact Pass.Terms.below_le_ordinary (k := settings.terms rules) hsuffix hlegible
        (staysInside_of_mem_acceptedExtraRoots hmem) hdirectory
    · exact bot_le
  · rw [Pass.Terms.primaryRoot]
    split
    · next hdirectory =>
      exact Pass.Terms.supplemented_le (k := settings.terms rules) hlegible hprimary.1 hdirectory
        fun name trail e hshows _ => Pass.Terms.taken_le_ordinary hsuffix hlegible hprimary hshows
    · exact bot_le

end Settings

/-- What a collection over the default index holds is ordinary, if the primary root stays inside
the project, the ending of sidecars holds no slash and no name holds a backslash. -/
theorem isOrdinary_of_mem_collect {t : FileTree} {settings : Settings} {m : Option Matcher}
    (hm : ∀ m' ∈ m, m'.Sound) (hback : t.NoBackslash)
    (hroot : settings.projectRoot.anchor = .root)
    (hprimary : ProjectPath.StaysInside settings.primaryRoot)
    (hsuffix : '/' ∉ settings.sidecarSuffix) {path : Text}
    (h : path ∈ (collect t settings m).dirs ++ (collect t settings m).files) :
    ProjectPath.IsOrdinary path := by
  cases m with
  | none => exact absurd h List.not_mem_nil
  | some m =>
    have hfound : (collectListing t settings m (defaultListing t settings)).found = _ :=
      (collectListing_spec (hm m rfl) _).2
    obtain ⟨⟨-, hdirs⟩, -, hfiles⟩ := Pass.result_spec hfound
    have hle := Findings.completed_le_ordinary (k := settings.terms m.rules) t hsuffix
      (Settings.gathered_le_ordinary hback hroot hprimary hsuffix m.rules)
    rcases List.mem_append.mp h with h | h
    · exact hle.2 ((hdirs path).mp h)
    · exact hle.1 ((hfiles path).mp h)

end IgnoredPaths
