import IgnoredPaths.Proofs.Appending
import IgnoredPaths.Proofs.Closure
import IgnoredPaths.Proofs.Recovery

/-!
# How the primary root is collected

A pass does not classify the primary root. Where an index reports it, it is passed over, and a walk
finds only what lies below it: the text by which a pass knows what is found goes on behind that of
the primary root, or is written without a backslash where that has one. So the primary root is
collected in two ways. It comes with what is collected below it, and it comes with each file that
is reported directly in it, which need not be collected, as rules may describe a directory and none
of its contents.

- `exists_knownAs_append`: the text of what is found, in any tree and under any names.
- `Pass.Terms.ReportsFileIn`: whether a file is reported directly in a directory.
- `Pass.Terms.mem_gathered_primaryRoot_iff`: when a pass finds the primary root before the
  completion.
- `primaryRoot_through_contents`: when it is collected.
-/

namespace IgnoredPaths

/-! ## The texts of what is found -/

namespace ProjectPath

variable {dir : Text}

theorem IsOrdinary.ne_nil (h : IsOrdinary dir) : dir ≠ [] := by
  rintro rfl
  exact (h [] List.mem_cons_self).1 rfl

/-- An ordinary text does not begin with a dot and a slash. -/
theorem IsOrdinary.startsWith_here (h : IsOrdinary dir) (rest : Text) :
    Text.startsWith (dir ++ '/' :: rest) (hereSegment ++ ['/']) = false := by
  refine Bool.eq_false_iff.mpr fun hstart => ?_
  obtain ⟨more, hmore⟩ := List.isPrefixOf_iff_prefix.mp hstart
  obtain ⟨c, inner, rfl⟩ := List.exists_cons_of_ne_nil h.ne_nil
  obtain ⟨rfl, hinner⟩ := List.cons.inj hmore
  have hpiece : hereSegment ∈ Text.split '/' ('.' :: inner) := by
    cases inner with
    | nil => exact List.mem_cons_self
    | cons d inner =>
      obtain ⟨rfl, -⟩ := List.cons.inj hinner
      exact Text.split_append_cons '/' hereSegment inner ▸ List.mem_append_left _ List.mem_cons_self
  exact (h hereSegment hpiece).2.1 rfl

end ProjectPath

section Found

variable {t : FileTree} {root : Path} {dir : Text} {trail : Trail} {e : Entry}

/-- What is found below a directory is known by a text that goes on behind the text of the
directory, slashes in front apart. -/
theorem exists_knownAs_append (hdir : ProjectPath.IsOrdinary dir) (hback : '\\' ∉ dir)
    (h : t.Shows root dir trail e) : ∃ front : Text, (∀ c ∈ front, c = '/') ∧
      knownAs root dir trail = front ++ (dir ++
        '/' :: Text.swap '\\' '/' (Text.joinWith '/' trail.reverse)) := by
  have hnames : trail.reverse ≠ [] := fun hnil => h.ne_nil (List.reverse_eq_nil_iff.mp hnil)
  have htext : Text.joinWith '/' (Path.segmentsOf dir ++ trail.reverse) =
      dir ++ '/' :: Text.joinWith '/' trail.reverse := by
    rw [Text.joinWith_append hdir.segments_ne_nil hnames, hdir.joinWith]
  have hswap : Text.swap '\\' '/' (dir ++ '/' :: Text.joinWith '/' trail.reverse) =
      dir ++ '/' :: Text.swap '\\' '/' (Text.joinWith '/' trail.reverse) := by
    rw [Text.swap_append, Text.swap_eq_self '/' hback]
    rfl
  obtain ⟨front, hslashes, -, hknown⟩ := exists_projectRelative_append root
  refine ⟨front, hslashes, ?_⟩
  rw [knownAs, ← hswap, ← htext]
  refine hknown _ _ (h.leadsOn hdir.anchorOf) ?_
  rw [htext, hswap]
  exact hdir.startsWith_here _

/-- No entry below a directory is known by the text of the directory. -/
theorem knownAs_ne (hdir : ProjectPath.IsOrdinary dir) (h : t.Shows root dir trail e) :
    knownAs root dir trail ≠ dir := by
  intro heq
  by_cases hback : '\\' ∈ dir
  · exact ProjectPath.not_mem_relative _ _ (heq ▸ hback)
  · -- the text of the directory is part of the text of the entry, and shorter
    obtain ⟨front, -, hknown⟩ := exists_knownAs_append hdir hback h
    have hlength := congrArg List.length (heq.symm.trans hknown)
    simp only [List.length_append, List.length_cons] at hlength
    omega

end Found

/-! ## What a pass finds -/

/-- All findings but a directory, an upper bound for what does not contribute it. -/
def Findings.without (dir : Text) : Findings := (Set.univ, {x | x ≠ dir})

namespace Pass.Terms

variable {k : Terms} {t : FileTree} {settings : Settings}

/-- Whether an index reports a file that is directly in a directory. -/
def ReportsFileIn (k : Terms) (t : FileTree) (settings : Settings) (listing : List Text)
    (dir : Text) : Prop :=
  ∃ path ∈ settings.reported listing, k.IsIndexFile t path ∧ Text.beforeLast? '/' path = some dir

/-- The scan adds no more than the entries do that it takes. -/
theorem supplemented_le_of_taken {known covered : List Text} {l : List (Path × Bool)}
    {c : Findings} (h : ∀ found ∈ l, k.taken t found ≤ c) :
    k.supplemented t known covered l ≤ c := by
  induction l generalizing covered with
  | nil => exact bot_le
  | cons found rest ih =>
    obtain ⟨hfound, hrest⟩ := List.forall_mem_cons.mp h
    rw [supplemented]
    split
    · exact ih hrest
    · exact sup_le hfound (ih hrest)

/-- No entry below a directory contributes the directory. -/
theorem taken_le_without {dir : Text} {trail : Trail} {e : Entry}
    (hdir : ProjectPath.IsOrdinary dir) (h : t.Shows k.root dir trail e) :
    k.taken t ((k.root.resolve dir).extend trail.reverse, e.isDirectory) ≤ .without dir := by
  rw [← iSup_brought]
  refine iSup₂_le fun x hx => ?_
  obtain ⟨inner, d, hinner, rfl, -⟩ := (mem_brought_iff hdir.anchorOf h).mp hx
  refine ⟨Set.subset_univ _, ?_⟩
  rw [entry]
  split
  · rintro _ ⟨-, rfl⟩
    exact knownAs_ne hdir hinner
  · exact Set.empty_subset _

/-- The supplemental scan of a directory does not contribute the directory. -/
theorem primaryRoot_le_without {dir : Text} (hdir : ProjectPath.IsOrdinary dir)
    (known : List Text) : k.primaryRoot t (k.root.resolve dir) known ≤ .without dir := by
  rw [primaryRoot]
  split
  · next hdirectory =>
    refine supplemented_le_of_taken fun found hfound => ?_
    obtain ⟨trail, e, hshows, -, rfl⟩ := (FileTree.mem_walkSkipping_iff hdirectory).mp hfound
    exact taken_le_without hdir hshows
  · exact bot_le

/-- A reported path contributes the primary root if it is taken for a file that is directly in it
and the primary root is ignored. -/
theorem mem_indexEntry_iff {listing : List Text} {path : Text} (hne : settings.primaryRoot ≠ [])
    (h : path ∈ settings.reported listing) :
    settings.primaryRoot ∈ (k.indexEntry t path).2 ↔
      Rule.ignoresDirectory k.rules settings.primaryRoot = true ∧ k.IsIndexFile t path ∧
        Text.beforeLast? '/' path = some settings.primaryRoot := by
  obtain ⟨hpath, hstart⟩ := List.mem_filter.mp h
  obtain ⟨raw, -, hraw⟩ := List.mem_map.mp hpath
  have hform : ProjectPath.directoryForm path = path := by
    rw [← hraw, ProjectPath.directoryForm_directoryForm]
  have hlength := (List.isPrefixOf_iff_prefix.mp hstart).length_le
  rw [List.length_append, List.length_singleton] at hlength
  have hself : path ≠ settings.primaryRoot := by
    intro heq
    rw [heq] at hlength
    omega
  have hpathNe : path ≠ [] := by
    rintro rfl
    exact absurd hlength (by simp)
  simp only [indexEntry, hform, if_neg hpathNe]
  -- a file brings its directory along, and a directory is not the one that it lies below
  split
  · next hfile =>
    rw [hform] at hfile
    constructor
    · rintro (hx | ⟨hlast, -, hignored⟩)
      · exact absurd hx (Set.notMem_empty _)
      · exact ⟨hignored, hfile, hlast⟩
    · rintro ⟨hignored, -, hlast⟩
      exact .inr ⟨hlast, hne, hignored⟩
  · next hfile =>
    rw [hform] at hfile
    constructor
    · rintro ⟨-, hx⟩
      exact absurd hx.symm hself
    · rintro ⟨-, hno, -⟩
      exact absurd hno hfile

/-- Before the completion, a pass finds the primary root if it is ignored and a file is reported
directly in it. -/
theorem mem_gathered_primaryRoot_iff (hroot : k.root = settings.projectRoot)
    (hprimary : ProjectPath.IsOrdinary settings.primaryRoot) (hextra : settings.extraRoots = [])
    (listing : List Text) : settings.primaryRoot ∈ (k.gathered t settings listing).2 ↔
      Rule.ignoresDirectory k.rules settings.primaryRoot = true ∧
        k.ReportsFileIn t settings listing settings.primaryRoot := by
  have haccepted : settings.acceptedExtraRoots.1 = [] := by
    rw [Settings.acceptedExtraRoots, hextra]
    rfl
  -- the scan contributes other directories only
  have hscan : settings.primaryRoot ∉ (k.primaryRoot t settings.primaryRootPath
      (listing.map ProjectPath.directoryForm)).2 := by
    rw [Settings.primaryRootPath, ← hroot]
    exact fun h => (primaryRoot_le_without hprimary _).2 h rfl
  rw [gathered, haccepted]
  constructor
  · rintro ((h | h) | h)
    · obtain ⟨path, hpath, hmem⟩ := Findings.mem_iSup_snd.mp h
      obtain ⟨hignored, hfile⟩ := (mem_indexEntry_iff hprimary.ne_nil hpath).mp hmem
      exact ⟨hignored, path, hpath, hfile⟩
    · obtain ⟨name, hname, -⟩ := Findings.mem_iSup_snd.mp h
      exact absurd hname List.not_mem_nil
    · exact absurd h hscan
  · rintro ⟨hignored, path, hpath, hfile⟩
    refine .inl (.inl (Findings.mem_iSup_snd.mpr ⟨path, hpath, ?_⟩))
    exact (mem_indexEntry_iff hprimary.ne_nil hpath).mpr ⟨hignored, hfile⟩

end Pass.Terms

/-! ## When it is collected -/

/-- A collection holds a path that lies below a directory. -/
def Collection.HoldsBelow (c : Collection) (dir path : Text) : Prop :=
  (path ∈ c.files ∨ path ∈ c.dirs) ∧ dir ∈ ProjectPath.ancestors path

/-- **How the primary root is collected.** In any file tree, by any rules and with any ending of
sidecars, over a given listing or the default index, and without extra roots: the primary root, if
it is written in ordinary segments, is collected only if it is ignored, and only if a file is
reported directly in it or something below it is collected. If it is ignored, either of the two is
enough, unless what is below it is the sidecar of a path that its own text begins with and that the
ending of sidecars leads on from, through a slash. -/
theorem primaryRoot_through_contents (t : FileTree) (settings : Settings)
    (listing : Option (List Text)) (lines : List Text)
    (hprimary : ProjectPath.IsOrdinary settings.primaryRoot) (hextra : settings.extraRoots = []) :
    let c := collectOver t settings listing lines
    let rules := Rule.ofLines lines
    let primary := settings.primaryRoot
    let reported := (settings.terms rules).ReportsFileIn t settings
      (listing.getD (defaultListing t settings)) primary
    (primary ∈ c.dirs → Rule.ignoresDirectory rules primary = true ∧
      (reported ∨ ∃ path, c.HoldsBelow primary path)) ∧
    (Rule.ignoresDirectory rules primary = true → reported → primary ∈ c.dirs) ∧
    (Rule.ignoresDirectory rules primary = true → ∀ path, c.HoldsBelow primary path →
      primary ∈ c.dirs ∨ '/' ∈ settings.sidecarSuffix ∧ ∃ a, a <+: primary ∧ a ≠ primary ∧
        path = a ++ settings.sidecarSuffix) := by
  intro c rules primary reported
  let k := settings.terms rules
  let gathered := k.gathered t settings (listing.getD (defaultListing t settings))
  obtain ⟨hfiles, hdirs⟩ := collectOver_spec t settings listing lines
  have hgathered : primary ∈ gathered.2 ↔ Rule.ignoresDirectory rules primary = true ∧ reported :=
    Pass.Terms.mem_gathered_primaryRoot_iff rfl hprimary hextra _
  have hcollected : primary ∈ c.dirs ↔ (Rule.ignoresDirectory rules primary = true ∧ reported) ∨
      primary ∈ gathered.above ∧ Rule.ignoresDirectory rules primary = true := by
    rw [hdirs, Findings.completed_eq]
    exact or_congr_left hgathered
  refine ⟨fun h => ?_, fun hignored hreported => hcollected.mpr (.inl ⟨hignored, hreported⟩),
    fun hignored path hpath => ?_⟩
  · rcases hcollected.mp h with ⟨hignored, hreported⟩ | ⟨⟨path, hpath, habove⟩, hignored⟩
    · exact ⟨hignored, .inl hreported⟩
    · -- the completion keeps what was found
      have hle : gathered ≤ gathered.completed k t := Findings.le_completed k t gathered
      refine ⟨hignored, .inr ⟨path, ?_, habove⟩⟩
      exact hpath.imp (fun hx => (hfiles path).mpr (hle.1 hx)) fun hx => (hdirs path).mpr (hle.2 hx)
  · have hfound : path ∈ (gathered.completed k t).1 ∨ path ∈ (gathered.completed k t).2 :=
      hpath.1.imp (hfiles path).mp (hdirs path).mp
    rcases Findings.mem_above_or_of_completed hfound hpath.2 with habove | hsidecar
    · exact .inl (hcollected.mpr (.inr ⟨habove, hignored⟩))
    · exact .inr hsidecar

/-- A reported log brings the directory along that it is in, and is collected with it. -/
theorem primaryRoot_through_log :
    let settings := Settings.initial (.ofText ['/'])
    let c := collectOver scatteredLogs settings (some ["Assets/x.log".toList]) ["Assets/".toList]
    ProjectPath.IsOrdinary settings.primaryRoot ∧ settings.extraRoots = [] ∧
      c.HoldsBelow settings.primaryRoot "Assets/x.log".toList ∧ settings.primaryRoot ∈ c.dirs := by
  intro settings c
  have hprimary : ProjectPath.IsOrdinary settings.primaryRoot := by
    unfold ProjectPath.IsOrdinary
    decide
  have hbelow : c.HoldsBelow settings.primaryRoot "Assets/x.log".toList :=
    ⟨.inl (by decide +kernel), by decide +kernel⟩
  have hsuffix : '/' ∉ settings.sidecarSuffix := by decide
  obtain ⟨-, -, hjoins⟩ := primaryRoot_through_contents scatteredLogs settings
    (some ["Assets/x.log".toList]) ["Assets/".toList] hprimary rfl
  exact ⟨hprimary, rfl, hbelow,
    (hjoins (by decide +kernel) _ hbelow).resolve_right fun h => hsuffix h.1⟩

/-- A rule that describes a directory and nothing in it: the primary root is collected, and nothing
else is. -/
theorem primaryRoot_without_contents :
    let settings := Settings.initial (.ofText ['/'])
    let lines := ["Assets".toList]
    let c := collectOver scatteredLogs settings none lines
    c = ⟨[], ["Assets".toList]⟩ ∧
      ¬ (settings.primaryRoot ∈ c.dirs ↔
        Rule.ignoresDirectory (Rule.ofLines lines) settings.primaryRoot = true ∧
          ∃ path, c.HoldsBelow settings.primaryRoot path) := by
  intro settings lines c
  have hlisting : defaultListing scatteredLogs settings =
      ["Assets".toList, "Assets/x.log".toList] :=
    Settings.defaultListing_of_pairwise (by decide) (by decide +kernel) (by decide)
  have hc : c = ⟨[], ["Assets".toList]⟩ := by
    show collect scatteredLogs settings (some (.ofLines lines)) = _
    rw [collect, hlisting]
    decide +kernel
  refine ⟨hc, fun h => ?_⟩
  have hmem : settings.primaryRoot ∈ c.dirs := by
    rw [hc]
    exact List.mem_cons_self
  obtain ⟨-, path, hpath, habove⟩ := h.mp hmem
  rw [hc] at hpath
  rcases hpath with hpath | hpath
  · exact List.not_mem_nil hpath
  · rw [List.mem_singleton.mp hpath] at habove
    exact absurd habove (by decide)

end IgnoredPaths
