import IgnoredPaths.Proofs.ConfiguredExport
import IgnoredPaths.Proofs.OrderFree

/-!
# Spellings of the primary root

One primary root can be written in many ways, with `.` segments and doubled slashes. A collection
uses it in two ways. As a path it leads to a directory, to be listed and scanned, and there all
spellings are the same. As a text it is compared with what the index reports and with the names of
extra roots, and there they are not. In a tree without backslashes in names, whatever the index
reports is lost under every spelling but one.

- `ProjectPath.IsNormal`: the one spelling under which nothing is lost.
- `Settings.respelled`: settings with another spelling.
- `Settings.startPass_of_not_normal`: what is lost.
- `collect_respelled`: how collections under two spellings compare.
- `collect_respelled_ne`: a configuration under which they differ.
-/

namespace IgnoredPaths

/-- Whether a text is what its segments make, with one slash between them. -/
def ProjectPath.IsNormal (text : Text) : Prop := Text.joinWith '/' (Path.segmentsOf text) = text

instance (text : Text) : Decidable (ProjectPath.IsNormal text) :=
  inferInstanceAs (Decidable (_ = _))

namespace Settings

/-- The settings with the primary root written otherwise. -/
def respelled (settings : Settings) (primary : Text) : Settings :=
  { settings with primaryRoot := primary }

variable {t : FileTree} {settings : Settings} {primary : Text}

/-! ## The primary root as a path -/

theorem primaryRootPath_respelled (hrelative : Path.anchorOf settings.primaryRoot = .relative)
    (hrelative' : Path.anchorOf primary = .relative)
    (hsegments : Path.segmentsOf primary = Path.segmentsOf settings.primaryRoot) :
    (settings.respelled primary).primaryRootPath = settings.primaryRootPath := by
  obtain ⟨hanchor, hpath⟩ := settings.projectRoot.segments_resolve hrelative
  obtain ⟨hanchor', hpath'⟩ := settings.projectRoot.segments_resolve hrelative'
  refine Path.eq_of_segments (hanchor'.trans hanchor.symm) ?_
  rw [primaryRootPath, primaryRootPath, hpath, ← hsegments]
  exact hpath'

/-- The default index sees a path. -/
theorem defaultListing_respelled
    (hpath : (settings.respelled primary).primaryRootPath = settings.primaryRootPath) :
    defaultListing t (settings.respelled primary) = defaultListing t settings := by
  have hresolve : settings.projectRoot.resolve primary =
      settings.projectRoot.resolve settings.primaryRoot := hpath
  show scanPrimaryRoot t settings.projectRoot primary settings.sidecarSuffix =
    scanPrimaryRoot t settings.projectRoot settings.primaryRoot settings.sidecarSuffix
  simp only [scanPrimaryRoot, hresolve]

/-! ## The primary root as a text -/

/-- Extra roots are the same if the same raw names are taken for the primary root. -/
theorem acceptedExtraRoots_respelled
    (hextra : ∀ raw ∈ settings.extraRoots, Text.lower (cleanRootName raw) = Text.lower primary ↔
      Text.lower (cleanRootName raw) = Text.lower settings.primaryRoot) :
    (settings.respelled primary).acceptedExtraRoots = settings.acceptedExtraRoots := by
  show (settings.extraRoots.map some).foldl (addExtraRoot primary) ([], []) =
    (settings.extraRoots.map some).foldl (addExtraRoot settings.primaryRoot) ([], [])
  refine List.foldl_ext _ _ _ fun sofar raw hraw => ?_
  obtain ⟨raw, hmem, rfl⟩ := List.mem_map.mp hraw
  simp only [addExtraRoot, hextra raw hmem]

/-- What follows the reported entries is the same if the extra roots are. -/
theorem finishPass_respelled
    (hpath : (settings.respelled primary).primaryRootPath = settings.primaryRootPath)
    (hextra : (settings.respelled primary).acceptedExtraRoots = settings.acceptedExtraRoots)
    (listing : List Text) (p : Pass) :
    finishPass t (settings.respelled primary) listing p = finishPass t settings listing p := by
  rw [finishPass, finishPass, hpath, hextra]
  rfl

/-- The reported entries are taken alike if the primary root and a slash stand in front of the same
ones. -/
theorem startPass_respelled {listing : List Text}
    (h : ∀ path ∈ listing.map ProjectPath.directoryForm,
      Text.startsWith path (primary ++ ['/']) =
        Text.startsWith path (settings.primaryRoot ++ ['/'])) (m : Matcher) :
    startPass t (settings.respelled primary) m listing = startPass t settings m listing := by
  have hreported : (settings.respelled primary).reported listing = settings.reported listing :=
    List.filter_congr h
  show ((settings.respelled primary).reported listing).foldl _ _ =
    (settings.reported listing).foldl _ _
  rw [hreported]
  rfl

/-- No entry that the index reports is taken, unless the primary root is written normally. -/
theorem reported_of_not_normal (hback : t.NoBackslash)
    (hroot : settings.projectRoot.anchor = .root)
    (hrelative : Path.anchorOf settings.primaryRoot = .relative)
    (hnormal : ¬ ProjectPath.IsNormal settings.primaryRoot) :
    settings.reported (defaultListing t settings) = [] := by
  refine List.eq_nil_iff_forall_not_mem.mpr fun path hpath => hnormal ?_
  obtain ⟨trail, e, hshows, rfl⟩ := exists_shows_of_mem_reported hback hroot hrelative hpath
  have hstart := (List.mem_filter.mp hpath).2
  obtain ⟨hall, -⟩ :=
    segmentsOf_of_startsWith (ProjectPath.isSegment_descend hshows.isSegment) hstart
  rw [ProjectPath.IsNormal, hall, Text.joinWith_split]

theorem startPass_of_not_normal (hback : t.NoBackslash)
    (hroot : settings.projectRoot.anchor = .root)
    (hrelative : Path.anchorOf settings.primaryRoot = .relative)
    (hnormal : ¬ ProjectPath.IsNormal settings.primaryRoot) (m : Matcher) :
    startPass t settings m (defaultListing t settings) =
      Pass.new m settings.projectRoot settings.sidecarSuffix := by
  show (settings.reported (defaultListing t settings)).foldl _ _ = _
  rw [reported_of_not_normal hback hroot hrelative hnormal]
  rfl

end Settings

/-- Configurations that differ in the primary root alone make settings that do. -/
theorem configuredSettings_respelled {t : FileTree} {dir : Path} {config : Config} {source : Value}
    {primary : Option Text} {settings settings' : Settings}
    (h : configuredSettings t dir config = .ok settings)
    (h' : configuredSettings t dir { config with source := source, primaryRoot := primary } =
      .ok settings') : settings' = settings.respelled settings'.primaryRoot := by
  rw [configuredSettings] at h h'
  cases hcanonical : t.canonical dir with
  | error e =>
    rw [hcanonical] at h
    cases h
  | ok root =>
    rw [hcanonical] at h h'
    cases h
    cases h'
    rfl

/-- **Two spellings of the primary root.** Take two configurations that differ in the primary root
alone, in texts with the same segments, and that tell the same extra roots from the primary root.

- For any file tree the collections are equal if the two texts, with a slash behind them, begin the
  same entries among those that the index reports.
- If no name holds a backslash, a text that is not normal begins none of them: the collection is
  what the extra roots, the supplemental scan and the completion make of nothing.
- So if no name holds a backslash, the collections are equal under two texts of which both are
  normal or neither is. -/
theorem collect_respelled (t : FileTree) (dir : Path) (config : Config) (source : Value)
    (primary : Option Text) (settings settings' : Settings)
    (hsettings : configuredSettings t dir config = .ok settings)
    (hsettings' : configuredSettings t dir
      { config with source := source, primaryRoot := primary } = .ok settings')
    (hsegments : Path.segmentsOf settings'.primaryRoot = Path.segmentsOf settings.primaryRoot)
    (hextra : ∀ raw ∈ settings.extraRoots,
      Text.lower (cleanRootName raw) = Text.lower settings'.primaryRoot ↔
        Text.lower (cleanRootName raw) = Text.lower settings.primaryRoot) :
    ((∀ path ∈ (defaultListing t settings).map ProjectPath.directoryForm,
        Text.startsWith path (settings'.primaryRoot ++ ['/']) =
          Text.startsWith path (settings.primaryRoot ++ ['/'])) →
      ∀ m, collect t settings' m = collect t settings m) ∧
    (t.NoBackslash → ¬ ProjectPath.IsNormal settings'.primaryRoot →
      ∀ m, collect t settings' (some m) = (finishPass t settings (defaultListing t settings)
        (.new m settings.projectRoot settings.sidecarSuffix)).result) ∧
    (t.NoBackslash →
      (ProjectPath.IsNormal settings'.primaryRoot ↔ ProjectPath.IsNormal settings.primaryRoot) →
        ∀ m, collect t settings' m = collect t settings m) := by
  obtain ⟨hroot, hrelative⟩ := configuredSettings_eq_ok hsettings
  obtain ⟨hroot', hrelative'⟩ := configuredSettings_eq_ok hsettings'
  have hwords := configuredSettings_respelled hsettings hsettings'
  generalize settings'.primaryRoot = words at *
  subst hwords
  have hpath := Settings.primaryRootPath_respelled hrelative hrelative' hsegments
  have hlisting : defaultListing t (settings.respelled words) = _ :=
    Settings.defaultListing_respelled hpath
  have hfinish : ∀ listing p, finishPass t (settings.respelled words) listing p = _ :=
    Settings.finishPass_respelled hpath (Settings.acceptedExtraRoots_respelled hextra)
  have hlost : t.NoBackslash → ¬ ProjectPath.IsNormal words →
      ∀ m, collect t (settings.respelled words) (some m) =
        (finishPass t settings (defaultListing t settings)
          (.new m settings.projectRoot settings.sidecarSuffix)).result := by
    intro hback hnormal m
    have hstart : startPass t (settings.respelled words) m _ = _ :=
      Settings.startPass_of_not_normal hback hroot' hrelative' hnormal m
    rw [collect, collectListing, hstart, hlisting, hfinish]
    rfl
  refine ⟨fun hbegin m => ?_, hlost, fun hback hiff m => ?_⟩
  · cases m with
    | none => rfl
    | some m =>
      rw [collect, collect, collectListing, collectListing, hlisting, hfinish,
        Settings.startPass_respelled hbegin]
  · by_cases hnormal : ProjectPath.IsNormal words
    · -- two normal texts with the same segments are the same text
      have hsame : words = settings.primaryRoot := by
        rw [← hnormal, hsegments]
        exact hiff.mp hnormal
      subst hsame
      rfl
    · cases m with
      | none => rfl
      | some m =>
        have hstart : startPass t settings m _ = _ :=
          Settings.startPass_of_not_normal hback hroot hrelative (mt hiff.mpr hnormal) m
        rw [hlost hback hnormal m, collect, collectListing, hstart]

/-- Two spellings under which the log below the primary root is lost. -/
theorem scatteredLogs_respelled :
    let root := Path.ofText ['/']
    let config : Config := { Config.silent .null with
      primaryRoot := some "./Assets".toList, extraRoots := some ["Packages".toList] }
    let other := { config with source := .null, primaryRoot := some "Assets//.".toList }
    let settings := Settings.ofConfig root config
    let settings' := Settings.ofConfig root other
    configuredSettings scatteredLogs root config = .ok settings ∧
    configuredSettings scatteredLogs root other = .ok settings' ∧
    Path.segmentsOf settings'.primaryRoot = Path.segmentsOf settings.primaryRoot ∧
    (∀ raw ∈ settings.extraRoots,
      Text.lower (cleanRootName raw) = Text.lower settings'.primaryRoot ↔
        Text.lower (cleanRootName raw) = Text.lower settings.primaryRoot) ∧
    collect scatteredLogs settings' (some (.ofLines ["*.log".toList])) =
      collect scatteredLogs settings (some (.ofLines ["*.log".toList])) := by
  intro root config other settings settings'
  have hsegments : Path.segmentsOf settings'.primaryRoot =
    Path.segmentsOf settings.primaryRoot := by decide
  have hextra : ∀ raw ∈ settings.extraRoots,
      Text.lower (cleanRootName raw) = Text.lower settings'.primaryRoot ↔
        Text.lower (cleanRootName raw) = Text.lower settings.primaryRoot := by decide +kernel
  have hback : scatteredLogs.NoBackslash := FileTree.noBackslash_of_entries (by decide)
  exact ⟨rfl, rfl, hsegments, hextra,
    (collect_respelled scatteredLogs root config .null (some "Assets//.".toList) settings settings'
      rfl rfl hsegments hextra).2.2 hback (by decide) _⟩

/-- The settings of a configuration that names a primary root only. -/
def rootedSettings (primary : Text) : Settings :=
  .ofConfig (.ofText ['/'])
    { Config.silent (rootedConfig primary) with primaryRoot := some primary }

theorem defaultListing_rootedSettings :
    defaultListing scatteredLogs (rootedSettings "Assets".toList) =
      ["Assets".toList, "Assets/x.log".toList] :=
  Settings.defaultListing_of_pairwise (by decide) (by decide +kernel) (by decide)

/-- Two checked configurations that differ in the spelling of the primary root alone, and a log
that is collected under one of them and lost under the other. -/
theorem collect_respelled_ne : ∃ config settings settings',
    Config.ofValue? (rootedConfig "Assets".toList) = .ok config ∧
    Config.ofValue? (rootedConfig "./Assets".toList) = .ok { config with
      source := rootedConfig "./Assets".toList, primaryRoot := some "./Assets".toList } ∧
    configuredSettings scatteredLogs (.ofText ['/']) config = .ok settings ∧
    configuredSettings scatteredLogs (.ofText ['/']) { config with
      source := rootedConfig "./Assets".toList, primaryRoot := some "./Assets".toList } =
        .ok settings' ∧
    Path.segmentsOf settings.primaryRoot = ["Assets".toList] ∧
    Path.segmentsOf settings'.primaryRoot = ["Assets".toList] ∧
    (collect scatteredLogs settings (some (.ofLines ["*.log".toList]))).files =
      ["Assets/x.log".toList] ∧
    (collect scatteredLogs settings' (some (.ofLines ["*.log".toList]))).files = [] := by
  refine ⟨_, rootedSettings "Assets".toList, rootedSettings "./Assets".toList, rfl, rfl, rfl, rfl,
    by decide, by decide, ?_, ?_⟩
  · rw [collect, defaultListing_rootedSettings]
    decide +kernel
  · have hlisting : defaultListing scatteredLogs (rootedSettings "./Assets".toList) = _ :=
      @Settings.defaultListing_respelled scatteredLogs (rootedSettings "Assets".toList)
        "./Assets".toList (by decide)
    rw [collect, hlisting, defaultListing_rootedSettings]
    decide +kernel

end IgnoredPaths
