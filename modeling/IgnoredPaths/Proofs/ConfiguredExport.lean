import IgnoredPaths.Config.Source
import IgnoredPaths.Proofs.Ordinary

/-!
# The export of a configured project

The texts of a configuration become roots, roots become paths that are walked, what is found
becomes texts again, and these are joined to the folder of the export. An extra root that leads
out of the project is refused on the way. A primary root that does is not, and then the export
writes over the files of the project.

- `Config.anchorOf_trimRoot`: a primary root is relative, however it is written.
- `exportProject_keeps`: what an export can change, if the primary root stays inside the project.
- `exportProject_overwrites`: what it does to a project whose primary root lies beside it.
-/

namespace IgnoredPaths

/-- The export of a project: what is collected over its default index and the lines of its rule
file, if there is one, goes where the settings say. -/
def exportProject (t : FileTree) (settings : Settings) (rules : Option (List Text)) : ExportRun :=
  exportCollection t (collect t settings (rules.map Matcher.ofLines)) settings.projectRoot
    settings.exportParent settings.outputName false

/-- A trimmed root does not begin with a slash. -/
theorem Config.anchorOf_trimRoot (s : Text) : Path.anchorOf (trimRoot s) = .relative := by
  refine Path.anchorOf_eq_relative fun c hc => ?_
  rintro rfl
  exact absurd (Text.head?_trim hc) (by decide)

/-- What a configuration makes of the root of a project and of its primary root. -/
theorem configuredSettings_eq_ok {t : FileTree} {dir : Path} {config : Config}
    {settings : Settings} (h : configuredSettings t dir config = .ok settings) :
    settings.projectRoot.anchor = .root ∧ Path.anchorOf settings.primaryRoot = .relative := by
  rw [configuredSettings] at h
  cases hcanonical : t.canonical dir with
  | error e =>
    rw [hcanonical] at h
    cases h
  | ok root =>
    rw [hcanonical] at h
    cases h
    exact ⟨FileTree.anchor_of_canonical hcanonical, Config.anchorOf_trimRoot _⟩

/-- **The export of a configured project only adds a folder.** If no segment of the primary root
leads up, the ending of sidecars holds no slash and no name in the tree holds a backslash, then an
export under any checked configuration and any rules, successful or given up, keeps every entry
that was there. What is new lies at or below the folder that it has chosen. -/
theorem exportProject_keeps (t : FileTree) (dir : Path) (config : Config) (settings : Settings)
    (rules : Option (List Text)) (hsettings : configuredSettings t dir config = .ok settings)
    (hprimary : upSegment ∉ Path.segmentsOf settings.primaryRoot)
    (hsuffix : '/' ∉ settings.sidecarSuffix) (hback : t.NoBackslash) :
    let after := (exportProject t settings rules).tree
    (∀ l e, t.get? l = some e → after.get? l = some e) ∧
    ∀ l e, after.get? l = some e → t.get? l = none → ∃ destination folder,
      freeFolder t (settings.exportParent.resolve settings.outputName) = .ok destination ∧
        after.stat destination = .ok (folder, .directory) ∧ folder <:+ l := by
  intro after
  obtain ⟨hroot, hrelative⟩ := configuredSettings_eq_ok hsettings
  have hsound : ∀ m ∈ rules.map Matcher.ofLines, m.Sound := by
    intro m hm
    obtain ⟨lines, -, rfl⟩ := Option.mem_map.mp hm
    exact Matcher.sound_ofLines lines
  let call : ExportCall := ⟨collect t settings (rules.map Matcher.ofLines), settings.projectRoot,
    settings.exportParent, settings.outputName, false⟩
  have hinside : call.collection.StaysInside := fun path hpath =>
    (isOrdinary_of_mem_collect hsound hback hroot ⟨hrelative, hprimary⟩ hsuffix hpath).staysInside
  exact ⟨fun l e he => call.kept hinside he, fun l e he hnew => call.below_of_new hinside he hnew⟩

/-- A file in a directory of the project `/p`, and one in a directory beside the project that has
the same name. -/
def twoLogs : FileTree :=
  ((((FileTree.empty.insert [] ['p'] .directory).insert [['p']] "other".toList .directory).insert
    ["other".toList, ['p']] "x.log".toList (.file .empty 1)).insert [] "other".toList
      .directory).insert ["other".toList] "x.log".toList (.file .empty 2)

/-- A configuration that names a primary root only. -/
def rootedConfig (primaryRoot : Text) : Value :=
  .mapping [(.text "version".toList, .int 1),
    (.text "export".toList, .mapping [(.text "primary_root".toList, .text primaryRoot)])]

theorem twoLogs_noBackslash : twoLogs.NoBackslash := FileTree.noBackslash_of_entries (by decide)

/-- A primary root inside the project. -/
theorem exportProject_keeps_twoLogs : ∃ config settings,
    Config.ofValue? (rootedConfig "other".toList) = .ok config ∧
    configuredSettings twoLogs (.ofText "/p".toList) config = .ok settings ∧
    upSegment ∉ Path.segmentsOf settings.primaryRoot ∧ '/' ∉ settings.sidecarSuffix ∧
    (exportProject twoLogs settings (some ["*.log".toList])).tree.get?
      ["x.log".toList, "other".toList, ['p']] = some (.file .empty 1) := by
  refine ⟨_, _, rfl, rfl, by decide, by decide, ?_⟩
  exact (exportProject_keeps twoLogs (.ofText "/p".toList) _ _ (some ["*.log".toList]) rfl
    (by decide) (by decide) twoLogs_noBackslash).1 _ _ (by decide)

/-- The settings that a primary root beside the project makes. -/
def besideSettings : Settings :=
  .ofConfig (.ofText "/p".toList)
    { Config.silent .null with primaryRoot := some "../other".toList }

theorem defaultListing_beside :
    defaultListing twoLogs besideSettings = ["../other".toList, "../other/x.log".toList] :=
  Settings.defaultListing_of_pairwise (by decide) (by decide +kernel) (by decide)

theorem collect_beside :
    collect twoLogs besideSettings (some (.ofLines ["*.log".toList])) =
      ⟨["../other/x.log".toList], []⟩ := by
  rw [collect, defaultListing_beside]
  decide +kernel

/-- Where a checked configuration names a primary root beside the project, what is collected
leads out of the folder of the export again, and the export writes over a file of the project. -/
theorem exportProject_overwrites : ∃ config settings,
    Config.ofValue? (rootedConfig "../other".toList) = .ok config ∧
    configuredSettings twoLogs (.ofText "/p".toList) config = .ok settings ∧
    ¬ ∀ l e, twoLogs.get? l = some e →
      (exportProject twoLogs settings (some ["*.log".toList])).tree.get? l = some e := by
  refine ⟨_, besideSettings, rfl, rfl, fun hkept => ?_⟩
  have hfile := hkept ["x.log".toList, "other".toList, ['p']] (.file .empty 1) (by decide)
  rw [exportProject, Option.map_some, collect_beside] at hfile
  revert hfile
  decide

end IgnoredPaths
