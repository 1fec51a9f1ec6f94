import IgnoredPaths.Path

/-!
# Settings of a project

- `Settings`: where a project is, which rules hold in it, what is collected and where it goes.
- `Settings.initial`: the settings of a project that configures nothing.
-/

namespace IgnoredPaths

/-- The name of the rule file of a project that names none. -/
def defaultRulesFile : Text := ".gitignore".toList

/-- The primary root of a project that names none. -/
def defaultPrimaryRoot : Text := "Assets".toList

/-- The ending of sidecar files in a project that names none. -/
def defaultSidecarSuffix : Text := ".meta".toList

/-- The name of the export folder of a project that names none. -/
def defaultOutputName : Text := "gitignore".toList

/-- Where a project is and what is to be done with it. -/
structure Settings where
  /-- The directory that collected paths are relative to. -/
  projectRoot : Path
  /-- The file that holds the ignore rules. -/
  rulesFile : Path
  /-- The directory whose entries an index reports. -/
  primaryRoot : Text
  /-- Further directories to be walked, as they were written. -/
  extraRoots : List Text
  /-- The ending that turns a path into that of its sidecar file. -/
  sidecarSuffix : Text
  /-- The directory that receives exports, if it is not the project root. -/
  outputParent : Option Path
  /-- The name of the export folder. -/
  outputName : Text
  deriving DecidableEq

namespace Settings

/-- The settings of a project that configures nothing. -/
def initial (root : Path) : Settings where
  projectRoot := root
  rulesFile := root.resolve defaultRulesFile
  primaryRoot := defaultPrimaryRoot
  extraRoots := []
  sidecarSuffix := defaultSidecarSuffix
  outputParent := none
  outputName := defaultOutputName

/-- The path of the primary root. -/
def primaryRootPath (s : Settings) : Path := s.projectRoot.resolve s.primaryRoot

/-- The directory that receives exports. -/
def exportParent (s : Settings) : Path := s.outputParent.getD s.projectRoot

end Settings

end IgnoredPaths
