import IgnoredPaths.Config.Schema
import IgnoredPaths.FileTree.Canonical
import IgnoredPaths.Host
import IgnoredPaths.RuleFile
import IgnoredPaths.Settings

/-!
# The configuration of a project

The nearest configuration file in a directory or above it says where the project is and what
holds in it. Without one, the directory is a project that configures nothing.

- `findConfig?`: the nearest configuration file.
- `loadConfig`: the configuration in a file.
- `Settings.ofConfig`: the settings that a configuration makes.
- `resolveSettings`: the settings of the project that a directory is in.
-/

namespace IgnoredPaths

/-- Why there are no settings. -/
inductive SetupError where
  /-- The configuration is wrong. -/
  | config (e : ConfigError)
  /-- The configuration file cannot be read. -/
  | reading (e : ReadError)
  /-- The loader failed in a way of its own. -/
  | loading (name : Text)
  /-- The version that would have to be named is a value that cannot be written. -/
  | unwritable (v : Value)
  /-- A directory has no canonical path. -/
  | unresolvable (e : Unresolvable)
  /-- It cannot be told whether there is a configuration file. -/
  | unclear (f : Fault)

/-- The nearest configuration file in a directory or one of the `above` directories above it. -/
def findConfigUpTo (t : FileTree) : Nat → Path → Except Fault (Option Path)
  | above, dir =>
    let file := dir.resolve configFileName
    match t.exists? file with
    | .error f => .error f
    | .ok true => .ok (some file)
    | .ok false =>
      match above with
      | 0 => .ok none
      | above + 1 => findConfigUpTo t above dir.parent

/-- The nearest configuration file in a directory or above it. -/
def findConfig? (t : FileTree) (start : Path) : Except SetupError (Option Path) := do
  let dir ← (t.canonical start).mapError SetupError.unresolvable
  (findConfigUpTo t dir.segments.length dir).mapError SetupError.unclear

/-- The error that a wrong configuration means on a host. Only a version is named in the message
about it, and cannot be if it is not written. -/
def SetupError.ofConfig (host : Host) : ConfigError → SetupError
  | .version v => if host.writes v then .config (.version v) else .unwritable v
  | e => .config e

/-- The configuration in a file. -/
def loadConfig (host : Host) (t : FileTree) (file : Path) : Except SetupError Config := do
  let (content, _) ← (t.read file).mapError fun f => SetupError.reading (.fault f)
  match host.load content with
  | .error .encoding => throw (.reading .encoding)
  | .error (.malformed reason) => throw (.config (.malformed reason))
  | .error (.raised name) => throw (.loading name)
  | .ok .null => throw (.config .empty)
  | .ok v => (Config.ofValue? v).mapError (SetupError.ofConfig host)

namespace Settings

/-- The settings that a configuration makes in a directory. -/
def ofConfig (root : Path) (c : Config) : Settings where
  projectRoot := root
  rulesFile := root.resolve (c.rules.getD defaultRulesFile)
  primaryRoot := Config.trimRoot (c.primaryRoot.getD defaultPrimaryRoot)
  extraRoots := c.extraRoots.getD []
  sidecarSuffix := c.sidecarSuffix.getD defaultSidecarSuffix
  outputParent := c.outputParent.map root.resolve
  outputName := c.outputName.getD defaultOutputName

end Settings

/-- The settings that a configuration makes in the directory that a path leads to. -/
def configuredSettings (t : FileTree) (root : Path) (c : Config) : Except SetupError Settings :=
  ((t.canonical root).map fun root => .ofConfig root c).mapError SetupError.unresolvable

/-- The settings of a project without configuration in the directory that a path leads to. -/
def defaultSettings (t : FileTree) (root : Path) : Except SetupError Settings :=
  ((t.canonical root).map Settings.initial).mapError SetupError.unresolvable

/-- The settings of the project that a directory is in. -/
def resolveSettings (host : Host) (t : FileTree) (start : Path) : Except SetupError Settings := do
  match ← findConfig? t start with
  | none => defaultSettings t start
  | some file => configuredSettings t file.parent (← loadConfig host t file)

end IgnoredPaths
