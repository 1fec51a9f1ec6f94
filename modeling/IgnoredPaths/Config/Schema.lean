import IgnoredPaths.Config.Value
import IgnoredPaths.Roots

/-!
# What a configuration may say

A configuration is a mapping with the version 1 and, if it likes, a section about the export.
Every key of that section has a default, so the section may be left out or be empty, but what
it does say must be of the right shape.

- `Config`: a checked configuration.
- `Config.ofValue?`: the check; of several faults it names the first one in reading order.
- `ConfigError.message`: what is said about a fault.
-/

namespace IgnoredPaths

/-- What is wrong with a configuration. -/
inductive ConfigError where
  /-- There is no configuration file. -/
  | missing
  /-- The file does not hold a document. -/
  | malformed (reason : Text)
  /-- The document is empty. -/
  | empty
  | notMapping
  | noVersion
  | version (v : Value)
  | sectionNotMapping
  /-- A key of the section does not hold a text that says something. -/
  | blank (key : Text)
  | extraRootsNotList
  /-- An item of the extra roots is not a text. -/
  | extraRootNotText (i : Nat)
  | primaryRootIsProject
  | outputName (e : NameError)

/-- The name of a configuration file. -/
def configFileName : Text := ".ignored-export.yaml".toList

/-- What is said about a wrong configuration. -/
def ConfigError.message : ConfigError → Text
  | .missing => "No ".toList ++ configFileName ++ " found".toList
  | .malformed reason => "Invalid config: ".toList ++ reason
  | .empty => "Invalid config: empty file".toList
  | .notMapping => "Invalid config: expected mapping".toList
  | .noVersion => "Missing required field: version".toList
  | .version v => "Unsupported config version: ".toList ++ v.shown
  | .sectionNotMapping => "Invalid config: export must be a mapping".toList
  | .blank key =>
    "Invalid config: export.".toList ++ key ++ " must be a non-empty string".toList
  | .extraRootsNotList => "Invalid config: extra_roots must be a list".toList
  | .extraRootNotText i =>
    "Invalid extra_roots[".toList ++ Text.ofNat i ++ "]: must be a string".toList
  | .primaryRootIsProject => "Invalid config: primary_root cannot be the project root".toList
  | .outputName e => "Invalid config: ".toList ++ e.message

/-- A checked configuration: the value it was read from and what its section says. -/
structure Config where
  source : Value
  rules : Option Text
  primaryRoot : Option Text
  sidecarSuffix : Option Text
  outputParent : Option Text
  outputName : Option Text
  extraRoots : Option (List Text)

namespace Config

/-- A configuration that leaves everything to the defaults. -/
def silent (source : Value) : Config := ⟨source, none, none, none, none, none, none⟩

/-- The text under a key of the section, if the key is there. -/
def textField (entries : List (Value × Value)) (key : Text) : Except ConfigError (Option Text) :=
  match Value.field? key entries with
  | none => .ok none
  | some (.text s) => if Text.strip s = [] then .error (.blank key) else .ok (some s)
  | some _ => .error (.blank key)

/-- The texts in a list whose first item has the index `i`. -/
def textItems : Nat → List Value → Except ConfigError (List Text)
  | _, [] => .ok []
  | i, .text s :: rest => (textItems (i + 1) rest).map (s :: ·)
  | i, _ :: _ => .error (.extraRootNotText i)

/-- The extra roots, if there is a list of them. -/
def extraRootsField (entries : List (Value × Value)) : Except ConfigError (Option (List Text)) :=
  match Value.field? "extra_roots".toList entries with
  | none => .ok none
  | some (.list items) => (textItems 0 items).map some
  | some _ => .error .extraRootsNotList

/-- A root without the slashes and spaces around it. -/
def trimRoot (s : Text) : Text := Text.trim (fun c => c = '/' || c = '\\' || c = ' ') s

/-- Checks that the primary root is not the project root. -/
def checkPrimaryRoot : Option Text → Except ConfigError Unit
  | none => .ok ()
  | some s => if trimRoot s = [] then .error .primaryRootIsProject else .ok ()

/-- Checks the name of the export folder. -/
def checkOutputName : Option Text → Except ConfigError Unit
  | none => .ok ()
  | some s =>
    match checkFolderName s with
    | .error e => .error (.outputName e)
    | .ok () => .ok ()

/-- The configuration that a section makes. -/
def ofSection (source : Value) (entries : List (Value × Value)) : Except ConfigError Config := do
  let rules ← textField entries "rules".toList
  let primaryRoot ← textField entries "primary_root".toList
  let sidecarSuffix ← textField entries "sidecar_suffix".toList
  let outputParent ← textField entries "output_parent".toList
  let outputName ← textField entries "output_name".toList
  let extraRoots ← extraRootsField entries
  checkPrimaryRoot primaryRoot
  checkOutputName outputName
  return ⟨source, rules, primaryRoot, sidecarSuffix, outputParent, outputName, extraRoots⟩

/-- Whether a value is the version that is understood. -/
def isVersion (v : Value) : Bool := v.whole? = some 1

/-- The configuration that a value makes. -/
def ofValue? (v : Value) : Except ConfigError Config :=
  match v with
  | .mapping entries =>
    match Value.field? "version".toList entries with
    | none => .error .noVersion
    | some version =>
      if !isVersion version then .error (.version version)
      else
        match Value.field? "export".toList entries with
        | none => .ok (silent v)
        | some .null => .ok (silent v)
        | some (.mapping entries) => ofSection v entries
        | some _ => .error .sectionNotMapping
  | _ => .error .notMapping

end Config

end IgnoredPaths
