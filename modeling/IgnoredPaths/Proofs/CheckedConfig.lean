import IgnoredPaths.Proofs.Arguments
import IgnoredPaths.Proofs.Canonical
import IgnoredPaths.Proofs.ConfiguredExport

/-!
# What the check of a configuration makes sure of

A configuration is a value of any shape until it is checked, and the check keeps what it has found
in the fields of a `Config`. Settings can also be read from the value itself, without the check, but
then every key may be missing or hold something that cannot be used. After the check nothing of this
kind can come up: what is read from the value are the settings of the `Config`.

A path that leads round in a circle has no settings under any configuration, but it does not lead to
a directory either.

- `Settings.read?`: settings from a value that may not have been checked.
- `Config.Checked`: what the check has seen in the section that a configuration comes from;
  `Config.checked_of_ofValue?` says that it has seen it.
- `Settings.read?_of_checked`: after the check, reading succeeds.
- `configuredSettings_cases`: which directories have settings.
- `checkedConfig_safe`: the settings of a checked configuration.
-/

namespace IgnoredPaths

/-! ## Reading without a check -/

namespace Value

/-- The entries of the section about the export, if there is a place for them: a section that is
left out or null has none. -/
def section? : Value → Option (List (Value × Value))
  | .mapping entries =>
    match field? "export".toList entries with
    | none | some .null => some []
    | some (.mapping entries) => some entries
    | some _ => none
  | _ => none

/-- The text of a value, if it is one. -/
def text? : Value → Option Text
  | .text s => some s
  | _ => none

/-- The texts of a value, if it is a list of them. -/
def texts? : Value → Option (List Text)
  | .list items => items.mapM text?
  | _ => none

/-- What is read under a key: nothing if it is left out, and there is no reading if it holds
something else. -/
def read? {α : Type} (read : Value → Option α) (entries : List (Value × Value)) (key : String) :
    Option (Option α) :=
  match field? key.toList entries with
  | none => some none
  | some v => (read v).map some

end Value

/-- The settings that a value makes in a directory, if each key that it has can be used. -/
def Settings.read? (root : Path) (v : Value) : Option Settings := do
  let entries ← v.section?
  let rules ← Value.read? Value.text? entries "rules"
  let primaryRoot ← Value.read? Value.text? entries "primary_root"
  let extraRoots ← Value.read? Value.texts? entries "extra_roots"
  let sidecarSuffix ← Value.read? Value.text? entries "sidecar_suffix"
  let outputParent ← Value.read? Value.text? entries "output_parent"
  let outputName ← Value.read? Value.text? entries "output_name"
  return {
    projectRoot := root
    rulesFile := root.resolve (rules.getD defaultRulesFile)
    primaryRoot := Config.trimRoot (primaryRoot.getD defaultPrimaryRoot)
    extraRoots := extraRoots.getD []
    sidecarSuffix := sidecarSuffix.getD defaultSidecarSuffix
    outputParent := outputParent.map root.resolve
    outputName := outputName.getD defaultOutputName }

/-! ## What the check has seen -/

namespace Config

/-- What the check has seen in the section that a configuration comes from. -/
structure Checked (c : Config) (entries : List (Value × Value)) : Prop where
  rules : Value.field? "rules".toList entries = c.rules.map .text
  primaryRoot : Value.field? "primary_root".toList entries = c.primaryRoot.map .text
  sidecarSuffix : Value.field? "sidecar_suffix".toList entries = c.sidecarSuffix.map .text
  outputParent : Value.field? "output_parent".toList entries = c.outputParent.map .text
  outputName : Value.field? "output_name".toList entries = c.outputName.map .text
  extraRoots : Value.field? "extra_roots".toList entries =
    c.extraRoots.map fun names => .list (names.map .text)
  suffix_says : ∀ s ∈ c.sidecarSuffix, Text.strip s ≠ []
  primaryRoot_says : ∀ s ∈ c.primaryRoot, trimRoot s ≠ []
  outputName_ok : ∀ s ∈ c.outputName, checkFolderName s = .ok ()

/-- A text that passes the check stands under the key as it is, and is not blank. -/
theorem textField_eq_ok {entries : List (Value × Value)} {key : Text} {field : Option Text}
    (h : textField entries key = .ok field) :
    Value.field? key entries = field.map .text ∧ ∀ s ∈ field, Text.strip s ≠ [] := by
  rw [textField] at h
  split at h
  · next habsent =>
    cases h
    exact ⟨habsent, nofun⟩
  · next s htext =>
    split at h
    · cases h
    · next hsays =>
      cases h
      exact ⟨htext, fun _ hs => Option.mem_some.mp hs ▸ hsays⟩
  · cases h

/-- Items that pass the check are texts. -/
theorem textItems_eq_ok {i : Nat} {items : List Value} {names : List Text}
    (h : textItems i items = .ok names) : items = names.map .text := by
  induction items generalizing i names with
  | nil =>
    cases h
    rfl
  | cons item rest ih =>
    cases item with
    | text s =>
      rw [textItems] at h
      cases hrest : textItems (i + 1) rest with
      | error e =>
        rw [hrest] at h
        cases h
      | ok more =>
        rw [hrest] at h
        cases h
        rw [List.map_cons, ← ih hrest]
    | _ => cases h

theorem extraRootsField_eq_ok {entries : List (Value × Value)} {field : Option (List Text)}
    (h : extraRootsField entries = .ok field) :
    Value.field? "extra_roots".toList entries =
      field.map fun names => .list (names.map .text) := by
  rw [extraRootsField] at h
  split at h
  · next habsent =>
    cases h
    exact habsent
  · next items hlist =>
    cases hitems : textItems 0 items with
    | error e =>
      rw [hitems] at h
      cases h
    | ok names =>
      rw [hitems] at h
      cases h
      rw [hlist, textItems_eq_ok hitems]
      rfl
  · cases h

theorem checkPrimaryRoot_eq_ok {field : Option Text} {u : Unit} (h : checkPrimaryRoot field = .ok u) :
    ∀ s ∈ field, trimRoot s ≠ [] := by
  rintro s rfl
  rw [checkPrimaryRoot] at h
  split at h
  · cases h
  · next hne => exact hne

theorem checkOutputName_eq_ok {field : Option Text} {u : Unit} (h : checkOutputName field = .ok u) :
    ∀ s ∈ field, checkFolderName s = .ok () := by
  rintro s rfl
  rw [checkOutputName] at h
  split at h
  · cases h
  · next hcheck => exact hcheck

/-- The check of a section sees each of its keys. -/
theorem checked_of_ofSection {v : Value} {entries : List (Value × Value)} {c : Config}
    (h : ofSection v entries = .ok c) : c.source = v ∧ c.Checked entries := by
  obtain ⟨rules, hrules, h⟩ := bind_eq_ok h
  obtain ⟨primaryRoot, hprimary, h⟩ := bind_eq_ok h
  obtain ⟨sidecarSuffix, hsuffix, h⟩ := bind_eq_ok h
  obtain ⟨outputParent, hparent, h⟩ := bind_eq_ok h
  obtain ⟨outputName, hname, h⟩ := bind_eq_ok h
  obtain ⟨extraRoots, hextra, h⟩ := bind_eq_ok h
  obtain ⟨_, hproject, h⟩ := bind_eq_ok h
  obtain ⟨_, hfolder, h⟩ := bind_eq_ok h
  cases h
  exact ⟨rfl, {
    rules := (textField_eq_ok hrules).1
    primaryRoot := (textField_eq_ok hprimary).1
    sidecarSuffix := (textField_eq_ok hsuffix).1
    outputParent := (textField_eq_ok hparent).1
    outputName := (textField_eq_ok hname).1
    extraRoots := extraRootsField_eq_ok hextra
    suffix_says := (textField_eq_ok hsuffix).2
    primaryRoot_says := checkPrimaryRoot_eq_ok hproject
    outputName_ok := checkOutputName_eq_ok hfolder }⟩

/-- A configuration without a section says nothing, as does one whose section is empty. -/
theorem checked_silent (v : Value) : (silent v).Checked [] where
  rules := rfl
  primaryRoot := rfl
  sidecarSuffix := rfl
  outputParent := rfl
  outputName := rfl
  extraRoots := rfl
  suffix_says := nofun
  primaryRoot_says := nofun
  outputName_ok := nofun

/-- A configuration is that of the value it was read from, and the check has seen its section. -/
theorem checked_of_ofValue? {v : Value} {c : Config} (h : ofValue? v = .ok c) :
    c.source = v ∧ ∃ entries, v.section? = some entries ∧ c.Checked entries := by
  cases v with
  | mapping all =>
    simp only [ofValue?] at h
    split at h
    · cases h
    · split at h
      · cases h
      · split at h
        · next habsent =>
          cases h
          exact ⟨rfl, [], by simp only [Value.section?, habsent], checked_silent _⟩
        · next hnull =>
          cases h
          exact ⟨rfl, [], by simp only [Value.section?, hnull], checked_silent _⟩
        · next entries hmapping =>
          obtain ⟨hsource, hchecked⟩ := checked_of_ofSection h
          exact ⟨hsource, entries, by simp only [Value.section?, hmapping], hchecked⟩
        · cases h
  | _ => cases h

/-! ## The settings -/

/-- What is trimmed of a root is no longer at its ends. -/
theorem ends_trimRoot (s : Text) {c : Char} (hc : c ∈ ['/', '\\', ' ']) :
    (trimRoot s).head? ≠ some c ∧ (trimRoot s).getLast? ≠ some c := by
  have hdropped : (decide (c = '/') || decide (c = '\\') || decide (c = ' ')) = true := by
    simp only [List.mem_cons, List.not_mem_nil, or_false] at hc
    rcases hc with rfl | rfl | rfl <;> decide
  constructor
  · intro hhead
    exact absurd (hdropped.symm.trans (Text.head?_trim hhead)) (by decide)
  · intro hlast
    exact absurd (hdropped.symm.trans (Text.getLast?_trimRight hlast)) (by decide)

section

variable {c : Config} {entries : List (Value × Value)} (h : c.Checked entries)

include h

theorem Checked.primaryRoot_ne_nil : trimRoot (c.primaryRoot.getD defaultPrimaryRoot) ≠ [] := by
  cases hfield : c.primaryRoot with
  | none => decide
  | some s => exact h.primaryRoot_says s hfield

theorem Checked.sidecarSuffix_says :
    Text.strip (c.sidecarSuffix.getD defaultSidecarSuffix) ≠ [] := by
  cases hfield : c.sidecarSuffix with
  | none => decide
  | some s => exact h.suffix_says s hfield

theorem Checked.folderName_ok : checkFolderName (c.outputName.getD defaultOutputName) = .ok () := by
  cases hfield : c.outputName with
  | none => rfl
  | some s => exact h.outputName_ok s hfield

end

end Config

namespace Value

theorem mapM_text? (names : List Text) : (names.map Value.text).mapM text? = some names := by
  induction names with
  | nil => rfl
  | cons name rest ih =>
    rw [List.map_cons, List.mapM_cons, ih]
    rfl

/-- A field that holds a value which can be read is read. -/
theorem read?_eq_some {α : Type} {read : Value → Option α} {write : α → Value}
    (hread : ∀ a, read (write a) = some a) {entries : List (Value × Value)} {key : String}
    {field : Option α} (h : field? key.toList entries = field.map write) :
    read? read entries key = some field := by
  rw [read?, h]
  cases field with
  | none => rfl
  | some a =>
    show (read (write a)).map some = some (some a)
    rw [hread]
    rfl

end Value

/-- After the check, the settings can be read from the value itself, and they are those of the
configuration. -/
theorem Settings.read?_of_checked {v : Value} {entries : List (Value × Value)} {c : Config}
    (hsection : v.section? = some entries) (h : c.Checked entries) (root : Path) :
    Settings.read? root v = some (.ofConfig root c) := by
  have htext : ∀ s, Value.text? (.text s) = some s := fun _ => rfl
  have htexts : ∀ names : List Text, Value.texts? (.list (names.map .text)) = some names :=
    Value.mapM_text?
  simp only [Settings.read?, hsection, Option.bind_eq_bind, Option.bind_some,
    Value.read?_eq_some htext h.rules, Value.read?_eq_some htext h.primaryRoot,
    Value.read?_eq_some htexts h.extraRoots, Value.read?_eq_some htext h.sidecarSuffix,
    Value.read?_eq_some htext h.outputParent, Value.read?_eq_some htext h.outputName]
  rfl

/-- A configuration makes settings of every path that has a canonical form, as directories have. -/
theorem configuredSettings_cases (c : Config) (t : FileTree) (dir : Path) :
    (∃ root, t.canonical dir = .ok root ∧ configuredSettings t dir c = .ok (.ofConfig root c)) ∨
      t.isDirectory dir = false ∧ ∃ e, t.canonical dir = .error e ∧
        configuredSettings t dir c = .error (.unresolvable e) := by
  rw [configuredSettings]
  -- the configuration itself has no part in whether there are settings
  cases hcanonical : t.canonical dir with
  | ok root => exact .inl ⟨root, rfl, rfl⟩
  | error e =>
    refine .inr ⟨Bool.eq_false_iff.mpr fun hdir => ?_, e, rfl, rfl⟩
    obtain ⟨l, hstat⟩ := FileTree.isDirectory_iff.mp hdir
    cases hcanonical.symm.trans (FileTree.canonical_of_stat hstat)

/-- No export is refused for the name of its folder if the name passes the check. -/
theorem exportCollection_ne_name {name : Text} (h : checkFolderName name = .ok ()) (t : FileTree)
    (collection : Collection) (root parent : Path) (dryRun : Bool) (e : NameError) :
    (exportCollection t collection root parent name dryRun).answer ≠ .error (.name e) := by
  intro hanswer
  cases hto : destinationOf t parent name with
  | error refusal =>
    rw [exportCollection_of_error hto] at hanswer
    obtain rfl := Except.error.inj hanswer
    rw [destinationOf, h] at hto
    simp only at hto
    split at hto
    · cases hto
    · cases hto
    · split at hto <;> cases hto
  | ok destination =>
    simp only [exportCollection, hto] at hanswer
    split at hanswer
    · cases hanswer
    · split at hanswer
      · -- a fault while the folder is filled is none of its name
        next f _ =>
        rw [writingError] at hanswer
        split at hanswer <;> cases hanswer
      · cases hanswer

/-- **A checked configuration makes settings.** Take any value, of whatever shape, that passes the
check.

- The configuration is that of the value as it is.
- To read the settings from the value itself, key by key, succeeds and gives the settings of the
  configuration.
- There are such settings for every path that has a canonical form, and every path to a directory
  has one. For other paths there are none, under this configuration as under any other.
- The primary root is not empty and has no slash of either kind and no space at its ends, the extra
  roots are those of the value in their order, or none if it names none, the ending of sidecars is
  not blank, and the name of the export folder passes its check.
- So no export, wherever it goes, is refused for this name. -/
theorem checkedConfig_safe {v : Value} {c : Config} (h : Config.ofValue? v = .ok c) :
    c.source = v ∧
    (∀ root, Settings.read? root v = some (.ofConfig root c)) ∧
    (∀ t dir, (∃ root, FileTree.canonical t dir = .ok root ∧
        configuredSettings t dir c = .ok (.ofConfig root c)) ∨
      t.isDirectory dir = false ∧ ∃ e, t.canonical dir = .error e ∧
        configuredSettings t dir c = .error (.unresolvable e)) ∧
    ∃ entries, v.section? = some entries ∧ ∀ root,
      let settings := Settings.ofConfig root c
      settings.primaryRoot ≠ [] ∧
      (∀ ch ∈ ['/', '\\', ' '],
        settings.primaryRoot.head? ≠ some ch ∧ settings.primaryRoot.getLast? ≠ some ch) ∧
      (Value.field? "extra_roots".toList entries = none ∧ settings.extraRoots = [] ∨
        Value.field? "extra_roots".toList entries =
          some (.list (settings.extraRoots.map .text))) ∧
      Text.strip settings.sidecarSuffix ≠ [] ∧
      checkFolderName settings.outputName = .ok () ∧
      ∀ t collection project parent dryRun e,
        (exportCollection t collection project parent settings.outputName dryRun).answer ≠
          .error (.name e) := by
  obtain ⟨hsource, entries, hsection, hchecked⟩ := Config.checked_of_ofValue? h
  refine ⟨hsource, fun root => Settings.read?_of_checked hsection hchecked root,
    configuredSettings_cases c, entries, hsection, fun root => ?_⟩
  · refine ⟨hchecked.primaryRoot_ne_nil, fun ch hch => Config.ends_trimRoot _ hch, ?_,
      hchecked.sidecarSuffix_says, hchecked.folderName_ok,
      exportCollection_ne_name hchecked.folderName_ok⟩
    -- no extra roots are read where the value has no such key
    have hextra := hchecked.extraRoots
    cases hroots : c.extraRoots with
    | none =>
      rw [hroots] at hextra
      exact .inl ⟨hextra, by rw [Settings.ofConfig, hroots]; rfl⟩
    | some names =>
      rw [hroots] at hextra
      exact .inr (by rw [hextra, Settings.ofConfig, hroots]; rfl)

/-- A configuration with a truth value for its version, a key that is no text, and slashes and blanks
around its roots. -/
def looseConfig : Value :=
  .mapping [(.text "version".toList, .bool true), (.null, .list []),
    (.text "export".toList, .mapping [(.int 3, .null),
      (.text "primary_root".toList, .text "/Content\\ ".toList),
      (.text "extra_roots".toList, .list [.text " Packages".toList, .text [], .text "..".toList])])]

theorem looseConfig_safe : ∃ c, Config.ofValue? looseConfig = .ok c ∧ c.source = looseConfig ∧
    ∀ root, ∃ settings, Settings.read? root looseConfig = some settings ∧
      settings.primaryRoot = "Content".toList ∧
      settings.extraRoots = [" Packages".toList, [], "..".toList] := by
  refine ⟨_, rfl, ?_⟩
  obtain ⟨hsource, hread, -⟩ := @checkedConfig_safe looseConfig _ rfl
  have htrim : Config.trimRoot "/Content\\ ".toList = "Content".toList := by decide
  exact ⟨hsource, fun root => ⟨_, hread root, htrim, rfl⟩⟩

end IgnoredPaths
