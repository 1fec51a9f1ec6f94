import IgnoredPaths.Proofs.Completion

/-!
# What a whole pass finds

The whole pass joins the contributions of the reported entries, of the extra roots and of what
the index left out, and completes them.

- `Pass.Terms.gathered`: the contributions before the completion.
- `collectListing_spec`: what the whole pass finds over a listing.
-/

namespace IgnoredPaths

variable (t : FileTree) (settings : Settings)

/-- What a pass under some settings judges by. -/
def Settings.terms (rules : List Rule) : Pass.Terms :=
  ⟨rules, settings.projectRoot, settings.sidecarSuffix⟩

/-- The reported entries that lie below the primary root. -/
def Settings.reported (listing : List Text) : List Text :=
  (listing.map ProjectPath.directoryForm).filter fun path =>
    Text.startsWith path (settings.primaryRoot ++ ['/'])

namespace Pass.Terms

variable (k : Pass.Terms)

/-- What an extra root contributes. -/
def extraRoot (name : Text) : Findings :=
  if t.isDirectory (k.root.resolve name) then k.below t (k.root.resolve name) else ⊥

/-- What the supplemental scan of the primary root contributes. -/
def primaryRoot (primary : Path) (known : List Text) : Findings :=
  if t.isDirectory primary then k.supplemented t known [] (t.walk primary) else ⊥

/-- What a whole pass gathers over a listing before it is completed. -/
noncomputable def gathered (listing : List Text) : Findings :=
  (⨆ path ∈ settings.reported listing, k.indexEntry t path)
    ⊔ (⨆ name ∈ settings.acceptedExtraRoots.1, k.extraRoot t name)
    ⊔ k.primaryRoot t settings.primaryRootPath (listing.map ProjectPath.directoryForm)

end Pass.Terms

variable {t settings} {m : Matcher}

theorem startPass_joins (hm : m.Sound) (listing : List Text) :
    Pass.Joins (Pass.new m settings.projectRoot settings.sidecarSuffix)
      (startPass t settings m listing)
      (⨆ path ∈ settings.reported listing, (settings.terms m.rules).indexEntry t path) := by
  refine Pass.joins_foldl (k := settings.terms m.rules) rfl (Pass.sound_new hm _ _)
    fun p path _ hk hs => ?_
  rw [← hk]
  exact Pass.addIndexEntry_joins t hs path

theorem addExtraRootEntries_joins {p : Pass} (h : p.Sound) (name : Text) :
    Pass.Joins p (addExtraRootEntries t p.terms.root p name) (p.terms.extraRoot t name) := by
  simp only [addExtraRootEntries, Pass.Terms.extraRoot]
  split
  · exact Pass.addBelow_joins t h _
  · exact Pass.Joins.refl h

/-- The whole pass over a listing finds what it gathers, completed. -/
theorem collectListing_spec (hm : m.Sound) (listing : List Text) :
    (collectListing t settings m listing).matcher.rules = m.rules ∧
      (collectListing t settings m listing).found =
        ((settings.terms m.rules).gathered t settings listing).completed
          (settings.terms m.rules) t := by
  have hstart : Pass.Joins (Pass.new m settings.projectRoot settings.sidecarSuffix)
      (startPass t settings m listing) _ := startPass_joins hm listing
  have hnew : (Pass.new m settings.projectRoot settings.sidecarSuffix).terms =
      settings.terms m.rules := rfl
  have hextra := Pass.joins_foldl (l := settings.acceptedExtraRoots.1)
    (f := addExtraRootEntries t settings.projectRoot)
    (c := (settings.terms m.rules).extraRoot t) (hstart.terms.trans hnew) hstart.sound
    fun p name _ hk hs => by
      have h := addExtraRootEntries_joins (t := t) hs name
      rwa [hk] at h
  have hboth := hstart.trans hextra
  have hsupp := Pass.supplement_joins t hboth.sound settings.primaryRootPath
    (listing.map ProjectPath.directoryForm)
  rw [hboth.terms, hnew] at hsupp
  have hall := hboth.trans hsupp
  obtain ⟨hterms, -, hfound⟩ := Pass.complete_spec t hall.sound
  rw [hall.terms, hnew, hall.found, Pass.found_new, bot_sup_eq] at hfound
  exact ⟨congrArg Pass.Terms.rules (hterms.trans (hall.terms.trans hnew)), hfound⟩

end IgnoredPaths
