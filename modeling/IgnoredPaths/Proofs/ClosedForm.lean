import IgnoredPaths.Proofs.Index
import IgnoredPaths.Proofs.Roots
import IgnoredPaths.Proofs.Supplement

/-!
# What a collection holds

A pass over the default index meets entries in three ways: the index reports them, the extra
roots are walked, and the supplemental scan finds what the index leaves out. Together the three
ways come to one set of entries, those visible below the roots of the project apart from sidecar
files, and each is judged on its own.

- `Settings.candidateFiles`, `Settings.candidateDirs`: the entries that are judged.
- `Settings.plainFiles`, `Settings.plainDirs`: what is collected before the completion.
- `Settings.gathered_eq`: the three ways come to this.
- `mem_collect_iff`: the whole collection.
-/

namespace IgnoredPaths

namespace Settings

/-! ## The closed form -/

/-- The files that are judged: below the primary root those that lie below a directory with a
special name or are no sidecars, and below the extra roots all. -/
def candidateFiles (settings : Settings) (t : FileTree) : Set Text :=
  {f | ∃ trail e, t.Shows settings.projectRoot settings.primaryRoot trail e ∧
    e.isDirectory = false ∧ f = ProjectPath.descend settings.primaryRoot trail.reverse ∧
      ((∃ name ∈ trail.tail, ProjectPath.isSpecialName name = true) ∨
        Text.endsWith f settings.sidecarSuffix = false)} ∪
  {f | ∃ root ∈ settings.acceptedExtraRoots.1, ∃ trail e,
    t.Shows settings.projectRoot root trail e ∧
      e.isDirectory = false ∧ f = ProjectPath.descend root trail.reverse}

/-- The directories that are judged: all that lie below the primary root or an extra root. -/
def candidateDirs (settings : Settings) (t : FileTree) : Set Text :=
  {d | ∃ root ∈ settings.primaryRoot :: settings.acceptedExtraRoots.1, ∃ trail,
    t.Shows settings.projectRoot root trail .directory ∧
      d = ProjectPath.descend root trail.reverse}

/-- Whether a file lies directly in the primary root that has no special name and is no sidecar. -/
def HoldsFile (settings : Settings) (t : FileTree) : Prop :=
  ∃ name e, t.Shows settings.projectRoot settings.primaryRoot [name] e ∧ e.isDirectory = false ∧
    ProjectPath.isSpecialName name = false ∧ Text.endsWith name settings.sidecarSuffix = false

/-- The directories that are collected before the completion: those judged to be ignored, and the
primary root if it is ignored and holds a file. -/
def plainDirs (settings : Settings) (t : FileTree) (rules : List Rule) : Set Text :=
  {d | d ∈ settings.candidateDirs t ∧ Rule.ignoresDirectory rules d = true} ∪
  {d | d = settings.primaryRoot ∧ Rule.ignoresDirectory rules d = true ∧ settings.HoldsFile t}

/-- The files that are collected before the completion: those judged to be ignored, with their
sidecars, and the sidecars of ignored directories, unless they are taken back. -/
def plainFiles (settings : Settings) (t : FileTree) (rules : List Rule) : Set Text :=
  {x | ∃ f ∈ settings.candidateFiles t, Rule.ignores rules f = true ∧
    (x = f ∨ x = f ++ settings.sidecarSuffix ∧ t.isFile (settings.projectRoot.resolve x) = true)} ∪
  {x | ∃ d ∈ settings.candidateDirs t, Rule.ignoresDirectory rules d = true ∧
    x = d ++ settings.sidecarSuffix ∧ t.isFile (settings.projectRoot.resolve x) = true ∧
      Rule.verdict rules x ≠ .negated}

variable {settings : Settings} {t : FileTree} {rules : List Rule}

/-- What the primary root contributes as the directory of reported files. -/
def primaryDirectory (settings : Settings) (t : FileTree) (rules : List Rule) : Findings :=
  (∅, {d | d = settings.primaryRoot ∧ Rule.ignoresDirectory rules d = true ∧ settings.HoldsFile t})

/-- What the entries contribute that are judged, each for itself. -/
def judged (settings : Settings) (t : FileTree) (rules : List Rule) : Findings :=
  (⨆ f ∈ settings.candidateFiles t, (settings.terms rules).file t f) ⊔
    (⨆ d ∈ settings.candidateDirs t, (settings.terms rules).directory t d) ⊔
      settings.primaryDirectory t rules

theorem judged_eq : settings.judged t rules =
    (settings.plainFiles t rules, settings.plainDirs t rules) := by
  refine Findings.ext (fun x => ?_) (fun x => ?_)
  · have hnone : x ∉ (settings.primaryDirectory t rules).1 := Set.notMem_empty x
    refine (or_iff_left hnone).trans (or_congr ?_ ?_)
    · rw [Findings.mem_iSup_fst]
      refine exists_congr fun f => and_congr_right fun _ => and_congr_right fun _ => ?_
      refine or_congr_right (and_congr_right ?_)
      rintro rfl
      exact Iff.rfl
    · rw [Findings.mem_iSup_fst]
      refine exists_congr fun d => and_congr_right fun _ => and_congr_right fun _ => ?_
      refine and_congr_right ?_
      rintro rfl
      exact Iff.rfl
  · refine or_congr ?_ Iff.rfl
    have hnone : x ∉ (⨆ f ∈ settings.candidateFiles t, (settings.terms rules).file t f).2 := by
      rw [Findings.mem_iSup_snd]
      rintro ⟨f, -, hx⟩
      exact hx
    refine (or_iff_right hnone).trans (Findings.mem_iSup_snd.trans ⟨?_, ?_⟩)
    · rintro ⟨d, hd, hignored, rfl⟩
      exact ⟨hd, hignored⟩
    · rintro ⟨hd, hignored⟩
      exact ⟨x, hd, hignored, rfl⟩

/-! ## Each entry that is met is judged -/

theorem file_le_judged {f : Text} (hf : f ∈ settings.candidateFiles t) :
    (settings.terms rules).file t f ≤ settings.judged t rules := by
  have hle : (settings.terms rules).file t f ≤
      ⨆ f ∈ settings.candidateFiles t, (settings.terms rules).file t f :=
    le_iSup₂_of_le f hf le_rfl
  exact hle.trans (le_sup_left.trans le_sup_left)

theorem directory_le_judged {d : Text} (hd : d ∈ settings.candidateDirs t) :
    (settings.terms rules).directory t d ≤ settings.judged t rules := by
  have hle : (settings.terms rules).directory t d ≤
      ⨆ d ∈ settings.candidateDirs t, (settings.terms rules).directory t d :=
    le_iSup₂_of_le d hd le_rfl
  exact hle.trans (le_sup_right.trans le_sup_left)

theorem shown_le_judged_of_primary {trail : Trail} {e : Entry}
    (h : t.Shows settings.projectRoot settings.primaryRoot trail e)
    (hcandidate : e.isDirectory = false → (∃ name ∈ trail.tail,
      ProjectPath.isSpecialName name = true) ∨
        Text.endsWith (ProjectPath.descend settings.primaryRoot trail.reverse)
          settings.sidecarSuffix = false) :
    (settings.terms rules).shown t settings.primaryRoot trail e ≤ settings.judged t rules := by
  rw [Pass.Terms.shown]
  cases hdirectory : e.isDirectory with
  | true =>
    obtain rfl := FileTree.eq_directory hdirectory
    exact directory_le_judged ⟨_, List.mem_cons_self, trail, h, rfl⟩
  | false =>
    exact file_le_judged (.inl ⟨trail, e, h, hdirectory, rfl, hcandidate hdirectory⟩)

theorem shown_le_judged_of_extra {root : Text} {trail : Trail} {e : Entry}
    (hroot : root ∈ settings.acceptedExtraRoots.1)
    (h : t.Shows settings.projectRoot root trail e) :
    (settings.terms rules).shown t root trail e ≤ settings.judged t rules := by
  rw [Pass.Terms.shown]
  cases hdirectory : e.isDirectory with
  | true =>
    obtain rfl := FileTree.eq_directory hdirectory
    exact directory_le_judged ⟨root, List.mem_cons_of_mem _ hroot, trail, h, rfl⟩
  | false =>
    exact file_le_judged (.inr ⟨root, hroot, trail, e, h, hdirectory, rfl⟩)

/-- The directory of a reported file is the primary root, or it is judged itself. -/
theorem parent_le_judged {trail : Trail} {e : Entry}
    (hprimary : ProjectPath.IsOrdinary settings.primaryRoot)
    (hsuffix : '/' ∉ settings.sidecarSuffix)
    (h : t.Shows settings.projectRoot settings.primaryRoot trail e)
    (hindexed : settings.Indexed trail e) (hfile : e.isDirectory = false) :
    (settings.terms rules).parent (ProjectPath.descend settings.primaryRoot trail.reverse) ≤
      settings.judged t rules := by
  obtain ⟨name, outer, rfl⟩ := List.exists_cons_of_ne_nil h.ne_nil
  have hsegment : ∀ n ∈ (name :: outer).reverse, IsSegment n := h.isSegment
  rw [List.reverse_cons, List.forall_mem_append] at hsegment
  have hname : '/' ∉ name := (hsegment.2 name List.mem_cons_self).2.2
  refine ⟨fun x hx => absurd hx (Set.notMem_empty x), fun x hx => ?_⟩
  obtain ⟨rfl, hignored⟩ := (Pass.Terms.mem_parent_descend_iff hname hprimary.segments_ne_nil
    hsegment.1).mp hx
  by_cases houter : outer = []
  · subst houter
    have hends := hindexed.2.resolve_left (Bool.eq_false_iff.mp hfile)
    rw [endsWith_descend _ _ _ hsuffix] at hends
    have hself : ProjectPath.descend settings.primaryRoot [] = settings.primaryRoot := by
      rw [ProjectPath.descend, List.append_nil, hprimary.joinWith]
    refine .inr ⟨hself, hignored, name, e, h, hfile, ?_, hends⟩
    exact hindexed.1 name List.mem_cons_self
  · have hdir : t.Shows settings.projectRoot settings.primaryRoot outer .directory :=
      FileTree.Shows.outer h (List.cons_ne_nil name []) houter
    have hle : (settings.terms rules).shown t settings.primaryRoot outer .directory ≤
        settings.judged t rules :=
      shown_le_judged_of_primary hdir fun h => absurd h Bool.true_eq_false.mp
    exact hle.2 ⟨hignored, rfl⟩

/-- What the supplemental scan takes below the primary root. -/
theorem taken_primary {trail : Trail} {e : Entry} (hlegible : t.Legible settings.projectRoot)
    (hprimary : ProjectPath.IsOrdinary settings.primaryRoot)
    (h : t.Shows settings.projectRoot settings.primaryRoot trail e) :
    (settings.terms rules).taken t
        (settings.primaryRootPath.extend trail.reverse, e.isDirectory) =
      if e.isDirectory then (settings.terms rules).shown t settings.primaryRoot trail e ⊔
        (settings.terms rules).below t (settings.projectRoot.resolve
          (ProjectPath.descend settings.primaryRoot trail.reverse))
      else if Text.endsWith (ProjectPath.descend settings.primaryRoot trail.reverse)
        settings.sidecarSuffix then ⊥
      else (settings.terms rules).shown t settings.primaryRoot trail e :=
  Pass.Terms.taken_extend h hlegible hprimary.anchorOf

/-- What the supplemental scan takes is judged. -/
theorem taken_le_judged {name : Text} {outer : Trail} {e : Entry}
    (hlegible : t.Legible settings.projectRoot)
    (hprimary : ProjectPath.IsOrdinary settings.primaryRoot)
    (h : t.Shows settings.projectRoot settings.primaryRoot (name :: outer) e)
    (hname : ProjectPath.isSpecialName name = true) :
    (settings.terms rules).taken t
        (settings.primaryRootPath.extend (name :: outer).reverse, e.isDirectory) ≤
      settings.judged t rules := by
  rw [taken_primary hlegible hprimary h]
  split
  · next hdirectory =>
    obtain rfl := FileTree.eq_directory hdirectory
    refine sup_le (shown_le_judged_of_primary h fun h => absurd h Bool.true_eq_false.mp) ?_
    obtain ⟨_, -, hstat⟩ := h.stat hprimary.anchorOf Entry.directory_ne_link
    refine Pass.Terms.below_le (FileTree.isDirectory_iff.mpr ⟨_, hstat⟩) hlegible
      (ProjectPath.anchorOf_descend h.isSegment) fun rest e hrest => ?_
    -- what lies below the directory has its special name on the way
    have hall := (FileTree.shows_append_iff h hprimary.anchorOf hrest.ne_nil).mpr hrest
    have hspecial : name ∈ (rest ++ name :: outer).tail := by
      rw [List.tail_append_of_ne_nil hrest.ne_nil]
      exact List.mem_append_right _ List.mem_cons_self
    have hle : (settings.terms rules).shown t settings.primaryRoot (rest ++ name :: outer) e ≤
        settings.judged t rules :=
      shown_le_judged_of_primary hall fun _ => .inl ⟨name, hspecial, hname⟩
    rwa [Pass.Terms.shown, List.reverse_append,
      ← ProjectPath.descend_descend h.isSegment] at hle
  · split
    · exact bot_le
    · next hends =>
      exact shown_le_judged_of_primary h fun _ => .inr (Bool.eq_false_iff.mpr hends)

/-- All that a pass gathers over the default index is judged. -/
theorem gathered_le_judged (hlink : t.NoLink) (hlegible : t.Legible settings.projectRoot)
    (hprimary : ProjectPath.IsOrdinary settings.primaryRoot)
    (hsuffix : '/' ∉ settings.sidecarSuffix) :
    (settings.terms rules).gathered t settings (defaultListing t settings) ≤
      settings.judged t rules := by
  refine sup_le (sup_le (iSup₂_le fun path hpath => ?_) (iSup₂_le fun root hroot => ?_)) ?_
  · obtain ⟨trail, e, hshows, hindexed, rfl⟩ := (mem_reported_iff hlegible hprimary hsuffix
      (isDirectory_of_mem_reported hpath)).mp hpath
    have hentry := Pass.Terms.indexEntry_descend (k := settings.terms rules) hshows hlink hlegible
      hprimary.anchorOf
    rw [hentry]
    refine sup_le (shown_le_judged_of_primary hshows fun hfile =>
      .inr (hindexed.2.resolve_left (Bool.eq_false_iff.mp hfile))) ?_
    split
    · exact bot_le
    · next hfile =>
      exact parent_le_judged hprimary hsuffix hshows hindexed (Bool.eq_false_iff.mpr hfile)
  · rw [Pass.Terms.extraRoot]
    split
    · next hdirectory =>
      exact Pass.Terms.below_le hdirectory hlegible (anchorOf_of_mem_acceptedExtraRoots hroot)
        fun trail e hshows => shown_le_judged_of_extra hroot hshows
    · exact bot_le
  · rw [Pass.Terms.primaryRoot]
    split
    · next hdirectory =>
      exact Pass.Terms.supplemented_le (k := settings.terms rules) hlegible hprimary.anchorOf
        hdirectory fun name outer e hshows hname =>
          taken_le_judged hlegible hprimary hshows hname
    · exact bot_le

/-! ## Each entry that is judged is met -/

/-- What the index reports is gathered. -/
theorem indexEntry_le_gathered {path : Text} {listing : List Text}
    (h : path ∈ settings.reported listing) :
    (settings.terms rules).indexEntry t path ≤
      (settings.terms rules).gathered t settings listing := by
  have hle : (settings.terms rules).indexEntry t path ≤
      ⨆ path ∈ settings.reported listing, (settings.terms rules).indexEntry t path :=
    le_iSup₂_of_le path h le_rfl
  exact hle.trans (le_sup_left.trans le_sup_left)

/-- What the supplemental scan takes is gathered. -/
theorem taken_le_gathered {name : Text} {outer : Trail} {e : Entry}
    (hlegible : t.Legible settings.projectRoot)
    (hprimary : ProjectPath.IsOrdinary settings.primaryRoot)
    (hsuffix : '/' ∉ settings.sidecarSuffix)
    (h : t.Shows settings.projectRoot settings.primaryRoot (name :: outer) e)
    (hname : ProjectPath.isSpecialName name = true) :
    (settings.terms rules).taken t
        (settings.primaryRootPath.extend (name :: outer).reverse, e.isDirectory) ≤
      (settings.terms rules).gathered t settings (defaultListing t settings) := by
  have hknown := not_mem_defaultListing hlegible hprimary hsuffix h hname
  have hle := Pass.Terms.taken_le_supplemented (k := settings.terms rules) h hlegible
    hprimary.anchorOf hname hknown
  have hscan : (settings.terms rules).primaryRoot t settings.primaryRootPath
      ((defaultListing t settings).map ProjectPath.directoryForm) =
        (settings.terms rules).supplemented t
          ((defaultListing t settings).map ProjectPath.directoryForm) []
          (t.walk settings.primaryRootPath) := if_pos h.isDirectory
  rw [Pass.Terms.gathered, hscan]
  exact hle.trans le_sup_right

/-- An entry with a special name is gathered by the scan, unless it is a sidecar. -/
theorem shown_le_gathered_of_special {name : Text} {outer : Trail} {e : Entry}
    (hlegible : t.Legible settings.projectRoot)
    (hprimary : ProjectPath.IsOrdinary settings.primaryRoot)
    (hsuffix : '/' ∉ settings.sidecarSuffix)
    (h : t.Shows settings.projectRoot settings.primaryRoot (name :: outer) e)
    (hname : ProjectPath.isSpecialName name = true)
    (hkept : e.isDirectory = true ∨
      Text.endsWith (ProjectPath.descend settings.primaryRoot (name :: outer).reverse)
        settings.sidecarSuffix = false) :
    (settings.terms rules).shown t settings.primaryRoot (name :: outer) e ≤
      (settings.terms rules).gathered t settings (defaultListing t settings) := by
  have hle : (settings.terms rules).taken t _ ≤ _ :=
    taken_le_gathered hlegible hprimary hsuffix h hname
  rw [taken_primary hlegible hprimary h] at hle
  cases hdirectory : e.isDirectory with
  | true =>
    rw [hdirectory, if_pos rfl] at hle
    exact le_sup_left.trans hle
  | false =>
    have hends := hkept.resolve_left (Bool.eq_false_iff.mp hdirectory)
    rw [hdirectory, hends] at hle
    exact hle

/-- An entry below a directory with a special name is gathered by the scan. -/
theorem shown_le_gathered_of_below_special {name : Text} {rest outer : Trail} {e : Entry}
    (hlegible : t.Legible settings.projectRoot)
    (hprimary : ProjectPath.IsOrdinary settings.primaryRoot)
    (hsuffix : '/' ∉ settings.sidecarSuffix) (hrest : rest ≠ [])
    (h : t.Shows settings.projectRoot settings.primaryRoot (rest ++ name :: outer) e)
    (hname : ProjectPath.isSpecialName name = true) :
    (settings.terms rules).shown t settings.primaryRoot (rest ++ name :: outer) e ≤
      (settings.terms rules).gathered t settings (defaultListing t settings) := by
  have hshows := h.outer hrest (List.cons_ne_nil name outer)
  have hinner := (FileTree.shows_append_iff hshows hprimary.anchorOf hrest).mp h
  have hbelow : (settings.terms rules).shown t
      (ProjectPath.descend settings.primaryRoot (name :: outer).reverse) rest e ≤ _ :=
    Pass.Terms.shown_le_below hinner hlegible (ProjectPath.anchorOf_descend hshows.isSegment)
  have hle : (settings.terms rules).taken t _ ≤ _ :=
    taken_le_gathered hlegible hprimary hsuffix hshows hname
  rw [taken_primary hlegible hprimary hshows, Entry.isDirectory, if_pos rfl] at hle
  rw [Pass.Terms.shown, ProjectPath.descend_descend hshows.isSegment,
    ← List.reverse_append] at hbelow
  exact hbelow.trans (le_sup_right.trans hle)

/-- An entry that the index is for is gathered from the index. -/
theorem shown_le_gathered_of_indexed {trail : Trail} {e : Entry} (hlink : t.NoLink)
    (hlegible : t.Legible settings.projectRoot)
    (hprimary : ProjectPath.IsOrdinary settings.primaryRoot)
    (hsuffix : '/' ∉ settings.sidecarSuffix)
    (h : t.Shows settings.projectRoot settings.primaryRoot trail e)
    (hindexed : settings.Indexed trail e) :
    (settings.terms rules).shown t settings.primaryRoot trail e ⊔
        (if e.isDirectory then ⊥ else (settings.terms rules).parent
          (ProjectPath.descend settings.primaryRoot trail.reverse)) ≤
      (settings.terms rules).gathered t settings (defaultListing t settings) := by
  have hentry : (settings.terms rules).indexEntry t _ = _ :=
    Pass.Terms.indexEntry_descend h hlink hlegible hprimary.anchorOf
  rw [← hentry]
  exact indexEntry_le_gathered ((mem_reported_iff hlegible hprimary hsuffix h.isDirectory).mpr
    ⟨trail, e, h, hindexed, rfl⟩)

/-- Every entry below the primary root that is judged is gathered. -/
theorem shown_le_gathered_of_primary {trail : Trail} {e : Entry} (hlink : t.NoLink)
    (hlegible : t.Legible settings.projectRoot)
    (hprimary : ProjectPath.IsOrdinary settings.primaryRoot)
    (hsuffix : '/' ∉ settings.sidecarSuffix)
    (h : t.Shows settings.projectRoot settings.primaryRoot trail e)
    (hcandidate : e.isDirectory = true ∨
      (∃ name ∈ trail.tail, ProjectPath.isSpecialName name = true) ∨
        Text.endsWith (ProjectPath.descend settings.primaryRoot trail.reverse)
          settings.sidecarSuffix = false) :
    (settings.terms rules).shown t settings.primaryRoot trail e ≤
      (settings.terms rules).gathered t settings (defaultListing t settings) := by
  by_cases htail : ∃ name ∈ trail.tail, ProjectPath.isSpecialName name = true
  · obtain ⟨name, hmem, hname⟩ := htail
    obtain ⟨first, trail, rfl⟩ := List.exists_cons_of_ne_nil h.ne_nil
    obtain ⟨rest, outer, hsplit⟩ := List.append_of_mem hmem
    have hway : first :: trail = (first :: rest) ++ name :: outer := congrArg (first :: ·) hsplit
    rw [hway] at h ⊢
    exact shown_le_gathered_of_below_special hlegible hprimary hsuffix
      (List.cons_ne_nil first rest) h hname
  · have hkept := hcandidate.imp_right fun hor => hor.resolve_left htail
    obtain ⟨name, outer, rfl⟩ := List.exists_cons_of_ne_nil h.ne_nil
    cases hname : ProjectPath.isSpecialName name with
    | true => exact shown_le_gathered_of_special hlegible hprimary hsuffix h hname hkept
    | false =>
      have hnames : ∀ n ∈ name :: outer, ProjectPath.isSpecialName n = false := by
        intro n hn
        rcases List.mem_cons.mp hn with rfl | hn
        · exact hname
        · exact Bool.eq_false_iff.mpr fun hspecial => htail ⟨n, hn, hspecial⟩
      exact le_sup_left.trans
        (shown_le_gathered_of_indexed hlink hlegible hprimary hsuffix h ⟨hnames, hkept⟩)

/-- Every entry below an extra root is gathered. -/
theorem shown_le_gathered_of_extra {root : Text} {trail : Trail} {e : Entry}
    (hlegible : t.Legible settings.projectRoot) (hroot : root ∈ settings.acceptedExtraRoots.1)
    (h : t.Shows settings.projectRoot root trail e) (listing : List Text) :
    (settings.terms rules).shown t root trail e ≤
      (settings.terms rules).gathered t settings listing := by
  have hbelow : (settings.terms rules).shown t root trail e ≤ _ :=
    Pass.Terms.shown_le_below h hlegible (anchorOf_of_mem_acceptedExtraRoots hroot)
  have hextra : (settings.terms rules).extraRoot t root =
      (settings.terms rules).below t (settings.projectRoot.resolve root) := if_pos h.isDirectory
  have hle : (settings.terms rules).extraRoot t root ≤
      ⨆ name ∈ settings.acceptedExtraRoots.1, (settings.terms rules).extraRoot t name :=
    le_iSup₂_of_le root hroot le_rfl
  rw [hextra] at hle
  exact hbelow.trans (hle.trans (le_sup_right.trans le_sup_left))

/-- The primary root is gathered as the directory of a reported file. -/
theorem primaryDirectory_le_gathered (hlink : t.NoLink) (hlegible : t.Legible settings.projectRoot)
    (hprimary : ProjectPath.IsOrdinary settings.primaryRoot)
    (hsuffix : '/' ∉ settings.sidecarSuffix) :
    settings.primaryDirectory t rules ≤
      (settings.terms rules).gathered t settings (defaultListing t settings) := by
  refine ⟨Set.empty_subset _, fun x hx => ?_⟩
  obtain ⟨rfl, hignored, name, e, hshows, hfile, hname, hends⟩ := hx
  have hindexed : settings.Indexed [name] e := by
    refine ⟨fun n hn => List.mem_singleton.mp hn ▸ hname, .inr ?_⟩
    rw [endsWith_descend _ _ _ hsuffix]
    exact hends
  have hle : _ ≤ (settings.terms rules).gathered t settings _ :=
    shown_le_gathered_of_indexed hlink hlegible hprimary hsuffix hshows hindexed
  have hself : settings.primaryRoot = ProjectPath.descend settings.primaryRoot [] := by
    rw [ProjectPath.descend, List.append_nil, hprimary.joinWith]
  have hslash : '/' ∉ name := (hshows.isSegment name (List.mem_singleton_self name)).2.2
  have hmem : settings.primaryRoot ∈ ((settings.terms rules).parent
      (ProjectPath.descend settings.primaryRoot [name].reverse)).2 :=
    (Pass.Terms.mem_parent_descend_iff hslash hprimary.segments_ne_nil
      fun n hn => absurd hn List.not_mem_nil).mpr ⟨hself, hignored⟩
  rw [hfile] at hle
  exact (le_sup_right.trans hle).2 hmem

/-- What a pass gathers over the default index is what is judged. -/
theorem gathered_eq (hlink : t.NoLink) (hlegible : t.Legible settings.projectRoot)
    (hprimary : ProjectPath.IsOrdinary settings.primaryRoot)
    (hsuffix : '/' ∉ settings.sidecarSuffix) (rules : List Rule) :
    (settings.terms rules).gathered t settings (defaultListing t settings) =
      settings.judged t rules := by
  refine le_antisymm (gathered_le_judged hlink hlegible hprimary hsuffix) ?_
  refine sup_le (sup_le (iSup₂_le fun f hf => ?_) (iSup₂_le fun d hd => ?_))
    (primaryDirectory_le_gathered hlink hlegible hprimary hsuffix)
  · rcases hf with ⟨trail, e, hshows, hfile, rfl, hkept⟩ |
      ⟨root, hroot, trail, e, hshows, hfile, rfl⟩
    · have hle : (settings.terms rules).shown t _ _ e ≤ _ :=
        shown_le_gathered_of_primary hlink hlegible hprimary hsuffix hshows (.inr hkept)
      rwa [Pass.Terms.shown, hfile] at hle
    · have hle : (settings.terms rules).shown t _ _ e ≤ _ :=
        shown_le_gathered_of_extra hlegible hroot hshows (defaultListing t settings)
      rwa [Pass.Terms.shown, hfile] at hle
  · obtain ⟨root, hroot, trail, hshows, rfl⟩ := hd
    rcases List.mem_cons.mp hroot with rfl | hroot
    · have hle : (settings.terms rules).shown t _ trail .directory ≤ _ :=
        shown_le_gathered_of_primary hlink hlegible hprimary hsuffix hshows (.inl rfl)
      exact hle
    · have hle : (settings.terms rules).shown t _ trail .directory ≤ _ :=
        shown_le_gathered_of_extra hlegible hroot hshows (defaultListing t settings)
      exact hle

end Settings

/-! ## The whole collection -/

/-- **What a collection holds.** In a tree without links and without backslashes in names, a
collection over the default index holds, each in strictly ascending order, the directories and
files that are judged to be ignored (`plainDirs`, `plainFiles`), the ignored ones of all
directories above these, and the sidecars of all directories above these that no negation takes
back. Any directories may be locked. The root is not written as two slashes alone, which no
canonical path is (`FileTree.toText_ne_of_canonical`). -/
theorem mem_collect_iff (t : FileTree) (settings : Settings) (lines : List Text)
    (hlink : t.NoLink) (hback : t.NoBackslash) (hroot : settings.projectRoot.toText ≠ ['/', '/'])
    (hprimary : ProjectPath.IsOrdinary settings.primaryRoot)
    (hsuffix : '/' ∉ settings.sidecarSuffix) :
    let rules := Rule.ofLines lines
    let c := collect t settings (some (.ofLines lines))
    let above := Findings.above (settings.plainFiles t rules, settings.plainDirs t rules)
    (c.dirs.Pairwise (· < ·) ∧ ∀ d, d ∈ c.dirs ↔ d ∈ settings.plainDirs t rules ∨
      d ∈ above ∧ Rule.ignoresDirectory rules d = true) ∧
    (c.files.Pairwise (· < ·) ∧ ∀ f, f ∈ c.files ↔ f ∈ settings.plainFiles t rules ∨
      ∃ a ∈ above, f = a ++ settings.sidecarSuffix ∧
        t.isFile (settings.projectRoot.resolve f) = true ∧ Rule.verdict rules f ≠ .negated) := by
  intro rules c above
  have hspec : (collectListing t settings (.ofLines lines) (defaultListing t settings)).found = _ :=
    (collectListing_spec (Matcher.sound_ofLines lines) _).2
  rw [Settings.gathered_eq hlink ⟨hback, hroot⟩ hprimary hsuffix, Settings.judged_eq,
    Findings.completed_eq] at hspec
  obtain ⟨⟨hdirs, hmemDirs⟩, hfiles, hmemFiles⟩ := Pass.result_spec hspec
  refine ⟨⟨hdirs, hmemDirs⟩, hfiles, fun f => ?_⟩
  refine (hmemFiles f).trans (or_congr_right ?_)
  refine exists_congr fun a => and_congr_right fun _ => ?_
  constructor
  · rintro ⟨hkeeps, rfl⟩
    exact ⟨rfl, hkeeps⟩
  · rintro ⟨rfl, hkeeps⟩
    exact ⟨hkeeps, rfl⟩

/-- A project whose primary root holds a directory with a special name, and a file in it. -/
def hiddenNotes : FileTree :=
  ((FileTree.empty.insert [] defaultPrimaryRoot .directory).insert [defaultPrimaryRoot]
    ".b".toList .directory).insert [".b".toList, defaultPrimaryRoot] "a.txt".toList
      (.file .empty 0)

/-- What the index leaves out is collected as well. -/
theorem hidden_file_mem_collect :
    let t := hiddenNotes
    let settings := Settings.initial (.ofText ['/'])
    t.NoLink ∧ t.NoBackslash ∧ settings.projectRoot.toText ≠ ['/', '/'] ∧
      ProjectPath.IsOrdinary settings.primaryRoot ∧ '/' ∉ settings.sidecarSuffix ∧
        "Assets/.b/a.txt".toList ∈
          (collect t settings (some (.ofLines ["*.txt".toList]))).files := by
  intro t settings
  have hlink : t.NoLink := FileTree.noLink_of_entries (by decide)
  have hback : t.NoBackslash := FileTree.noBackslash_of_entries (by decide)
  have hroot : settings.projectRoot.toText ≠ ['/', '/'] := by decide
  have hprimary : ProjectPath.IsOrdinary settings.primaryRoot := by
    unfold ProjectPath.IsOrdinary
    decide
  have hsuffix : '/' ∉ settings.sidecarSuffix := by decide
  refine ⟨hlink, hback, hroot, hprimary, hsuffix, ?_⟩
  have hstat : t.stat (settings.projectRoot.resolve settings.primaryRoot) =
      .ok ([defaultPrimaryRoot], .directory) := by decide
  have hvisible : t.Visible [defaultPrimaryRoot] ["a.txt".toList, ".b".toList]
      (.file .empty 0) := by
    refine (FileTree.visible_append_iff (List.cons_ne_nil "a.txt".toList [])
      (List.cons_ne_nil ".b".toList [])).mpr ⟨?_, ?_⟩
    · exact FileTree.visible_singleton.mpr (by decide)
    · exact FileTree.visible_singleton.mpr (by decide)
  have hfiles := (mem_collect_iff t settings ["*.txt".toList] hlink hback hroot hprimary
    hsuffix).2.2
  refine (hfiles _).mpr (.inl (.inl ⟨"Assets/.b/a.txt".toList, ?_, by decide, .inl rfl⟩))
  exact .inl ⟨_, _, ⟨_, hstat, hvisible⟩, rfl, by decide, .inl ⟨".b".toList, by decide, by decide⟩⟩

end IgnoredPaths
