import IgnoredPaths.Proofs.ClosedForm
import IgnoredPaths.Proofs.Ordinary

/-!
# Two routes to the same entries

What lies below a directory of a project can be collected on two routes. If the directory is the
primary root, an index reports texts, and a pass guesses from each text and from where it leads
what it stands for; if it is an extra root, a walk tells directories from everything else. The
routes come to the same, except for one kind of entry: a symbolic link whose name and target
mislead the guess is judged as a directory on the first route and as a file on the second.

- `Settings.ReadsAsDirectory`, `Settings.MisreadLink`: what the index route makes of an entry.
- `Pass.Terms.Reads`: findings that come of reading each entry below a directory in some way.
- `Pass.Terms.Reads.mem_completed`: what is collected of them, with the directories above.
- `Settings.reads_of_index`, `Settings.reads_of_walk`: how the two routes read.
- `indexed_iff_walked`: where the routes agree, and what they do elsewhere.
-/

namespace IgnoredPaths

/-- Whether a text lies strictly below a directory. -/
def ProjectPath.IsBelow (dir path : Text) : Prop := Text.startsWith path (dir ++ ['/']) = true

instance (dir path : Text) : Decidable (ProjectPath.IsBelow dir path) :=
  inferInstanceAs (Decidable (_ = true))

/-- What is above an entry and below the directory that shows it is shown as a directory. -/
theorem FileTree.Shows.of_mem_ancestors {t : FileTree} {root : Path} {dir : Text} {trail : Trail}
    {e : Entry} (h : t.Shows root dir trail e) (hdir : ProjectPath.IsOrdinary dir) {a : Text}
    (ha : a ∈ ProjectPath.ancestors (ProjectPath.descend dir trail.reverse))
    (hbelow : ProjectPath.IsBelow dir a) :
    ∃ outer, t.Shows root dir outer .directory ∧ a = ProjectPath.descend dir outer.reverse := by
  have hpath := Pass.Terms.isOrdinary_of_shows h hdir.staysInside
  have hordinary := hpath.of_mem_ancestors ha
  obtain ⟨⟨more, hmore⟩, hne⟩ := (hpath.mem_ancestors_iff hordinary).mp ha
  rw [ProjectPath.IsBelow, ← hdir.joinWith, ← hordinary.joinWith,
    ProjectPath.startsWith_joinWith_iff hdir.segments_ne_nil
      (fun s hs => (Path.isSegment_of_mem_segmentsOf hs).2.2)
      fun s hs => (Path.isSegment_of_mem_segmentsOf hs).2.2] at hbelow
  obtain ⟨names, hnames, hsegments⟩ := hbelow
  have htext : a = ProjectPath.descend dir names := by
    rw [ProjectPath.descend, ← hsegments, hordinary.joinWith]
  -- the names on the way to the entry begin with those on the way to the directory
  rw [ProjectPath.segmentsOf_descend h.isSegment, hsegments, List.append_assoc] at hmore
  have htrail : trail = more.reverse ++ names.reverse := by
    rw [← List.reverse_append, List.append_cancel_left hmore, List.reverse_reverse]
  have hmoreNe : more.reverse ≠ [] := by
    intro hnil
    rw [hnil, List.nil_append] at htrail
    exact hne (by rw [htext, htrail, List.reverse_reverse])
  have hnamesNe : names.reverse ≠ [] := fun hnil => hnames (List.reverse_eq_nil_iff.mp hnil)
  rw [htrail] at h
  refine ⟨names.reverse, h.outer hmoreNe hnamesNe, ?_⟩
  rw [List.reverse_reverse, htext]

namespace Pass.Terms

variable {k : Terms} {t : FileTree} {dir : Text} {asDir : Trail → Entry → Prop} {c : Findings}

/-- What may come of reading each entry below a directory in some way, as a directory or as a
file: ignored entries, anything with the ending of sidecars, and the directory itself. -/
def reading (k : Terms) (t : FileTree) (dir : Text) (asDir : Trail → Entry → Prop) : Findings :=
  ({x | ∃ trail e, t.Shows k.root dir trail e ∧
      (x = ProjectPath.descend dir trail.reverse ++ k.suffix ∨
        x = ProjectPath.descend dir trail.reverse ∧ ¬ asDir trail e ∧
          Rule.ignores k.rules x = true)},
    {x | x = dir ∨ ∃ trail e, t.Shows k.root dir trail e ∧
      x = ProjectPath.descend dir trail.reverse ∧ asDir trail e ∧
        Rule.ignoresDirectory k.rules x = true})

/-- Findings that come of reading each entry below a directory in some way. Sidecar files need
not be read. -/
structure Reads (k : Terms) (t : FileTree) (dir : Text) (asDir : Trail → Entry → Prop)
    (c : Findings) : Prop where
  le : c ≤ k.reading t dir asDir
  file_le : ∀ {trail e}, t.Shows k.root dir trail e → ¬ asDir trail e →
    Text.endsWith (ProjectPath.descend dir trail.reverse) k.suffix = false →
      k.file t (ProjectPath.descend dir trail.reverse) ≤ c
  directory_le : ∀ {trail e}, t.Shows k.root dir trail e → asDir trail e →
    k.directory t (ProjectPath.descend dir trail.reverse) ≤ c

theorem file_le_reading {trail : Trail} {e : Entry} (h : t.Shows k.root dir trail e)
    (hfile : ¬ asDir trail e) :
    k.file t (ProjectPath.descend dir trail.reverse) ≤ k.reading t dir asDir := by
  refine ⟨?_, Set.empty_subset _⟩
  rintro x ⟨hignored, rfl | ⟨rfl, -⟩⟩
  · exact ⟨trail, e, h, .inr ⟨rfl, hfile, hignored⟩⟩
  · exact ⟨trail, e, h, .inl rfl⟩

theorem directory_le_reading {trail : Trail} {e : Entry} (h : t.Shows k.root dir trail e)
    (hdirectory : asDir trail e) :
    k.directory t (ProjectPath.descend dir trail.reverse) ≤ k.reading t dir asDir := by
  refine ⟨?_, ?_⟩
  · rintro x ⟨-, rfl, -⟩
    exact ⟨trail, e, h, .inl rfl⟩
  · rintro x ⟨hignored, rfl⟩
    exact .inr ⟨trail, e, h, rfl, hdirectory, hignored⟩

/-- What is above what is read, and below the directory, is a directory that is read. -/
theorem Reads.shows_of_mem_above (h : k.Reads t dir asDir c) (hdir : ProjectPath.IsOrdinary dir)
    (hsuffix : '/' ∉ k.suffix) {a : Text} (ha : a ∈ c.above)
    (hbelow : ProjectPath.IsBelow dir a) :
    ∃ trail, t.Shows k.root dir trail .directory ∧ a = ProjectPath.descend dir trail.reverse := by
  obtain ⟨x, hx | hx, ha⟩ := ha
  · obtain ⟨trail, e, hshows, rfl | ⟨rfl, -⟩⟩ := h.le.1 hx
    · have hordinary := isOrdinary_of_shows hshows hdir.staysInside
      exact hshows.of_mem_ancestors hdir ((hordinary.ancestors_append hsuffix).mp ha) hbelow
    · exact hshows.of_mem_ancestors hdir ha hbelow
  · rcases h.le.2 hx with rfl | ⟨trail, e, hshows, rfl, -⟩
    · -- what is above the directory itself is not below it
      obtain ⟨-, rest, hrest⟩ := ProjectPath.mem_ancestors.mp ha
      rw [hdir.trim_eq] at hrest
      have hlength := (List.isPrefixOf_iff_prefix.mp hbelow).length_le
      rw [hrest] at hlength
      simp only [List.length_append, List.length_cons] at hlength
      omega
    · exact hshows.of_mem_ancestors hdir ha hbelow

/-- What is collected below a directory of what is read there, if directories are read as such: the
entries that are ignored, as what they are read, sidecars of files apart. -/
theorem Reads.mem_completed (h : k.Reads t dir asDir c) (hdir : ProjectPath.IsOrdinary dir)
    (hsuffix : '/' ∉ k.suffix) (hreal : ∀ trail, asDir trail .directory) {x : Text}
    (hbelow : ProjectPath.IsBelow dir x) :
    (x ∈ (c.completed k t).2 ↔ ∃ trail e, t.Shows k.root dir trail e ∧
      x = ProjectPath.descend dir trail.reverse ∧ asDir trail e ∧
        Rule.ignoresDirectory k.rules x = true) ∧
    (Text.endsWith x k.suffix = false →
      (x ∈ (c.completed k t).1 ↔ ∃ trail e, t.Shows k.root dir trail e ∧
        x = ProjectPath.descend dir trail.reverse ∧ ¬ asDir trail e ∧
          Rule.ignores k.rules x = true)) := by
  have hends : ∀ y : Text, Text.endsWith (y ++ k.suffix) k.suffix = true :=
    fun y => List.isSuffixOf_iff_suffix.mpr (List.suffix_append y k.suffix)
  rw [Findings.completed_eq]
  refine ⟨⟨?_, ?_⟩, fun hx => ⟨?_, ?_⟩⟩
  · rintro (hfound | ⟨ha, hignored⟩)
    · refine (h.le.2 hfound).resolve_left ?_
      -- the directory may be found as the parent of a file, but it is not below itself
      rintro rfl
      have hlength := (List.isPrefixOf_iff_prefix.mp hbelow).length_le
      rw [List.length_append, List.length_singleton] at hlength
      omega
    · -- what the completion adds is shown as a directory, and so it is read as one
      obtain ⟨trail, hshows, rfl⟩ := h.shows_of_mem_above hdir hsuffix ha hbelow
      exact ⟨trail, .directory, hshows, rfl, hreal trail, hignored⟩
  · rintro ⟨trail, e, hshows, rfl, hdirectory, hignored⟩
    exact .inl ((h.directory_le hshows hdirectory).2 ⟨hignored, rfl⟩)
  · rintro (hfound | ⟨a, -, -, rfl⟩)
    · obtain ⟨trail, e, hshows, rfl | ⟨rfl, hfile, hignored⟩⟩ := h.le.1 hfound
      · rw [hends] at hx
        cases hx
      · exact ⟨trail, e, hshows, rfl, hfile, hignored⟩
    · rw [hends] at hx
      cases hx
  · rintro ⟨trail, e, hshows, rfl, hfile, hignored⟩
    exact .inl ((h.file_le hshows hfile hx).1 ⟨hignored, .inl rfl⟩)

end Pass.Terms

/-! ## The two routes -/

namespace Settings

/-- The settings with a directory as the primary root, and no other root. -/
def withPrimary (settings : Settings) (dir : Text) : Settings :=
  { settings with primaryRoot := dir, extraRoots := [] }

/-- The settings with a directory as the only extra root, beside some primary root. -/
def withExtra (settings : Settings) (dir primary : Text) : Settings :=
  { settings with primaryRoot := primary, extraRoots := [dir] }

variable {settings : Settings} {t : FileTree} {rules : List Rule} {trail : Trail} {e : Entry}

/-- Whether a text is that of a symbolic link that the index reports and that is not taken for a
file: it looks like a file and leads to a directory, or it does not and leads to no file. -/
def MisreadLink (settings : Settings) (t : FileTree) (path : Text) : Prop :=
  ∃ trail target, t.Shows settings.projectRoot settings.primaryRoot trail (.link target) ∧
    path = ProjectPath.descend settings.primaryRoot trail.reverse ∧
    (∀ name ∈ trail, ProjectPath.isSpecialName name = false) ∧
    Text.endsWith path settings.sidecarSuffix = false ∧
    if ProjectPath.hasExtension path then t.isDirectory (settings.projectRoot.resolve path) = true
    else t.isFile (settings.projectRoot.resolve path) = false

/-- How an entry is read that lies below the primary root. -/
def ReadsAsDirectory (settings : Settings) (t : FileTree) (trail : Trail) (e : Entry) : Prop :=
  e.isDirectory = true ∨
    settings.MisreadLink t (ProjectPath.descend settings.primaryRoot trail.reverse)

theorem MisreadLink.not_isIndexFile {path : Text} (h : settings.MisreadLink t path) :
    ¬ (settings.terms rules).IsIndexFile t path := by
  obtain ⟨-, -, -, -, -, -, hguess⟩ := h
  rw [Pass.Terms.IsIndexFile, Pass.Terms.IsFile]
  split at hguess
  · next hextension => simp [hextension, hguess, terms]
  · next hextension => simp [hextension, hguess, terms]

theorem MisreadLink.endsWith_eq_false {path : Text} (h : settings.MisreadLink t path) :
    Text.endsWith path settings.sidecarSuffix = false := by
  obtain ⟨-, -, -, -, -, hends, -⟩ := h
  exact hends

/-- A reported entry is read as a directory exactly if it is not taken for a file. -/
theorem readsAsDirectory_iff (rules : List Rule)
    (hprimary : ProjectPath.IsOrdinary settings.primaryRoot)
    (h : t.Shows settings.projectRoot settings.primaryRoot trail e)
    (hindexed : settings.Indexed trail e) :
    settings.ReadsAsDirectory t trail e ↔ ¬ (settings.terms rules).IsIndexFile t
      (ProjectPath.descend settings.primaryRoot trail.reverse) := by
  constructor
  · rintro (hdirectory | hmisread)
    · obtain rfl := FileTree.eq_directory hdirectory
      exact Pass.Terms.not_isIndexFile_of_directory (k := settings.terms rules) h
        hprimary.anchorOf
    · exact hmisread.not_isIndexFile
  · intro hguess
    rw [Pass.Terms.IsIndexFile, Pass.Terms.IsFile] at hguess
    cases e with
    | directory => exact .inl rfl
    | file content mtime =>
      -- the text of a file leads to it, whatever it looks like
      obtain ⟨_, -, hstat⟩ := h.stat hprimary.anchorOf (Entry.file_ne_link content mtime)
      refine absurd ?_ hguess
      simp only [terms, FileTree.isDirectory, FileTree.isFile, hstat]
      simp [Entry.isDirectory, Entry.isFile]
    | link target =>
      have hends := hindexed.2.resolve_left Bool.false_ne_true
      refine .inr ⟨trail, target, h, rfl, hindexed.1, hends, ?_⟩
      split at hguess
      · next hextension => simpa [hextension, terms] using hguess
      · next hextension => simpa [hextension, terms] using hguess

/-- The texts of the entries tell them apart. -/
theorem eq_of_shows {root : Path} {dir : Text} {other : Trail} {d : Entry}
    (h : t.Shows root dir trail e) (hother : t.Shows root dir other d)
    (heq : ProjectPath.descend dir trail.reverse = ProjectPath.descend dir other.reverse) :
    trail = other ∧ e = d := by
  obtain rfl := List.reverse_injective (ProjectPath.descend_inj h.isSegment hother.isSegment heq)
  obtain ⟨l, hl, -, hget, -⟩ := h
  obtain ⟨l', hl', -, hget', -⟩ := hother
  obtain rfl := FileTree.stat_unique hl hl'
  exact ⟨rfl, Option.some.inj (hget.symm.trans hget')⟩

/-- With a special name on the way, an entry is read as what it is. -/
theorem readsAsDirectory_of_special
    (h : t.Shows settings.projectRoot settings.primaryRoot trail e)
    (hspecial : ∃ name ∈ trail, ProjectPath.isSpecialName name = true) :
    settings.ReadsAsDirectory t trail e ↔ e.isDirectory = true := by
  refine or_iff_left ?_
  -- a misread link is reported, so there is no special name on the way to it
  rintro ⟨other, target, hother, heq, hnames, -⟩
  obtain ⟨name, hname, hspecial⟩ := hspecial
  obtain ⟨rfl, -⟩ := eq_of_shows h hother heq
  rw [hnames name hname] at hspecial
  cases hspecial

/-- With a special name on the way, an entry is gathered by the scan, unless it is a sidecar. -/
theorem shown_le_gathered_of_special_on_way (hlegible : t.Legible settings.projectRoot)
    (hprimary : ProjectPath.IsOrdinary settings.primaryRoot)
    (hsuffix : '/' ∉ settings.sidecarSuffix)
    (h : t.Shows settings.projectRoot settings.primaryRoot trail e)
    (hspecial : ∃ name ∈ trail, ProjectPath.isSpecialName name = true)
    (hkept : e.isDirectory = true ∨
      Text.endsWith (ProjectPath.descend settings.primaryRoot trail.reverse)
        settings.sidecarSuffix = false) :
    (settings.terms rules).shown t settings.primaryRoot trail e ≤
      (settings.terms rules).gathered t settings (defaultListing t settings) := by
  obtain ⟨name, hmem, hname⟩ := hspecial
  obtain ⟨rest, outer, rfl⟩ := List.append_of_mem hmem
  by_cases hrest : rest = []
  · subst hrest
    exact shown_le_gathered_of_special hlegible hprimary hsuffix h hname hkept
  · exact shown_le_gathered_of_below_special hlegible hprimary hsuffix hrest h hname

theorem shown_le_reading_of_special
    (h : t.Shows settings.projectRoot settings.primaryRoot trail e)
    (hspecial : ∃ name ∈ trail, ProjectPath.isSpecialName name = true) :
    (settings.terms rules).shown t settings.primaryRoot trail e ≤
      (settings.terms rules).reading t settings.primaryRoot (settings.ReadsAsDirectory t) := by
  have hreads := readsAsDirectory_of_special h hspecial
  rw [Pass.Terms.shown]
  split
  · next hdirectory =>
    exact Pass.Terms.directory_le_reading (k := settings.terms rules) h (hreads.mpr hdirectory)
  · next hfile =>
    exact Pass.Terms.file_le_reading (k := settings.terms rules) h fun hdirectory =>
      hfile (hreads.mp hdirectory)

/-- What the supplemental scan takes is read as what it is. -/
theorem taken_le_reading {name : Text} {outer : Trail} (hlegible : t.Legible settings.projectRoot)
    (hprimary : ProjectPath.IsOrdinary settings.primaryRoot)
    (h : t.Shows settings.projectRoot settings.primaryRoot (name :: outer) e)
    (hname : ProjectPath.isSpecialName name = true) :
    (settings.terms rules).taken t
        (settings.primaryRootPath.extend (name :: outer).reverse, e.isDirectory) ≤
      (settings.terms rules).reading t settings.primaryRoot (settings.ReadsAsDirectory t) := by
  have hself : (settings.terms rules).shown t settings.primaryRoot (name :: outer) e ≤ _ :=
    shown_le_reading_of_special h ⟨name, List.mem_cons_self, hname⟩
  rw [taken_primary hlegible hprimary h]
  split
  · next hdirectory =>
    obtain rfl := FileTree.eq_directory hdirectory
    refine sup_le hself ?_
    obtain ⟨_, -, hstat⟩ := h.stat hprimary.anchorOf Entry.directory_ne_link
    refine Pass.Terms.below_le (FileTree.isDirectory_iff.mpr ⟨_, hstat⟩) hlegible
      (ProjectPath.anchorOf_descend h.isSegment) fun rest d hrest => ?_
    have hall := (FileTree.shows_append_iff h hprimary.anchorOf hrest.ne_nil).mpr hrest
    have hle : (settings.terms rules).shown t settings.primaryRoot (rest ++ name :: outer) d ≤ _ :=
      shown_le_reading_of_special hall
        ⟨name, List.mem_append_right rest List.mem_cons_self, hname⟩
    rwa [Pass.Terms.shown, List.reverse_append,
      ← ProjectPath.descend_descend h.isSegment] at hle
  · split
    · exact bot_le
    · exact hself

/-- The directory of a reported file is the primary root, or it is read as a directory. -/
theorem parent_le_reading (hprimary : ProjectPath.IsOrdinary settings.primaryRoot)
    (h : t.Shows settings.projectRoot settings.primaryRoot trail e) :
    (settings.terms rules).parent (ProjectPath.descend settings.primaryRoot trail.reverse) ≤
      (settings.terms rules).reading t settings.primaryRoot (settings.ReadsAsDirectory t) := by
  obtain ⟨name, outer, rfl⟩ := List.exists_cons_of_ne_nil h.ne_nil
  have hsegment : ∀ n ∈ (name :: outer).reverse, IsSegment n := h.isSegment
  rw [List.reverse_cons, List.forall_mem_append] at hsegment
  have hname : '/' ∉ name := (hsegment.2 name List.mem_cons_self).2.2
  refine ⟨Set.empty_subset _, fun x hx => ?_⟩
  obtain ⟨rfl, hignored⟩ := (Pass.Terms.mem_parent_descend_iff hname hprimary.segments_ne_nil
    hsegment.1).mp hx
  by_cases houter : outer = []
  · left
    rw [houter, ProjectPath.descend, List.reverse_nil, List.append_nil, hprimary.joinWith]
  · have hdir : t.Shows settings.projectRoot settings.primaryRoot outer .directory :=
      FileTree.Shows.outer h (List.cons_ne_nil name []) houter
    exact .inr ⟨outer, .directory, hdir, rfl, .inl rfl, hignored⟩

/-- The index route reads misread links as directories, and all else as what it is. -/
theorem reads_of_index (hlegible : t.Legible settings.projectRoot)
    (hprimary : ProjectPath.IsOrdinary settings.primaryRoot)
    (hsuffix : '/' ∉ settings.sidecarSuffix) (hextra : settings.acceptedExtraRoots.1 = []) :
    (settings.terms rules).Reads t settings.primaryRoot (settings.ReadsAsDirectory t)
      ((settings.terms rules).gathered t settings (defaultListing t settings)) := by
  -- an entry without special names on the way is reported, unless it is a sidecar file
  have hreported : ∀ {trail e}, t.Shows settings.projectRoot settings.primaryRoot trail e →
      settings.Indexed trail e → (settings.terms rules).indexEntry t
        (ProjectPath.descend settings.primaryRoot trail.reverse) ≤
          (settings.terms rules).gathered t settings (defaultListing t settings) :=
    fun h hindexed => indexEntry_le_gathered
      ((mem_reported_iff hlegible hprimary hsuffix h.isDirectory).mpr ⟨_, _, h, hindexed, rfl⟩)
  have hplain : ∀ {trail : Trail}, (¬ ∃ name ∈ trail, ProjectPath.isSpecialName name = true) →
      ∀ name ∈ trail, ProjectPath.isSpecialName name = false :=
    fun h name hname => Bool.eq_false_iff.mpr fun hspecial => h ⟨name, hname, hspecial⟩
  refine ⟨?_, fun {trail e} h hfile hends => ?_, fun {trail e} h hdirectory => ?_⟩
  · -- the reported entries are read by the guess, and what the scan takes by its kind
    refine sup_le (sup_le (iSup₂_le fun path hpath => ?_) ?_) ?_
    · obtain ⟨trail, e, hshows, hindexed, rfl⟩ := (mem_reported_iff hlegible hprimary hsuffix
        (isDirectory_of_mem_reported hpath)).mp hpath
      have hreads := readsAsDirectory_iff rules hprimary hshows hindexed
      rw [Pass.Terms.indexEntry_eq (k := settings.terms rules) hshows hlegible hprimary.anchorOf]
      split
      · next hguess =>
        exact sup_le (Pass.Terms.file_le_reading (k := settings.terms rules) hshows
          fun hdirectory => hreads.mp hdirectory hguess) (parent_le_reading hprimary hshows)
      · next hguess =>
        exact Pass.Terms.directory_le_reading (k := settings.terms rules) hshows
          (hreads.mpr hguess)
    · rw [hextra]
      simp
    · rw [Pass.Terms.primaryRoot]
      split
      · next hdirectory =>
        exact Pass.Terms.supplemented_le (k := settings.terms rules) hlegible hprimary.anchorOf
          hdirectory fun name outer e hshows hname =>
            taken_le_reading hlegible hprimary hshows hname
      · exact bot_le
  · -- a file reaches the pass through the scan or through the index
    have hkind : e.isDirectory = false := Bool.eq_false_iff.mpr fun hkind => hfile (.inl hkind)
    by_cases hspecial : ∃ name ∈ trail, ProjectPath.isSpecialName name = true
    · have hle : (settings.terms rules).shown t settings.primaryRoot trail e ≤ _ :=
        shown_le_gathered_of_special_on_way hlegible hprimary hsuffix h hspecial (.inr hends)
      rwa [Pass.Terms.shown, hkind] at hle
    · have hindexed : settings.Indexed trail e := ⟨hplain hspecial, .inr hends⟩
      have hguess := not_not.mp fun hguess =>
        hfile ((readsAsDirectory_iff rules hprimary h hindexed).mpr hguess)
      have hle := hreported h hindexed
      rw [Pass.Terms.indexEntry_eq (k := settings.terms rules) h hlegible hprimary.anchorOf,
        if_pos hguess] at hle
      exact le_sup_left.trans hle
  · by_cases hspecial : ∃ name ∈ trail, ProjectPath.isSpecialName name = true
    · have hkind := (readsAsDirectory_of_special h hspecial).mp hdirectory
      have hle : (settings.terms rules).shown t settings.primaryRoot trail e ≤ _ :=
        shown_le_gathered_of_special_on_way hlegible hprimary hsuffix h hspecial (.inl hkind)
      rwa [Pass.Terms.shown, hkind] at hle
    · have hindexed : settings.Indexed trail e :=
        ⟨hplain hspecial, hdirectory.imp_right MisreadLink.endsWith_eq_false⟩
      have hguess := (readsAsDirectory_iff rules hprimary h hindexed).mp hdirectory
      have hle := hreported h hindexed
      rwa [Pass.Terms.indexEntry_eq (k := settings.terms rules) h hlegible hprimary.anchorOf,
        if_neg hguess] at hle

/-- A walk of an extra root reads everything as what it is. -/
theorem reads_of_walk {dir : Text} (hlegible : t.Legible settings.projectRoot)
    (habsent : t.isDirectory settings.primaryRootPath = false)
    (hextra : settings.acceptedExtraRoots.1 = [dir]) :
    (settings.terms rules).Reads t dir (fun _ e => e.isDirectory = true)
      ((settings.terms rules).gathered t settings (defaultListing t settings)) := by
  have hdir : Path.anchorOf dir = .relative :=
    anchorOf_of_mem_acceptedExtraRoots (hextra ▸ List.mem_cons_self)
  have hshown : ∀ {trail e}, t.Shows settings.projectRoot dir trail e →
      (settings.terms rules).shown t dir trail e ≤
        (settings.terms rules).gathered t settings (defaultListing t settings) :=
    fun h => shown_le_gathered_of_extra hlegible (hextra ▸ List.mem_cons_self) h _
  refine ⟨?_, fun {trail e} h hfile _ => ?_, fun {trail e} h hdirectory => ?_⟩
  · refine sup_le (sup_le (iSup₂_le fun path hpath => ?_) ?_) ?_
    · rw [isDirectory_of_mem_reported hpath] at habsent
      cases habsent
    · rw [hextra]
      refine iSup₂_le fun name hname => ?_
      obtain rfl := List.mem_singleton.mp hname
      rw [Pass.Terms.extraRoot]
      split
      · next hdirectory =>
        refine Pass.Terms.below_le hdirectory hlegible hdir fun trail e h => ?_
        rw [Pass.Terms.shown]
        split
        · next hkind =>
          exact Pass.Terms.directory_le_reading (k := settings.terms rules) h hkind
        · next hkind =>
          exact Pass.Terms.file_le_reading (k := settings.terms rules) h hkind
      · exact bot_le
    · rw [Pass.Terms.primaryRoot, habsent]
      exact bot_le
  · have hle := hshown h
    rwa [Pass.Terms.shown, if_neg hfile] at hle
  · have hle := hshown h
    rwa [Pass.Terms.shown, if_pos hdirectory] at hle

end Settings

/-- What a collection over the default index holds below a directory where its route reads the
entries in some way. -/
theorem mem_collect_of_reads {t : FileTree} (settings : Settings) {lines : List Text} {dir : Text}
    {asDir : Trail → Entry → Prop}
    (h : (settings.terms (Rule.ofLines lines)).Reads t dir asDir
      ((settings.terms (Rule.ofLines lines)).gathered t settings (defaultListing t settings)))
    (hdir : ProjectPath.IsOrdinary dir) (hsuffix : '/' ∉ settings.sidecarSuffix)
    (hreal : ∀ trail, asDir trail .directory) {path : Text}
    (hbelow : ProjectPath.IsBelow dir path) :
    (path ∈ (collect t settings (some (.ofLines lines))).dirs ↔ ∃ trail e,
      t.Shows settings.projectRoot dir trail e ∧ path = ProjectPath.descend dir trail.reverse ∧
        asDir trail e ∧ Rule.ignoresDirectory (Rule.ofLines lines) path = true) ∧
    (Text.endsWith path settings.sidecarSuffix = false →
      (path ∈ (collect t settings (some (.ofLines lines))).files ↔ ∃ trail e,
        t.Shows settings.projectRoot dir trail e ∧ path = ProjectPath.descend dir trail.reverse ∧
          ¬ asDir trail e ∧ Rule.ignores (Rule.ofLines lines) path = true)) := by
  have hfound :
      (collectListing t settings (.ofLines lines) (defaultListing t settings)).found = _ :=
    (collectListing_spec (Matcher.sound_ofLines lines) _).2
  obtain ⟨⟨-, hdirs⟩, -, hfiles⟩ := Pass.result_spec hfound
  obtain ⟨hcompletedDirs, hcompletedFiles⟩ := h.mem_completed hdir hsuffix hreal hbelow
  exact ⟨(hdirs path).trans hcompletedDirs,
    fun hends => (hfiles path).trans (hcompletedFiles hends)⟩

/-- **Where the two routes agree.** Below a directory that is the primary root of one collection
and the only extra root of another, whose own primary root is no directory, both collections hold
the same directories and, but for texts with the ending of sidecars, the same files, except that
they disagree on misread links: to the first such a link is a directory, to the second a file. The
tree may hold links of all kinds, but no backslashes in names. -/
theorem indexed_iff_walked (t : FileTree) (settings : Settings) (lines : List Text)
    {dir absent : Text} (hback : t.NoBackslash) (hroot : settings.projectRoot.toText ≠ ['/', '/'])
    (hsuffix : '/' ∉ settings.sidecarSuffix) (hdir : ProjectPath.IsOrdinary dir)
    (hextra : (extraRoots [some dir] absent).1 = [dir])
    (habsent : t.isDirectory (settings.projectRoot.resolve absent) = false) :
    let indexed := collect t (settings.withPrimary dir) (some (.ofLines lines))
    let walked := collect t (settings.withExtra dir absent) (some (.ofLines lines))
    let Misread := (settings.withPrimary dir).MisreadLink t
    ∀ path, ProjectPath.IsBelow dir path →
      (¬ Misread path → (path ∈ indexed.dirs ↔ path ∈ walked.dirs) ∧
        (Text.endsWith path settings.sidecarSuffix = false →
          (path ∈ indexed.files ↔ path ∈ walked.files))) ∧
      (Misread path →
        (path ∈ indexed.dirs ↔ Rule.ignoresDirectory (Rule.ofLines lines) path = true) ∧
        path ∉ indexed.files ∧ path ∉ walked.dirs ∧
        (path ∈ walked.files ↔ Rule.ignores (Rule.ofLines lines) path = true)) := by
  intro indexed walked Misread path hbelow
  have hlegible : t.Legible settings.projectRoot := ⟨hback, hroot⟩
  have hindex : ((settings.withPrimary dir).terms (Rule.ofLines lines)).Reads t dir
      ((settings.withPrimary dir).ReadsAsDirectory t) _ :=
    Settings.reads_of_index hlegible hdir hsuffix rfl
  have hwalk : ((settings.withExtra dir absent).terms (Rule.ofLines lines)).Reads t dir _ _ :=
    Settings.reads_of_walk hlegible habsent hextra
  obtain ⟨hindexedDirs, hindexedFiles⟩ :=
    mem_collect_of_reads _ hindex hdir hsuffix (fun _ => .inl rfl) hbelow
  obtain ⟨hwalkedDirs, hwalkedFiles⟩ :=
    mem_collect_of_reads _ hwalk hdir hsuffix (fun _ => rfl) hbelow
  constructor
  · -- but for misread links, the index route reads every entry by its kind, as a walk does
    intro hplain
    have hkind : ∀ trail e, path = ProjectPath.descend dir trail.reverse →
        ((settings.withPrimary dir).ReadsAsDirectory t trail e ↔ e.isDirectory = true) := by
      rintro trail e rfl
      exact or_iff_left hplain
    constructor
    · rw [hindexedDirs, hwalkedDirs]
      refine exists₂_congr fun trail e => and_congr_right fun _ => and_congr_right fun heq => ?_
      exact and_congr_left fun _ => hkind trail e heq
    · intro hends
      rw [hindexedFiles hends, hwalkedFiles hends]
      refine exists₂_congr fun trail e => and_congr_right fun _ => and_congr_right fun heq => ?_
      exact and_congr_left fun _ => not_congr (hkind trail e heq)
  · intro hmisread
    have hreads : ∀ trail e, path = ProjectPath.descend dir trail.reverse →
        (settings.withPrimary dir).ReadsAsDirectory t trail e := by
      rintro trail e rfl
      exact .inr hmisread
    obtain ⟨trail, target, hshows, heq, -, hends, -⟩ := hmisread
    -- the text of the link is that of no other entry
    have hlink : ∀ other e, t.Shows settings.projectRoot dir other e →
        path = ProjectPath.descend dir other.reverse → e = .link target :=
      fun other e hother heq' => (Settings.eq_of_shows hother hshows (heq'.symm.trans heq)).2
    refine ⟨hindexedDirs.trans ⟨?_, ?_⟩, fun hfile => ?_, fun hdirectory => ?_,
      (hwalkedFiles hends).trans ⟨?_, ?_⟩⟩
    · rintro ⟨_, _, -, -, -, hignored⟩
      exact hignored
    · exact fun hignored => ⟨trail, _, hshows, heq, hreads trail _ heq, hignored⟩
    · obtain ⟨other, e, -, heq', hfile, -⟩ := (hindexedFiles hends).mp hfile
      exact hfile (hreads other e heq')
    · obtain ⟨other, e, hother, heq', hdirectory, -⟩ := hwalkedDirs.mp hdirectory
      rw [hlink other e hother heq'] at hdirectory
      cases hdirectory
    · rintro ⟨_, _, -, -, -, hignored⟩
      exact hignored
    · exact fun hignored => ⟨trail, _, hshows, heq, Bool.false_ne_true, hignored⟩

/-- A directory of logs that holds a link to the directory above. -/
def linkedLogs : FileTree :=
  ((FileTree.empty.insert [] "Assets".toList .directory).insert ["Assets".toList] "y.log".toList
    .directory).insert ["y.log".toList, "Assets".toList] "old".toList (.link "..".toList)

theorem linkedLogs_noBackslash : linkedLogs.NoBackslash :=
  FileTree.noBackslash_of_entries (by decide)

theorem isOrdinary_assets : ProjectPath.IsOrdinary "Assets".toList := by
  unfold ProjectPath.IsOrdinary
  decide

theorem collect_linkedLogs_walked :
    collect linkedLogs ((Settings.initial (.ofText ['/'])).withExtra "Assets".toList
      "Missing".toList) (some (.ofLines ["*.log".toList, "old".toList])) =
        ⟨["Assets/y.log/old".toList], ["Assets/y.log".toList]⟩ := by
  decide +kernel

/-- The routes agree on the directory, and not on the link in it. -/
theorem linkedLogs_routes :
    let settings := Settings.initial (.ofText ['/'])
    let indexed := collect linkedLogs (settings.withPrimary "Assets".toList)
      (some (.ofLines ["*.log".toList, "old".toList]))
    "Assets/y.log".toList ∈ indexed.dirs ∧ "Assets/y.log".toList ∉ indexed.files ∧
      "Assets/y.log/old".toList ∈ indexed.dirs ∧ "Assets/y.log/old".toList ∉ indexed.files := by
  intro settings indexed
  have hroutes := indexed_iff_walked linkedLogs settings ["*.log".toList, "old".toList]
    linkedLogs_noBackslash (by decide) (by decide) isOrdinary_assets
    (by decide : (extraRoots [some "Assets".toList] "Missing".toList).1 = ["Assets".toList])
    (by decide)
  have hlogs : ¬ (settings.withPrimary "Assets".toList).MisreadLink linkedLogs
      "Assets/y.log".toList := by
    rintro ⟨trail, target, hshows, heq, -⟩
    have hlogs : linkedLogs.Shows settings.projectRoot "Assets".toList ["y.log".toList]
        .directory :=
      ⟨["Assets".toList], by decide, FileTree.visible_singleton.mpr (by decide)⟩
    exact Entry.directory_ne_link target (Settings.eq_of_shows hlogs hshows heq).2
  have hold : (settings.withPrimary "Assets".toList).MisreadLink linkedLogs
      "Assets/y.log/old".toList := by
    refine ⟨["old".toList, "y.log".toList], "..".toList, ⟨["Assets".toList], by decide, ?_⟩,
      by decide, by decide, by decide, by decide +kernel⟩
    refine (FileTree.visible_append_iff (List.cons_ne_nil "old".toList [])
      (List.cons_ne_nil "y.log".toList [])).mpr ⟨?_, ?_⟩
    · exact FileTree.visible_singleton.mpr (by decide)
    · exact FileTree.visible_singleton.mpr (by decide)
  obtain ⟨hdirs, hfiles⟩ := (hroutes "Assets/y.log".toList (by decide)).1 hlogs
  obtain ⟨holdDirs, holdFiles, -⟩ := (hroutes "Assets/y.log/old".toList (by decide)).2 hold
  rw [collect_linkedLogs_walked] at hdirs hfiles
  refine ⟨hdirs.mpr (by decide), fun h => ?_, holdDirs.mpr (by decide), holdFiles⟩
  exact absurd ((hfiles (by decide)).mp h) (by decide)

theorem defaultListing_linkedLogs :
    defaultListing linkedLogs ((Settings.initial (.ofText ['/'])).withPrimary "Assets".toList) =
      ["Assets".toList, "Assets/y.log".toList, "Assets/y.log/old".toList] :=
  Settings.defaultListing_of_pairwise (by decide) (by decide +kernel) (by decide)

/-- A directory with a log, and no links. -/
def plainLog : FileTree :=
  (FileTree.empty.insert [] "Assets".toList .directory).insert ["Assets".toList] "y.log".toList
    (.file .empty 0)

/-- In a project root that is written as two slashes alone, a scan names entries with one of them
in front. -/
theorem defaultListing_plainLog :
    defaultListing plainLog ((Settings.initial (.ofText ['/', '/'])).withPrimary "Assets".toList) =
      ["/Assets".toList, "/Assets/y.log".toList] :=
  Settings.defaultListing_of_pairwise (by decide) (by decide +kernel) (by decide)

/-- With links in the tree the two routes need not agree. Without links they need not agree in a
project root that is written as two slashes alone: a walk leaves one of them in front of what it
names, and the index route takes it away. -/
theorem indexed_not_iff_walked :
    (¬ ∀ (t : FileTree) (settings : Settings) (lines : List Text) (dir absent : Text),
      t.NoBackslash → settings.sidecarSuffix ≠ [] → '/' ∉ settings.sidecarSuffix →
      ProjectPath.IsOrdinary dir → t.isDirectory (settings.projectRoot.resolve dir) = true →
      (extraRoots [some dir] absent).1 = [dir] →
      t.exists? (settings.projectRoot.resolve absent) = .ok false →
      let indexed := collect t (settings.withPrimary dir) (some (.ofLines lines))
      let walked := collect t (settings.withExtra dir absent) (some (.ofLines lines))
      ∀ path, ProjectPath.IsBelow dir path →
        (path ∈ indexed.dirs ↔ path ∈ walked.dirs) ∧
        (Text.endsWith path settings.sidecarSuffix = false →
          (path ∈ indexed.files ↔ path ∈ walked.files))) ∧
    let settings := Settings.initial (.ofText ['/', '/'])
    plainLog.NoLink ∧
      (collect plainLog (settings.withPrimary "Assets".toList)
        (some (.ofLines ["*.log".toList]))).files = ["Assets/y.log".toList] ∧
      (collect plainLog (settings.withExtra "Assets".toList "Missing".toList)
        (some (.ofLines ["*.log".toList]))).files = ["/Assets/y.log".toList] := by
  refine ⟨fun h => ?_, FileTree.noLink_of_entries (by decide), ?_, by decide +kernel⟩
  · have hdirs := (h linkedLogs (.initial (.ofText ['/'])) ["*.log".toList, "old".toList]
      "Assets".toList "Missing".toList linkedLogs_noBackslash (by decide) (by decide)
      isOrdinary_assets (by decide) (by decide) rfl "Assets/y.log/old".toList (by decide)).1
    rw [collect_linkedLogs_walked, collect, defaultListing_linkedLogs] at hdirs
    exact absurd (hdirs.mp (by decide +kernel)) (by decide)
  · rw [collect, defaultListing_plainLog]
    decide +kernel

end IgnoredPaths
