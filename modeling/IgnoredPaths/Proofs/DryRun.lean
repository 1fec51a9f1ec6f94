import IgnoredPaths.Proofs.ExportFrame
import IgnoredPaths.Proofs.Project

/-!
# What a dry run tells of an export

A dry run looks once, before anything is written, which of the listed files are there. An export
looks at each file when its turn comes, in a tree to which it has added. In a tree without links
both see the same: what an export writes lies in its folder, and a path that does not pass through
the folder leads where it has led before. So a dry run tells what an export does, as long as the
export is not given up.

Nothing is said about an export that is given up while it writes, which a dry run does not foresee.

- `Path.Enters`: a path lies at or below a location, or passes there on its way.
- `FileTree.stat_congr`: where paths lead that do not.
- `madeDirs`, `Message.copied?`, `Message.wouldCreate?`, `Message.wouldCopy?`: what an export does
  and what a dry run announces, one path after another.
- `madeDirs_of_none`, `FileTree.IsFolder.exportFiles_of_none`: the loops of an export that is not
  given up.
- `exportCollection_dryRun`: a dry run and the export that it tells of.
- `exportCollection_dryRun_of_long_parent`: a directory whose name is too long for the answer.
-/

namespace IgnoredPaths

/-! ## Where paths lead in a tree without links -/

namespace Path

/-- The location that a path names if there are no links. -/
def location (p : Path) : Location := Step.blindly [] (Step.ofPath p)

/-- A path lies at or below a location, or passes there on its way, if there are no links. -/
def Enters (p : Path) (folder : Location) : Prop :=
  ∃ front, front <+: Step.ofPath p ∧ folder <:+ Step.blindly [] front

end Path

theorem Step.blindly_names (l : Location) (names : List Text) :
    Step.blindly l (names.map .name) = names.reverse ++ l := by
  induction names generalizing l with
  | nil => rfl
  | cons n rest ih =>
    rw [List.map_cons, Step.blindly, ih, List.reverse_cons, List.append_assoc]
    rfl

theorem Step.blindly_append (l : Location) (steps more : List Step) :
    Step.blindly l (steps ++ more) = Step.blindly (Step.blindly l steps) more := by
  induction steps generalizing l with
  | nil => rfl
  | cons step rest ih => cases step <;> exact ih _

namespace Path

variable {folder : Location} {p : Path}

/-- Names that lead on from a path lead on from its location. -/
theorem location_extend (p : Path) {names : List Text} (h : ∀ name ∈ names, LeadsDown name) :
    (p.extend names).location = names.reverse ++ p.location := by
  rw [location, ofPath_extend p h, Step.blindly_append, Step.blindly_names, location]

/-- A path none of whose segments leads up enters a location exactly if it lies there or below. -/
theorem enters_iff (h : upSegment ∉ p.segments) : p.Enters folder ↔ folder <:+ p.location := by
  have hsteps : Step.ofPath p = p.segments.map .name := by
    refine List.map_congr_left fun s hs => Step.ofPiece_eq_name (p.meaningful s hs) ?_
    rintro rfl
    exact h hs
  constructor
  · rintro ⟨front, hfront, hbelow⟩
    rw [hsteps, List.prefix_map_iff] at hfront
    obtain ⟨names, hnames, rfl⟩ := hfront
    rw [Step.blindly_names, List.append_nil] at hbelow
    rw [location, hsteps, Step.blindly_names, List.append_nil]
    exact hbelow.trans (List.reverse_suffix.mpr hnames)
  · exact fun hbelow => ⟨Step.ofPath p, List.prefix_refl _, hbelow⟩

end Path

namespace FileTree

variable {t t' : FileTree} {folder l : Location} {p root parent destination : Path}
  {jump jump' : Location → List Step → Except Fault Spot}

/-- Steps that stay out of a folder lead, in a tree without links, where they lead in a tree that
differs only in the folder. -/
theorem leadFrom_congr (hlink : t.NoLink) (hout : ∀ m, ¬ folder <:+ m → t'.get? m = t.get? m)
    {steps : List Step}
    (h : ∀ front, front <+: steps → ¬ folder <:+ Step.blindly l front) :
    t'.leadFrom jump' l steps = t.leadFrom jump l steps := by
  induction steps generalizing l with
  | nil => rfl
  | cons step rest ih =>
    have hrest : ∀ front, front <+: rest → ¬ folder <:+ Step.blindly l (step :: front) :=
      fun front hfront => h (step :: front) (List.prefix_cons_inj step |>.mpr hfront)
    cases step with
    | here => exact ih hrest
    | up => exact ih hrest
    | name n =>
      have hget : t'.get? (n :: l) = t.get? (n :: l) := hout _ (hrest [] List.nil_prefix)
      simp only [leadFrom, hget]
      cases hentry : t.get? (n :: l) with
      | none => rfl
      | some e =>
        cases e with
        | directory => simp only [ih hrest]
        | file content mtime => rfl
        | link target => exact absurd hentry (hlink _ target)

/-- Where a path leads that stays out of a folder, in a tree that differs only in the folder. -/
theorem stat_congr (hlink : t.NoLink) (hout : ∀ m, ¬ folder <:+ m → t'.get? m = t.get? m)
    (h : ¬ p.Enters folder) : t'.stat p = t.stat p := by
  have hlead : t'.lead maxLinks [] (Step.ofPath p) = t.lead maxLinks [] (Step.ofPath p) :=
    leadFrom_congr hlink hout fun front hfront hbelow => h ⟨front, hfront, hbelow⟩
  rw [stat, stat, spot, spot, hlead]

/-- In a tree without links, steps lead to the location that they name. -/
theorem eq_blindly_of_leadFrom (hlink : t.NoLink) {steps : List Step} {l' : Location} {e : Entry}
    (h : t.leadFrom jump l steps = .ok (.taken l' e)) : l' = Step.blindly l steps := by
  induction steps generalizing l with
  | nil =>
    cases h
    rfl
  | cons step rest ih =>
    cases step with
    | here => exact ih h
    | up => exact ih h
    | name n =>
      simp only [leadFrom] at h
      split at h
      · cases h
      · split at h
        · split at h <;> cases h
        · exact ih h
        · split at h
          · next hnil =>
            cases h
            rw [hnil]
            rfl
          · cases h
        · next target hget => exact absurd hget (hlink _ target)

/-- In a tree without links, a path leads to the location that it names. -/
theorem eq_location_of_stat (hlink : t.NoLink) {e : Entry} (h : t.stat p = .ok (l, e)) :
    l = p.location :=
  eq_blindly_of_leadFrom hlink (stat_eq_ok_iff.mp h).2

/-- In a tree without links it can be told whether a path leads to a directory, if its names are
short enough. -/
theorem isDirectory?_eq (hlink : t.NoLink) (hshort : ∀ s ∈ p.segments, isTooLong s = false) :
    t.isDirectory? p = .ok (t.isDirectory p) := by
  have hfault : ∀ f, t.stat p = .error f → f.meansAbsent = true := by
    intro f h
    rcases fault_of_stat h with habsent | ⟨-, ⟨s, hs, hlong⟩ | ⟨l, target, -, hget, -⟩⟩
    · exact habsent
    · rw [hshort s hs] at hlong
      cases hlong
    · exact absurd hget (hlink l target)
  rw [isDirectory?, find?, isDirectory]
  cases hstat : t.stat p with
  | ok found => rfl
  | error f =>
    simp only [hfault f hstat, if_true]
    rfl

/-! ## Directories that were made -/

/-- The last name of a path has a place in the directory that the path leads to before. -/
theorem place_eq_ok {name : Text} (h : t.place p = .ok (l, name)) :
    t.stat p.parent = .ok (l, .directory) ∧ p = p.parent.extend [name] ∧ LeadsDown name := by
  rw [place] at h
  split at h
  · cases h
  · next last hlast =>
    have hsegment : IsSegment last := p.meaningful last (List.mem_of_getLast? hlast)
    have hself : p = p.parent.extend [last] := (Path.parent_extend_of_getLast? hlast).symm
    split at h
    · cases h
    · split at h
      · cases h
      · cases h
      · next l' e hspot =>
        split at h
        · cases h
        · next hdirectory =>
          split at h
          · cases h
          · next hup =>
            split at h
            · cases h
            · cases h
              rw [Bool.not_eq_true, Bool.not_eq_false'] at hdirectory
              refine ⟨?_, hself, hsegment, hup⟩
              rw [stat, hspot, eq_directory hdirectory]

theorem stat_of_makeDirectory (h : t.makeDirectory p = (t', none)) :
    ∃ l, t'.stat p = .ok (l, .directory) := by
  cases hplace : t.place p with
  | error f =>
    rw [makeDirectory, makeEntry, hplace] at h
    cases h
  | ok found =>
    obtain ⟨l, name⟩ := found
    obtain ⟨hparent, hself, hname⟩ := place_eq_ok hplace
    rw [hself] at h ⊢
    rcases makeDirectory_extend hparent hname with ⟨hadmits, hmake⟩ | ⟨-, f, -, hmake⟩
    · rw [hmake] at h
      cases h
      exact ⟨name :: l, (isFolder_insert hparent hadmits).stat⟩
    · rw [hmake] at h
      cases h

theorem isDirectory_of_forgiving {existing : Bool}
    (h : forgiving existing p (t.makeDirectory p) = (t', none)) : t'.isDirectory p = true := by
  cases hmake : t.makeDirectory p with
  | mk t₁ fault =>
    rw [hmake] at h
    cases fault with
    | none =>
      cases h
      exact isDirectory_iff.mpr (stat_of_makeDirectory hmake)
    | some f =>
      rw [forgiving] at h
      split at h
      · next hthere =>
        cases h
        exact (Bool.and_eq_true_iff.mp hthere).2
      · cases h

/-- A directory that was made, or was there already, is there. -/
theorem isDirectory_of_makeDirectories {existing : Bool}
    (h : t.makeDirectories p existing = (t', none)) : t'.isDirectory p = true := by
  rw [makeDirectories] at h
  cases hlength : p.segments.length with
  | zero =>
    rw [hlength] at h
    exact isDirectory_of_forgiving h
  | succ above =>
    rw [hlength, makeDirectoriesUpTo] at h
    split at h
    · split at h
      · cases h
      · exact isDirectory_of_forgiving h
    · exact isDirectory_of_forgiving h

theorem Fills.isDirectory (h : Fills folder t t') (hp : t.isDirectory p = true) :
    t'.isDirectory p = true := by
  obtain ⟨l, hl⟩ := isDirectory_iff.mp hp
  exact isDirectory_iff.mpr ⟨l, stat_mono h.kept (h.directory l (get?_of_stat hl)) hl⟩

end FileTree

/-! ## What is announced and what is done -/

/-- The path that a file was copied from, if this is what a message says. -/
def Message.copied? : Message → Option Text
  | .copied path => some path
  | _ => none

/-- The path that a dry run announces in the words given, if it does so in a message. -/
def Message.announced? (words : Text) : Message → Option Text
  | .info [.dryRun, .text s, .path path] => if s = words then some path else none
  | _ => none

/-- The directory that a dry run says it would create. -/
def Message.wouldCreate? : Message → Option Text := announced? " Would create ".toList

/-- The file that a dry run says it would copy. -/
def Message.wouldCopy? : Message → Option Text := announced? " Would copy ".toList

/-- A dry run announces the directories first, with a slash at the end. -/
theorem filterMap_wouldCreate (dirs files : List Text) (destination : Path) :
    (dryRunMessages dirs files destination).filterMap Message.wouldCreate? =
      dirs.map (· ++ ['/']) := by
  have hfiles : files.filterMap (Message.wouldCreate? ∘ fun file =>
      .info [.dryRun, .text " Would copy ".toList, .path file]) = [] :=
    List.filterMap_eq_nil_iff.mpr fun _ _ => rfl
  rw [dryRunMessages, List.filterMap_append, List.filterMap_append, List.filterMap_map,
    List.filterMap_map, hfiles, List.append_nil]
  exact congrFun (List.filterMap_eq_map (f := fun dir : Text => dir ++ ['/'])) dirs

/-- A dry run announces the files after the directories. -/
theorem filterMap_wouldCopy (dirs files : List Text) (destination : Path) :
    (dryRunMessages dirs files destination).filterMap Message.wouldCopy? = files := by
  have hdirs : dirs.filterMap (Message.wouldCopy? ∘ fun dir =>
      .info [.dryRun, .text " Would create ".toList, .path (dir ++ ['/'])]) = [] :=
    List.filterMap_eq_nil_iff.mpr fun _ _ => rfl
  rw [dryRunMessages, List.filterMap_append, List.filterMap_append, List.filterMap_map,
    List.filterMap_map, hdirs, List.append_nil]
  exact List.filterMap_some

/-- The directories that an export makes one after another, until one cannot be made. -/
def madeDirs (destination : Path) : List Text → FileTree → List Text
  | [], _ => []
  | dir :: rest, t =>
    match t.makeDirectories (destination.resolve dir) true with
    | (_, some _) => []
    | (t, none) => dir :: madeDirs destination rest t

/-- What an export says about a file, by whether it is there. -/
def fileMessage (present : Text → Bool) (file : Text) : Message :=
  if present file then .copied file else .skipped file "missing".toList

theorem filterMap_copied (present : Text → Bool) (files : List Text) :
    (files.map (fileMessage present)).filterMap Message.copied? = files.filter present := by
  induction files with
  | nil => rfl
  | cons file rest ih =>
    rw [List.map_cons, List.filterMap_cons, ih, fileMessage]
    cases hpresent : present file with
    | false => exact (List.filter_cons_of_neg (by simp [hpresent])).symm
    | true => exact (List.filter_cons_of_pos hpresent).symm

/-! ## The loops of an export that is not given up -/

/-- The directories are counted as they are made. -/
theorem dirsCreated_exportDirs (destination : Path) (dirs : List Text) (s : ExportState) :
    (exportDirs destination dirs s).1.dirsCreated =
      s.dirsCreated + (madeDirs destination dirs s.tree).length := by
  induction dirs generalizing s with
  | nil => rfl
  | cons dir rest ih =>
    rw [exportDirs]
    split
    · next hmake =>
      rw [madeDirs, hmake]
      rfl
    · next tree hmake =>
      rw [ih, madeDirs, hmake]
      exact Nat.add_right_comm s.dirsCreated 1 (madeDirs destination rest tree).length

/-- Nothing is said about directories, and no file is counted with them. -/
theorem exportDirs_kept (destination : Path) (dirs : List Text) (s : ExportState) :
    (exportDirs destination dirs s).1.filesCopied = s.filesCopied ∧
      (exportDirs destination dirs s).1.messages = s.messages := by
  induction dirs generalizing s with
  | nil => exact ⟨rfl, rfl⟩
  | cons dir rest ih =>
    rw [exportDirs]
    split
    · exact ⟨rfl, rfl⟩
    · exact ih _

/-- If no directory fails, all are made. -/
theorem madeDirs_of_none {destination : Path} {dirs : List Text} {s s' : ExportState}
    (h : exportDirs destination dirs s = (s', none)) : madeDirs destination dirs s.tree = dirs := by
  induction dirs generalizing s with
  | nil => rfl
  | cons dir rest ih =>
    rw [exportDirs] at h
    split at h
    · cases h
    · next tree hmake =>
      rw [madeDirs, hmake]
      exact congrArg (dir :: ·) (ih h)

namespace FileTree

variable {t t' : FileTree} {folder l : Location} {p root parent destination : Path}

namespace IsFolder

/-- If no directory fails, all are there. -/
theorem isDirectory_of_exportDirs {dirs : List Text} {s s' : ExportState}
    (hfolder : s.tree.IsFolder destination folder)
    (hdirs : ∀ dir ∈ dirs, ProjectPath.StaysInside dir)
    (h : IgnoredPaths.exportDirs destination dirs s = (s', none)) :
    ∀ dir ∈ dirs, s'.tree.isDirectory (destination.resolve dir) = true := by
  induction dirs generalizing s with
  | nil => exact List.forall_mem_nil _
  | cons dir rest ih =>
    have hdir := hdirs dir List.mem_cons_self
    have hrest : ∀ d ∈ rest, ProjectPath.StaysInside d :=
      fun d hd => hdirs d (List.mem_cons_of_mem dir hd)
    rw [IgnoredPaths.exportDirs] at h
    split at h
    · cases h
    · next tree hmake =>
      have hone := hfolder.fills_makeDirectories hdir.leadsDown true
      rw [← hdir.resolve, hmake] at hone
      have htree := hfolder.of_fills hone
      intro d hd
      rcases List.mem_cons.mp hd with rfl | hd
      · have hmore := @fills_exportDirs _ _ _ ⟨tree, s.dirsCreated + 1, s.filesCopied, s.messages⟩
          htree hrest
        rw [h] at hmore
        exact hmore.isDirectory (isDirectory_of_makeDirectories hmake)
      · exact @ih ⟨tree, s.dirsCreated + 1, s.filesCopied, s.messages⟩ htree hrest h d hd

/-- If no file fails, those are copied that were there before anything was written, and the others
are passed over. -/
theorem exportFiles_of_none {files : List Text} {s s' : ExportState}
    (hlink : t.NoLink) (hfills : Fills folder t s.tree)
    (hfolder : s.tree.IsFolder destination folder)
    (hfiles : ∀ file ∈ files, ProjectPath.StaysInside file)
    (houtside : ∀ file ∈ files, ¬ (root.resolve file).Enters folder)
    (h : IgnoredPaths.exportFiles root destination files s = (s', none)) :
    let present := fun file => t.isFile (root.resolve file)
    s'.filesCopied = s.filesCopied + (files.filter present).length ∧
      s'.dirsCreated = s.dirsCreated ∧
        s'.messages = s.messages ++ files.map (fileMessage present) := by
  intro present
  induction files generalizing s with
  | nil =>
    cases h
    exact ⟨rfl, rfl, (List.append_nil _).symm⟩
  | cons file rest ih =>
    have hrest : ∀ f ∈ rest, ProjectPath.StaysInside f :=
      fun f hf => hfiles f (List.mem_cons_of_mem file hf)
    have houtsideRest : ∀ f ∈ rest, ¬ (root.resolve f).Enters folder :=
      fun f hf => houtside f (List.mem_cons_of_mem file hf)
    -- what was written so far lies in the folder, so the file is there as it was before
    have hsame : s.tree.isFile (root.resolve file) = present file := by
      show s.tree.isFile _ = t.isFile _
      rw [isFile, isFile, stat_congr hlink hfills.outside (houtside file List.mem_cons_self)]
    simp only [IgnoredPaths.exportFiles, hsame] at h
    cases hpresent : present file with
    | false =>
      simp only [hpresent, Bool.false_eq_true, if_false] at h
      obtain ⟨hcopied, hdirs, hsaid⟩ :=
        @ih { s with messages := s.messages ++ [.skipped file "missing".toList] } hfills hfolder
          hrest houtsideRest h
      refine ⟨?_, hdirs, ?_⟩
      · rw [hcopied, List.filter_cons_of_neg (by simp [hpresent])]
      · rw [hsaid, List.append_assoc, List.map_cons, fileMessage, hpresent]
        rfl
    | true =>
      simp only [hpresent, if_true] at h
      split at h
      · cases h
      · next tree hexport =>
        have hone := hfolder.fills_exportFile (root.resolve file) (hfiles file List.mem_cons_self)
        rw [hexport] at hone
        obtain ⟨hcopied, hdirs, hsaid⟩ :=
          ih (hfills.trans hone) (hfolder.of_fills hone) hrest houtsideRest h
        refine ⟨?_, hdirs, ?_⟩
        · rw [hcopied, List.filter_cons_of_pos hpresent]
          exact Nat.add_right_comm s.filesCopied 1 (rest.filter present).length
        · rw [hsaid, List.append_assoc, List.map_cons, fileMessage, hpresent]
          rfl

end IsFolder

end FileTree

/-! ## The dry run and the export -/

/-- Whether an error is about the export, and not about a path of which nothing can be told. -/
def ExportError.isRefusal : ExportError → Bool
  | .unclear _ => false
  | _ => true

section

variable {t : FileTree} {c : Collection} {root parent destination : Path} {name : Text}

/-- What an export is refused for, if it can be told whether there is a directory to receive it. -/
theorem destinationOf_refusal_iff (hparent : t.isDirectory? parent = .ok (t.isDirectory parent)) :
    (∃ e, destinationOf t parent name = .error e ∧ e.isRefusal = true) ↔
      checkFolderName name ≠ .ok () ∨ t.isDirectory parent = false := by
  rw [destinationOf]
  cases hcheck : checkFolderName name with
  | error e => exact iff_of_true ⟨_, rfl, rfl⟩ (.inl (by simp))
  | ok =>
    rw [hparent]
    cases t.isDirectory parent with
    | false => exact iff_of_true ⟨_, rfl, rfl⟩ (.inr rfl)
    | true =>
      refine iff_of_false ?_ (by simp)
      rintro ⟨e, he, hrefusal⟩
      simp only at he
      split at he
      · cases he
        cases hrefusal
      · cases he

/-- A dry run answers with an error exactly if there is no folder to export to. -/
theorem answer_dryRun_eq_error {e : ExportError} :
    (exportCollection t c root parent name true).answer = .error e ↔
      destinationOf t parent name = .error e := by
  rw [exportCollection]
  cases destinationOf t parent name with
  | error e' => simp
  | ok destination => simp

/-- What a dry run says if there is a folder to export to. -/
theorem exportCollection_dryRun_of_ok (h : destinationOf t parent name = .ok destination) :
    exportCollection t c root parent name true =
      let present := c.files.filter fun file => t.isFile (root.resolve file)
      ⟨.ok ⟨destination, c.dirs.length, present.length⟩, t,
        dryRunMessages c.dirs present destination⟩ := by
  rw [exportCollection, h]
  rfl

/-- An export that is not given up has filled its folder. -/
theorem exportCollection_eq_ok (h : destinationOf t parent name = .ok destination)
    {summary : ExportSummary}
    (hok : (exportCollection t c root parent name false).answer = .ok summary) :
    ∃ s, fillFolder t c root destination = (s, none) ∧
      exportCollection t c root parent name false =
        ⟨.ok ⟨destination, s.dirsCreated, s.filesCopied⟩, s.tree, s.messages⟩ := by
  simp only [exportCollection, h, Bool.false_eq_true, if_false] at hok ⊢
  split at hok
  · cases hok
  · next s hfill => exact ⟨s, hfill, rfl⟩

/-- What an export has done that is not given up. -/
theorem fillFolder_of_none {l : Location} {s : ExportState} (hlink : t.NoLink)
    (hinside : c.StaysInside) (hparent : t.stat parent = .ok (l, .directory))
    (hname : LeadsDown name)
    (houtside : ∀ file ∈ c.files, ¬ (root.resolve file).Enters (name :: l))
    (h : fillFolder t c root (parent.extend [name]) = (s, none)) :
    let present := fun file => t.isFile (root.resolve file)
    madeDirs (parent.extend [name]) c.dirs (t.makeDirectories (parent.extend [name]) false).1 =
        c.dirs ∧
      s.dirsCreated = c.dirs.length ∧
      (∀ dir ∈ c.dirs, s.tree.isDirectory ((parent.extend [name]).resolve dir) = true) ∧
      s.filesCopied = (c.files.filter present).length ∧
      s.messages = c.files.map (fileMessage present) := by
  intro present
  have hdirs : ∀ dir ∈ c.dirs, ProjectPath.StaysInside dir :=
    fun dir hdir => hinside dir (List.mem_append_left c.files hdir)
  have hfiles : ∀ file ∈ c.files, ProjectPath.StaysInside file :=
    fun file hfile => hinside file (List.mem_append_right c.dirs hfile)
  rcases FileTree.makeDirectories_extend_of_stat hparent hname with
    ⟨hadmits, hmake⟩ | ⟨-, f, hmake⟩
  · have hnew : FileTree.Fills (name :: l) t (t.insert l name .directory) :=
      .insert (List.suffix_refl _) Entry.directory_ne_link
    have hfolder := FileTree.isFolder_insert hparent hadmits
    rw [fillFolder, hmake] at h
    simp only at h
    split at h
    · cases h
    · next s₁ hexport =>
      have hcount := dirsCreated_exportDirs (parent.extend [name]) c.dirs
        ⟨t.insert l name .directory, 0, 0, []⟩
      have hthere := FileTree.IsFolder.isDirectory_of_exportDirs hfolder hdirs hexport
      have hfills := @FileTree.IsFolder.fills_exportDirs _ _ _
        ⟨t.insert l name .directory, 0, 0, []⟩ hfolder hdirs
      have hmade := madeDirs_of_none hexport
      obtain ⟨hnone, hsilent⟩ := exportDirs_kept (parent.extend [name]) c.dirs
        ⟨t.insert l name .directory, 0, 0, []⟩
      rw [hexport] at hcount hfills hnone hsilent
      have hfolder₁ := hfolder.of_fills hfills
      obtain ⟨hcopied, hkept, hsaid⟩ :=
        hfolder₁.exportFiles_of_none hlink (hnew.trans hfills) hfiles houtside h
      have hmore : FileTree.Fills (name :: l) s₁.tree
          (exportFiles root (parent.extend [name]) c.files s₁).1.tree :=
        hfolder₁.fills_exportFiles hfiles
      rw [h] at hmore
      refine ⟨?_, ?_, fun dir hdir => hmore.isDirectory (hthere dir hdir), ?_, ?_⟩
      · rw [hmake]
        exact hmade
      · rw [hkept, hcount, hmade]
        exact Nat.zero_add _
      · rw [hcopied, hnone]
        exact Nat.zero_add _
      · rw [hsaid, hsilent]
        rfl
  · rw [fillFolder, hmake] at h
    cases h

/-- **A dry run tells of the export.** In a tree without links, for any collection of paths that
stay inside: a dry run is refused exactly if the name of the folder is wrong or there is no
directory to receive it, unless a name on the way to that directory is too long to look at. The
export then gives the same error. If the dry run is not refused, no listed file lies at or below
the folder that it announces and the export is not given up, then both give the same summary, the
directories that are announced are, in their order, those that the export makes, all of them are
there in the end, and the files that are announced are, in their order, those that it copies. -/
theorem exportCollection_dryRun (hlink : t.NoLink) (hinside : c.StaysInside) (root parent : Path)
    (name : Text) :
    let dry := exportCollection t c root parent name true
    let real := exportCollection t c root parent name false
    ((∀ s ∈ parent.segments, isTooLong s = false) →
      ((∃ e, dry.answer = .error e ∧ e.isRefusal = true) ↔
        checkFolderName name ≠ .ok () ∨ t.isDirectory parent = false)) ∧
    (∀ e, dry.answer = .error e → real.answer = .error e) ∧
    ∀ announced, dry.answer = .ok announced →
      (∀ file ∈ c.files, ¬ (root.resolve file).Enters announced.destination.location) →
      ∀ summary, real.answer = .ok summary →
        summary = announced ∧
        dry.messages.filterMap Message.wouldCreate? =
          (madeDirs summary.destination c.dirs
            (t.makeDirectories summary.destination false).1).map (· ++ ['/']) ∧
        (∀ dir ∈ c.dirs, real.tree.isDirectory (summary.destination.resolve dir) = true) ∧
        dry.messages.filterMap Message.wouldCopy? = real.messages.filterMap Message.copied? := by
  intro dry real
  refine ⟨fun hshort => ?_, fun e he => ?_, fun announced hdry houtside summary hreal => ?_⟩
  · rw [← destinationOf_refusal_iff (FileTree.isDirectory?_eq hlink hshort)]
    exact exists_congr fun e => and_congr_left' answer_dryRun_eq_error
  · show (exportCollection t c root parent name false).answer = _
    rw [exportCollection_of_error (answer_dryRun_eq_error.mp he)]
  · cases hdestination : destinationOf t parent name with
    | error e =>
      have hrefused : dry.answer = .error e := answer_dryRun_eq_error.mpr hdestination
      rw [hdry] at hrefused
      cases hrefused
    | ok destination =>
      obtain ⟨hcheck, ⟨l, hparent⟩, hfree⟩ := destinationOf_eq_ok hdestination
      have hname := leadsDown_of_checkFolderName hcheck
      obtain ⟨n, rfl, -⟩ := freeFolder_eq_ok hname hfree
      have hnumbered := leadsDown_numberedName hname n
      have hdryRun : dry = _ := exportCollection_dryRun_of_ok hdestination
      rw [hdryRun] at hdry
      cases hdry
      -- without links, the folder is at the location that its path names
      have hlocation : (parent.extend [numberedName name n]).location =
          numberedName name n :: l := by
        rw [Path.location_extend parent fun s hs => List.mem_singleton.mp hs ▸ hnumbered,
          ← FileTree.eq_location_of_stat hlink hparent]
        rfl
      obtain ⟨s, hfill, hrun⟩ := exportCollection_eq_ok hdestination hreal
      have hrun : real = _ := hrun
      obtain ⟨hmade, hcreated, hthere, hcopied, hsaid⟩ :=
        fillFolder_of_none hlink hinside hparent hnumbered (hlocation ▸ houtside) hfill
      rw [hrun] at hreal
      cases hreal
      refine ⟨by rw [hcreated, hcopied], ?_, hrun ▸ hthere, ?_⟩
      · rw [hdryRun, hmade]
        exact filterMap_wouldCreate ..
      · rw [hdryRun, hrun, hsaid, filterMap_copied]
        exact filterMap_wouldCopy ..

end

/-- A project with one of the files that are listed in it. -/
def halfProject : FileTree :=
  (FileTree.empty.insert [] ['p'] .directory).insert [['p']] "a.txt".toList (.file .empty 1)

/-- A dry run tells which of two listed files an export copies, and both count the directories. -/
theorem halfProject_dryRun :
    let c : Collection := ⟨["a.txt".toList, "gone.txt".toList], ["d".toList, "d/e".toList]⟩
    let root := Path.ofText "/p".toList
    let dry := exportCollection halfProject c root root "out".toList true
    let real := exportCollection halfProject c root root "out".toList false
    halfProject.NoLink ∧ c.StaysInside ∧ (∀ s ∈ root.segments, isTooLong s = false) ∧
      (∀ e, dry.answer = .error e → e.isRefusal = false) ∧
      (∀ file ∈ c.files, ¬ (root.resolve file).Enters ["out".toList, "p".toList]) ∧
      real.answer = .ok ⟨.ofText "/p/out".toList, 2, 1⟩ ∧
      dry.answer = real.answer ∧
      dry.messages.filterMap Message.wouldCopy? = real.messages.filterMap Message.copied? := by
  intro c root dry real
  have hlink : halfProject.NoLink := FileTree.noLink_of_entries (by decide)
  have hinside : c.StaysInside := by decide
  obtain ⟨hrefused, -, htold⟩ :=
    exportCollection_dryRun hlink hinside root root "out".toList
  have hreal : real.answer = .ok ⟨.ofText "/p/out".toList, 2, 1⟩ := by decide +kernel
  have hdry : dry.answer = .ok ⟨.ofText "/p/out".toList, 2, 1⟩ := by decide +kernel
  have houtside : ∀ file ∈ c.files,
      ¬ (root.resolve file).Enters ["out".toList, "p".toList] := by
    intro file hfile
    have hup : upSegment ∉ (root.resolve file).segments := by
      revert file
      decide
    rw [Path.enters_iff hup]
    revert file
    decide
  have hshort : ∀ s ∈ root.segments, isTooLong s = false := by decide
  refine ⟨hlink, hinside, hshort, fun e he => ?_, houtside, hreal, hdry.trans hreal.symm,
    (htold _ hdry houtside _ hreal).2.2.2⟩
  by_contra hrefusal
  have := (hrefused hshort).mp ⟨e, he, Bool.not_eq_false _ |>.mp hrefusal⟩
  revert this
  decide

/-- There is no directory with a name that is too long, and a dry run that is to export there is
not refused for this. It is given up, as the export is. -/
theorem exportCollection_dryRun_of_long_parent :
    let c : Collection := ⟨[], []⟩
    let parent := Path.ofText ('/' :: List.replicate 256 'a')
    let dry := exportCollection .empty c (.ofText ['/']) parent "out".toList true
    let real := exportCollection .empty c (.ofText ['/']) parent "out".toList false
    FileTree.empty.NoLink ∧ c.StaysInside ∧ FileTree.empty.isDirectory parent = false ∧
      dry.answer = .error (.unclear .nameTooLong) ∧ real.answer = .error (.unclear .nameTooLong) ∧
      ¬ ∃ e, dry.answer = .error e ∧ e.isRefusal = true := by
  intro c parent dry real
  have hdry : dry.answer = .error (.unclear .nameTooLong) := by decide +kernel
  refine ⟨FileTree.noLink_of_entries (by decide), by decide, by decide +kernel, hdry,
    by decide +kernel, ?_⟩
  rintro ⟨e, he, hrefusal⟩
  rw [hdry] at he
  cases he
  cases hrefusal

end IgnoredPaths
