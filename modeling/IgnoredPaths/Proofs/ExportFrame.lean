import IgnoredPaths.Export
import IgnoredPaths.Proofs.FreeFolder
import IgnoredPaths.Proofs.Write

/-!
# What an export leaves alone

An export makes one new directory. Nothing has been below it, so no link is, and listed paths
that stay inside lead on from it only further down. So all that is written lies at and below the
new directory, in whatever order the paths are listed, and also if the export is given up.

Nothing is said here about what an export writes.

- `Collection.StaysInside`: the collections that may be exported.
- `FileTree.IsFolder.fills_exportDirs`, `FileTree.IsFolder.fills_exportFiles`: the loops of an
  export.
- `ExportCall.run_fills`: what one export can do to the tree.
- `ExportCall.run_frame`: one export with others after it.
-/

namespace IgnoredPaths

/-- A collection whose paths lead on from any directory. -/
def Collection.StaysInside (c : Collection) : Prop :=
  ∀ path ∈ c.dirs ++ c.files, ProjectPath.StaysInside path

instance (c : Collection) : Decidable c.StaysInside := inferInstanceAs (Decidable (∀ _ ∈ _, _))

namespace FileTree

variable {t t' : FileTree} {folder l : Location} {p root destination : Path} {name : Text}

/-! ## The loops of an export -/

namespace IsFolder

theorem fills_exportDirs {dirs : List Text} {s : ExportState}
    (h : s.tree.IsFolder destination folder) (hdirs : ∀ dir ∈ dirs, ProjectPath.StaysInside dir) :
    Fills folder s.tree (exportDirs destination dirs s).1.tree := by
  induction dirs generalizing s with
  | nil => exact .refl folder s.tree
  | cons dir rest ih =>
    have hdir := hdirs dir List.mem_cons_self
    have hone := h.fills_makeDirectories hdir.leadsDown true
    rw [exportDirs, hdir.resolve]
    split
    · next tree f hmake =>
      rw [hmake] at hone
      exact hone
    · next tree hmake =>
      rw [hmake] at hone
      refine hone.trans (@ih ⟨tree, _, _, _⟩ (h.of_fills hone) fun d hd => ?_)
      exact hdirs d (List.mem_cons_of_mem dir hd)

theorem fills_exportFile (h : t.IsFolder destination folder) (source : Path) {file : Text}
    (hfile : ProjectPath.StaysInside file) :
    Fills folder t (exportFile t source (destination.resolve file)).1 := by
  have habove := h.fills_makeDirectories_parent hfile.leadsDown true
  rw [exportFile, hfile.resolve]
  split
  · next tree f hmake =>
    rw [hmake] at habove
    exact habove
  · next tree hmake =>
    rw [hmake] at habove
    exact habove.trans ((h.of_fills habove).fills_copyFile source hfile.leadsDown)

theorem fills_exportFiles {files : List Text} {s : ExportState}
    (h : s.tree.IsFolder destination folder)
    (hfiles : ∀ file ∈ files, ProjectPath.StaysInside file) :
    Fills folder s.tree (exportFiles root destination files s).1.tree := by
  induction files generalizing s with
  | nil => exact .refl folder s.tree
  | cons file rest ih =>
    have hrest : ∀ f ∈ rest, ProjectPath.StaysInside f :=
      fun f hf => hfiles f (List.mem_cons_of_mem file hf)
    have hone := h.fills_exportFile (root.resolve file) (hfiles file List.mem_cons_self)
    simp only [exportFiles]
    split
    · split
      · next tree f hexport =>
        rw [hexport] at hone
        exact hone
      · next tree hexport =>
        rw [hexport] at hone
        exact hone.trans (@ih ⟨tree, _, _, _⟩ (h.of_fills hone) hrest)
    · exact @ih { s with messages := s.messages ++ [.skipped file "missing".toList] } h hrest

end IsFolder

end FileTree

/-! ## One export -/

/-- What an export is asked to do. -/
structure ExportCall where
  collection : Collection
  /-- The directory that the listed paths are relative to. -/
  root : Path
  /-- The directory that receives the folder. -/
  parent : Path
  name : Text
  dryRun : Bool

/-- The export that is asked for. -/
def ExportCall.run (call : ExportCall) (t : FileTree) : ExportRun :=
  exportCollection t call.collection call.root call.parent call.name call.dryRun

variable {t : FileTree}

/-- The folder of an export is made and filled, or nothing is done. -/
theorem fillFolder_fills {c : Collection} (hinside : c.StaysInside) (root : Path) {parent : Path}
    {l : Location} (hparent : t.stat parent = .ok (l, .directory)) {name : Text}
    (hname : LeadsDown name) :
    let tree := (fillFolder t c root (parent.extend [name])).1.tree
    tree = t ∨ t.get? (name :: l) = none ∧ FileTree.Fills (name :: l) t tree ∧
      tree.IsFolder (parent.extend [name]) (name :: l) := by
  intro tree
  rcases FileTree.makeDirectories_extend_of_stat hparent hname with
    ⟨hadmits, hmake⟩ | ⟨-, f, hmake⟩
  · have hdirs : ∀ dir ∈ c.dirs, ProjectPath.StaysInside dir :=
      fun dir hdir => hinside dir (List.mem_append_left c.files hdir)
    have hfiles : ∀ file ∈ c.files, ProjectPath.StaysInside file :=
      fun file hfile => hinside file (List.mem_append_right c.dirs hfile)
    have hnew : FileTree.Fills (name :: l) t (t.insert l name .directory) :=
      .insert (List.suffix_refl _) nofun
    have hfolder := FileTree.isFolder_insert hparent hadmits
    have hmade := @FileTree.IsFolder.fills_exportDirs _ _ _ ⟨t.insert l name .directory, 0, 0, []⟩
      hfolder hdirs
    have hall : FileTree.Fills (name :: l) (t.insert l name .directory) tree := by
      show FileTree.Fills _ _ (fillFolder t c root (parent.extend [name])).1.tree
      rw [fillFolder, hmake]
      simp only
      split
      · next s f hexport =>
        rw [hexport] at hmade
        exact hmade
      · next s hexport =>
        rw [hexport] at hmade
        exact hmade.trans ((hfolder.of_fills hmade).fills_exportFiles hfiles)
    exact .inr ⟨hadmits.2.2, hnew.trans hall, hfolder.of_fills hall⟩
  · refine .inl ?_
    show (fillFolder t c root (parent.extend [name])).1.tree = t
    rw [fillFolder, hmake]

/-- The tree after an export that is no dry run. -/
theorem exportCollection_tree {c : Collection} {root parent destination : Path} {name : Text}
    (h : destinationOf t parent name = .ok destination) :
    (exportCollection t c root parent name false).tree =
      (fillFolder t c root destination).1.tree := by
  simp only [exportCollection, h, Bool.false_eq_true, if_false]
  split <;> next hfill => rw [hfill]

/-- What one export can do to the tree: nothing, or to make and fill a folder at which nothing
was. -/
theorem ExportCall.run_fills {call : ExportCall} (hinside : call.collection.StaysInside)
    (t : FileTree) :
    (call.run t).tree = t ∨ call.dryRun = false ∧ ∃ destination folder,
      destinationOf t call.parent call.name = .ok destination ∧ t.get? folder = none ∧
        FileTree.Fills folder t (call.run t).tree ∧
          (call.run t).tree.IsFolder destination folder := by
  rw [run]
  cases hdestination : destinationOf t call.parent call.name with
  | error e => exact .inl (by rw [exportCollection, hdestination])
  | ok destination =>
    obtain ⟨hcheck, ⟨l, hparent⟩, hfree⟩ := destinationOf_eq_ok hdestination
    have hname := leadsDown_of_checkFolderName hcheck
    obtain ⟨n, rfl, -⟩ := freeFolder_eq_ok hname hfree
    cases call.dryRun with
    | true => exact .inl (by rw [exportCollection, hdestination]; rfl)
    | false =>
      have hfill := fillFolder_fills hinside call.root hparent (leadsDown_numberedName hname n)
      rw [exportCollection_tree hdestination]
      rcases hfill with hsame | ⟨hvacant, hfills, hfolder⟩
      · exact .inl hsame
      · exact .inr ⟨rfl, _, _, rfl, hvacant, hfills, hfolder⟩

/-! ## Exports one after another -/

/-- The tree after some exports. -/
def exportAll (t : FileTree) (calls : List ExportCall) : FileTree :=
  calls.foldl (fun t call => (call.run t).tree) t

/-- An export keeps all that was there. -/
theorem ExportCall.kept {call : ExportCall} (h : call.collection.StaysInside) {l : Location}
    {e : Entry} (he : t.get? l = some e) : (call.run t).tree.get? l = some e := by
  rcases run_fills h t with hsame | ⟨-, _, _, -, hvacant, hfills, -⟩
  · rw [hsame, he]
  · exact hfills.kept_of_vacant hvacant he

/-- What is new after an export lies at or below the folder that it has chosen. -/
theorem ExportCall.below_of_new {call : ExportCall} (h : call.collection.StaysInside)
    {l : Location} {e : Entry} (he : (call.run t).tree.get? l = some e) (hnew : t.get? l = none) :
    ∃ destination folder, freeFolder t (call.parent.resolve call.name) = .ok destination ∧
      (call.run t).tree.stat destination = .ok (folder, .directory) ∧ folder <:+ l := by
  rcases run_fills h t with hsame | ⟨-, destination, folder, hdestination, -, hfills, hfolder⟩
  · rw [hsame, hnew] at he
    cases he
  · refine ⟨destination, folder, (destinationOf_eq_ok hdestination).2.2, hfolder.stat, ?_⟩
    by_contra hl
    rw [hfills.outside l hl, hnew] at he
    cases he

/-- Exports one after another keep all that was there. -/
theorem exportAll_kept {calls : List ExportCall}
    (h : ∀ call ∈ calls, call.collection.StaysInside) {l : Location} {e : Entry}
    (he : t.get? l = some e) : (exportAll t calls).get? l = some e := by
  induction calls generalizing t with
  | nil => exact he
  | cons call rest ih =>
    have hone := call.kept (h call List.mem_cons_self) he
    exact ih (fun c hc => h c (List.mem_cons_of_mem call hc)) hone

/-- **An export only adds a folder.** Whatever the tree holds, links included, an export of paths
that stay inside, successful or given up, keeps every entry that was there and the directories
that are locked. What is new lies at or below the folder that it has chosen. A dry run, a wrong
name and a missing directory to receive the folder leave the tree as it is. Further such exports
keep all that the export wrote. -/
theorem ExportCall.run_frame (t : FileTree) (call : ExportCall) (later : List ExportCall)
    (hinside : call.collection.StaysInside) (hlater : ∀ c ∈ later, c.collection.StaysInside) :
    let after := (call.run t).tree
    after.locked = t.locked ∧
    (∀ l e, t.get? l = some e → after.get? l = some e) ∧
    (∀ l e, after.get? l = some e → t.get? l = none → ∃ destination folder,
      freeFolder t (call.parent.resolve call.name) = .ok destination ∧
        after.stat destination = .ok (folder, .directory) ∧ folder <:+ l) ∧
    (call.dryRun = true ∨ checkFolderName call.name ≠ .ok () ∨ t.isDirectory call.parent = false →
      after = t) ∧
    ∀ l e, after.get? l = some e → (exportAll after later).get? l = some e := by
  intro after
  have hcases : after = t ∨ _ := run_fills hinside t
  refine ⟨?_, fun l e he => call.kept hinside he,
    fun l e he hnew => call.below_of_new hinside he hnew, fun hnone => ?_,
    fun l e he => exportAll_kept hlater he⟩
  · rcases hcases with hsame | ⟨-, _, _, -, -, hfills, -⟩
    · rw [hsame]
    · exact hfills.locked
  · rcases hcases with hsame | ⟨hdry, _, _, hdestination, -⟩
    · exact hsame
    · obtain ⟨hcheck, ⟨l, hparent⟩, -⟩ := destinationOf_eq_ok hdestination
      rcases hnone with hdry' | hname | hnoParent
      · rw [hdry] at hdry'
        cases hdry'
      · exact absurd hcheck hname
      · rw [FileTree.isDirectory_iff.mpr ⟨l, hparent⟩] at hnoParent
        cases hnoParent

/-- A directory with a file and with links, one of which has the name of an export folder. -/
def linkedProject : FileTree :=
  (((((FileTree.empty.insert [] ['p'] .directory).insert [['p']] ['a'] (.file .empty 1)).insert
    [['p']] ['q'] .directory).insert [['q'], ['p']] ['f'] (.file .empty 2)).insert
      [['p']] ['l'] (.link ['q'])).insert [['p']] ['n'] (.link ['q'])

/-- An export in which a file would go where a directory is listed, with a file behind a link. -/
def crowdedExport : ExportCall where
  collection := ⟨["a".toList, "l/f".toList], ["a/a".toList, "l".toList]⟩
  root := .ofText "/p".toList
  parent := .ofText "/p".toList
  name := ['n']
  dryRun := false

/-- An export that is given up leaves the files behind links as they are, and what it wrote is
kept by the next one. -/
theorem crowdedExport_run_frame :
    crowdedExport.collection.StaysInside ∧
    (crowdedExport.run linkedProject).answer = .error (.writing .isDirectory) ∧
    let after := (crowdedExport.run linkedProject).tree
    after.get? [['f'], ['q'], ['p']] = some (.file .empty 2) ∧
      (exportAll after [crowdedExport]).get? [['a'], "n (1)".toList, ['p']] = some .directory := by
  have hinside : crowdedExport.collection.StaysInside := by decide
  have hframe := crowdedExport.run_frame linkedProject [crowdedExport] hinside
    fun c hc => List.mem_singleton.mp hc ▸ hinside
  refine ⟨hinside, rfl, hframe.2.1 _ _ (by decide), hframe.2.2.2.2 _ _ ?_⟩
  decide

end IgnoredPaths
