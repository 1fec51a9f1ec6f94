import IgnoredPaths.Proofs.FreeFolder
import IgnoredPaths.Proofs.Write

/-!
# Folders among taken names

The search for a folder ends at the least number whose path leads nowhere. A folder is made where
no entry has its name. The two are the same but for a link that leads nowhere: it has the name, and
nothing is found at its path. There an export of whatever collection is given up.

The search is also given up at a path of which it cannot be told where it leads, as a name is too
long for the file tree.

- `Path.toText_numbered`: the texts of the paths that are tried.
- `freeFolder_least`: where the search ends.
- `freeFolder_of_longName`: a name that is free, and too long.
- `FileTree.makeDirectories_extend_of_taken`: no folder is made in the place of a link.
- `exportCollection_empty`: what an export of nothing does.
- `exportCollection_of_dangling_link`: an export that is given up at a link.
-/

namespace IgnoredPaths

/-! ## The least free number -/

/-- What is added to the last segment is added to the text. -/
theorem Text.joinWith_concat_append (c : Char) (l : List Text) (s t : Text) :
    joinWith c (l ++ [s ++ t]) = joinWith c (l ++ [s]) ++ t := by
  by_cases hl : l = []
  · rw [hl]
    rfl
  · rw [joinWith_append hl (List.cons_ne_nil _ _), joinWith_append hl (List.cons_ne_nil _ _),
      joinWith, joinWith, List.append_assoc, List.cons_append]

/-- A path whose last segment leads down is one that the search for a folder can begin with. -/
theorem Path.resolve_parent {base : Path} {name : Text} (hlast : base.segments.getLast? = some name) :
    base.parent.resolve name = base :=
  (resolve_name base.parent (base.meaningful name (List.mem_of_getLast? hlast))).trans
    (parent_extend_of_getLast? hlast)

/-- The paths that are tried after the first have its text with a number behind it. -/
theorem Path.toText_numbered {base : Path} {name : Text} (hlast : base.segments.getLast? = some name)
    (hup : name ≠ upSegment) (n : Nat) :
    (numbered base (n + 1)).toText =
      base.toText ++ (" (".toList ++ Text.ofNat (n + 1) ++ [')']) := by
  have hname : LeadsDown name := ⟨base.meaningful name (List.mem_of_getLast? hlast), hup⟩
  have hnumbered := numbered_resolve base.parent hname (n + 1)
  rw [resolve_parent hlast] at hnumbered
  have hbase : base.segments = base.parent.segments ++ [name] :=
    (List.dropLast_append_getLast? name hlast).symm
  have hsegments : (numbered base (n + 1)).segments =
      base.parent.segments ++ [name ++ (" (".toList ++ Text.ofNat (n + 1) ++ [')'])] := by
    rw [hnumbered, segments_extend _ fun s hs =>
      List.mem_singleton.mp hs ▸ (leadsDown_numberedName hname (n + 1)).1, numberedName]
    simp only [List.append_assoc]
  obtain ⟨front, htext, htext'⟩ := @exists_toText_eq base (numbered base (n + 1))
    (by rw [hnumbered]; rfl)
    (by rw [hsegments]; exact List.append_ne_nil_of_right_ne_nil _ (List.cons_ne_nil _ _))
    (by rw [hbase]; exact List.append_ne_nil_of_right_ne_nil _ (List.cons_ne_nil _ _))
  rw [htext', htext, hsegments, hbase, Text.joinWith_concat_append, ← List.append_assoc front]

namespace FileTree

variable {t : FileTree} {p : Path}

/-- It can be told whether something is at a path, unless a name is too long. -/
theorem nameTooLong_of_exists? {f : Fault} (h : t.exists? p = .error f) :
    f = .nameTooLong ∧ ((∃ s ∈ p.segments, isTooLong s = true) ∨ t.HasLongTarget) := by
  rw [exists?, find?] at h
  cases hstat : t.stat p with
  | ok found =>
    rw [hstat] at h
    cases h
  | error g =>
    rw [hstat] at h
    rcases fault_of_stat hstat with habsent | ⟨rfl, hlong⟩
    · simp only [habsent, if_true] at h
      cases h
    · cases h
      exact ⟨rfl, hlong⟩

end FileTree

/-- **The search for a folder ends at the least free number.** Without a limit to the paths that are
tried, the search has an answer, and only that of `freeFolder`. The paths have the text of the first
with a number behind it. The answer is the first of them at which nothing is found, with something
at each before it, unless it cannot be told of that path whether something is there: then a name in
it is too long, or one in a link. -/
theorem freeFolder_least (t : FileTree) {base : Path} {name : Text}
    (hlast : base.segments.getLast? = some name) (hup : name ≠ upSegment) :
    (∀ r, FolderSearch t base 0 r ↔ r = freeFolder t base) ∧
    (∀ n, (numbered base (n + 1)).toText =
      base.toText ++ (" (".toList ++ Text.ofNat (n + 1) ++ [')'])) ∧
    ∃ n, (∀ i < n, t.exists? (numbered base i) = .ok true) ∧
      (t.exists? (numbered base n) = .ok false ∧ freeFolder t base = .ok (numbered base n) ∨
        t.exists? (numbered base n) = .error .nameTooLong ∧
          freeFolder t base = .error .nameTooLong ∧
            ((∃ s ∈ (numbered base n).segments, isTooLong s = true) ∨ t.HasLongTarget)) := by
  have hname : LeadsDown name := ⟨base.meaningful name (List.mem_of_getLast? hlast), hup⟩
  -- the search is known of a name in a directory, so the path is taken apart
  have hsearch := folderSearch_freeFolder t base.parent hname
  rw [Path.resolve_parent hlast] at hsearch
  obtain ⟨n, -, hfound, hend⟩ := hsearch.exists_last
  refine ⟨fun r => ⟨fun h => h.unique hsearch, fun h => h ▸ hsearch⟩,
    Path.toText_numbered hlast hup, n, fun i hi => hfound i (Nat.zero_le i) hi, ?_⟩
  rcases hend with hfree | ⟨f, hfault, hgiven⟩
  · exact .inl hfree
  · obtain ⟨rfl, hlong⟩ := FileTree.nameTooLong_of_exists? hfault
    exact .inr ⟨hfault, hgiven, hlong⟩

/-- A directory in which a folder and two of the numbered names after it are taken. -/
def foldersWithGap : FileTree :=
  ((FileTree.empty.insert [] "out".toList .directory).insert [] "out (1)".toList (.file .empty 1)).insert
    [] "out (3)".toList (.link "out".toList)

/-- The least number that is free lies in the gap. -/
theorem freeFolder_in_gap :
    let base := Path.ofText "/out".toList
    base.segments.getLast? = some "out".toList ∧
      FolderSearch foldersWithGap base 0 (.ok (numbered base 2)) ∧
      (numbered base 2).toText = "/out (2)".toList := by
  intro base
  have hlast : base.segments.getLast? = some "out".toList := by decide
  obtain ⟨hsearch, htext, -⟩ := freeFolder_least foldersWithGap hlast (by decide)
  exact ⟨hlast, (hsearch _).mpr (by decide), (htext 1).trans (by decide)⟩

/-- A folder with a name of 255 characters is there, and nothing has the next name. That name is too
long for the file tree, so the search is given up and ends at no path. -/
theorem freeFolder_of_longName :
    let name : Text := List.replicate 255 'a'
    let t := FileTree.empty.insert [] name .directory
    let base := Path.ofText ('/' :: name)
    base.segments.getLast? = some name ∧ name ≠ upSegment ∧ t.exists? base = .ok true ∧
      t.get? [numberedName name 1] = none ∧ freeFolder t base = .error .nameTooLong ∧
      ¬ ∃ n, freeFolder t base = .ok (numbered base n) := by
  intro name t base
  have hgiven : freeFolder t base = .error .nameTooLong := by decide +kernel
  refine ⟨by decide +kernel, by decide, by decide +kernel, by decide +kernel, hgiven, ?_⟩
  rintro ⟨n, hn⟩
  cases hgiven.symm.trans hn

/-! ## Making the folder -/

namespace FileTree

variable {t : FileTree} {p : Path} {l : Location} {name : Text}

/-- Where an entry has the name, no directory is made, whatever the entry is. -/
theorem makeDirectories_extend_of_taken {e : Entry} (hp : t.stat p = .ok (l, .directory))
    (hget : t.get? (name :: l) = some e) :
    t.makeDirectories (p.extend [name]) false = (t, some .occupied) := by
  have hname := isName_of_get? hget
  have hmake : t.makeDirectory (p.extend [name]) = (t, some .occupied) := by
    rw [makeDirectory, makeEntry, place_extend hp hname.leadsDown, hname.2.2.1, hname.2.2.2]
    simp only [Bool.false_eq_true, if_false, hget, Option.isSome_some, if_true]
  exact makeDirectories_of_fault hmake (by decide)

/-- At a name that no entry may have, nothing is found or it cannot be told. -/
theorem exists?_extend_of_not_isName (hp : t.stat p = .ok (l, .directory)) (hname : LeadsDown name)
    (hnot : ¬ IsName name) :
    t.exists? (p.extend [name]) =
      if name.holdsBarred then .ok false else .error .nameTooLong := by
  have hnames : ∀ n ∈ [name], LeadsDown n := fun n hn => List.mem_singleton.mp hn ▸ hname
  obtain ⟨hbarred, hlead⟩ := stat_eq_ok_iff.mp hp
  have hholds : (p.extend [name]).holdsBarred = name.holdsBarred := by
    rw [Path.holdsBarred, p.segments_extend fun n hn => (hnames n hn).1, List.any_append,
      ← Path.holdsBarred, hbarred, Bool.false_or, List.any_cons, List.any_nil, Bool.or_false]
  cases hname' : name.holdsBarred with
  | true =>
    have hspot : t.spot (p.extend [name]) = .error .barredCharacter := by
      rw [spot, hholds, hname', if_pos rfl]
    simp [exists?, find?, stat, hspot, Fault.meansAbsent, Except.map]
  | false =>
    have hlong : isTooLong name = true := by
      by_contra hshort
      exact hnot ⟨hname.1, hname.2, hname', Bool.eq_false_iff.mpr hshort⟩
    -- the directory is reached, and the step from there is the one that fails
    have hstep : ∀ k, t.lead k l [.name name] = .error .nameTooLong := by
      intro k
      cases k <;> simp [lead, leadFrom, hlong]
    obtain ⟨k, hk⟩ := lead_append hlead
    have hspot : t.spot (p.extend [name]) = .error .nameTooLong := by
      rw [spot, hholds, hname', if_neg Bool.false_ne_true, Path.ofPath_extend p hnames, hk]
      exact hstep k
    simp [exists?, find?, stat, hspot, Fault.meansAbsent, Except.map]

/-- A path that leads somewhere has no name that is too long. -/
theorem isTooLong_of_stat {e : Entry} (hp : t.stat p = .ok (l, e)) :
    ∀ s ∈ p.segments, isTooLong s = false := by
  intro s hs
  by_cases hup : s = upSegment
  · rw [hup]
    decide
  · obtain ⟨_, _, hget⟩ := exists_get?_of_stat hp hs hup
    exact (isName_of_get? hget).2.2.2

/-- Only a link can have a name in a directory without being found there. -/
theorem exists_link_of_not_found {e : Entry} (hp : t.stat p = .ok (l, .directory))
    (hget : t.get? (name :: l) = some e) (hnot : t.exists? (p.extend [name]) ≠ .ok true) :
    ∃ target, e = .link target := by
  by_contra hno
  refine hnot ?_
  rw [exists?_extend hp (isName_of_get? hget) fun target h =>
    hno ⟨target, Option.some.inj (hget.symm.trans h)⟩, hget]
  rfl

/-- If it cannot be told where a link in a directory leads, then because of a name in a link. -/
theorem hasLongTarget_of_exists? {e : Entry} {f : Fault} (hp : t.stat p = .ok (l, .directory))
    (hget : t.get? (name :: l) = some e) (h : t.exists? (p.extend [name]) = .error f) :
    f = .nameTooLong ∧ t.HasLongTarget := by
  obtain ⟨hf, ⟨s, hs, hlong⟩ | htarget⟩ := nameTooLong_of_exists? h
  · have hname := isName_of_get? hget
    have hshort : isTooLong s = false := by
      rw [p.segments_extend fun n hn => List.mem_singleton.mp hn ▸ hname.1] at hs
      rcases List.mem_append.mp hs with hs | hs
      · exact isTooLong_of_stat hp s hs
      · rw [List.mem_singleton.mp hs]
        exact hname.2.2.2
    rw [hshort] at hlong
    cases hlong
  · exact ⟨hf, htarget⟩

theorem makeDirectories_extend_of_barred (hp : t.stat p = .ok (l, .directory))
    (hname : LeadsDown name) (hbarred : name.holdsBarred = true) :
    t.makeDirectories (p.extend [name]) false = (t, some .barredCharacter) := by
  have hmake : t.makeDirectory (p.extend [name]) = (t, some .barredCharacter) := by
    rw [makeDirectory, makeEntry, place_extend hp hname, hbarred]
    rfl
  exact makeDirectories_of_fault hmake (by decide)

end FileTree

section

variable {t : FileTree} {c : Collection} {root parent : Path} {name folder : Text} {l : Location}

/-- An export that cannot make its folder is given up. -/
theorem exportCollection_of_fault {destination : Path} {f : Fault}
    (hto : destinationOf t parent name = .ok destination)
    (hmake : t.makeDirectories destination false = (t, some f)) :
    exportCollection t c root parent name false = ⟨.error (writingError f), t, []⟩ := by
  simp [exportCollection, hto, fillFolder, hmake]

/-- An export of nothing makes its folder where it may be made. -/
theorem exportCollection_of_admits (hparent : t.stat parent = .ok (l, .directory))
    (hadmits : t.Admits l folder)
    (hto : destinationOf t parent name = .ok (parent.extend [folder])) :
    exportCollection t .empty root parent name false =
      ⟨.ok ⟨parent.extend [folder], 0, 0⟩, t.insert l folder .directory, []⟩ := by
  rcases FileTree.makeDirectories_extend_of_stat hparent hadmits.1.leadsDown with
    ⟨-, hmake⟩ | ⟨hnot, -⟩
  · simp [exportCollection, hto, fillFolder, hmake, Collection.empty, exportDirs, exportFiles]
  · exact absurd hadmits hnot

/-- **An export of nothing makes a folder, unless a link to nowhere has its name.** The export tries
the wanted name and the numbered ones up to the first at which nothing is found. If no entry has
that name, the folder is made and is there afterwards, whatever has the names before it. The only
entry that can have the name is a link, and then the export is given up and nothing is made. There
are two more ways in which the operating system refuses the name: it is one that no entry may have,
or the link leads through such a name. -/
theorem exportCollection_empty (root : Path) (hcheck : checkFolderName name = .ok ())
    (hparent : t.stat parent = .ok (l, .directory)) :
    ∃ n, (∀ i < n, t.exists? (numbered (parent.resolve name) i) = .ok true) ∧
      let folder := numberedName name n
      let destination := parent.extend [folder]
      let run := exportCollection t .empty root parent name false
      (t.Admits l folder ∧ run = ⟨.ok ⟨destination, 0, 0⟩, t.insert l folder .directory, []⟩ ∧
          run.tree.stat destination = .ok (folder :: l, .directory)) ∨
        ((∃ target, t.get? (folder :: l) = some (.link target)) ∧
          (∀ found, t.stat destination ≠ .ok found) ∧
            (run = ⟨.error (.writing .occupied), t, []⟩ ∨
              run = ⟨.error (.unclear .nameTooLong), t, []⟩ ∧ t.HasLongTarget)) ∨
          (t.get? (folder :: l) = none ∧ ¬ IsName folder ∧
            ∃ f, run = ⟨.error (.unclear f), t, []⟩) := by
  obtain ⟨n, hfound, hend⟩ := destinationOf_cases hcheck hparent
  refine ⟨n, hfound, ?_⟩
  intro folder destination run
  have hfolder : LeadsDown folder := leadsDown_numberedName (leadsDown_of_checkFolderName hcheck) n
  cases hget : t.get? (folder :: l) with
  | none =>
    by_cases hname : IsName folder
    · have hadmits : t.Admits l folder := ⟨hname, FileTree.get?_of_stat hparent, hget⟩
      have htold := FileTree.exists?_extend hparent hname fun target => by rw [hget]; nofun
      rcases hend with ⟨-, hto⟩ | ⟨f, hfault, -⟩
      · have hrun : run = _ := exportCollection_of_admits hparent hadmits hto
        refine .inl ⟨hadmits, hrun, ?_⟩
        rw [hrun]
        exact (FileTree.isFolder_insert hparent hadmits).stat
      · cases htold.symm.trans hfault
    · refine .inr (.inr ⟨rfl, hname, ?_⟩)
      rcases hend with ⟨hfree, hto⟩ | ⟨f, -, hto⟩
      · have hbarred : folder.holdsBarred = true := by
          rw [FileTree.exists?_extend_of_not_isName hparent hfolder hname] at hfree
          split at hfree
          · assumption
          · cases hfree
        exact ⟨_, exportCollection_of_fault hto
          (FileTree.makeDirectories_extend_of_barred hparent hfolder hbarred)⟩
      · exact ⟨f, exportCollection_of_error hto false⟩
  | some e =>
    -- the search has ended here, so the entry is not what is found at its name
    have hnot : t.exists? destination ≠ .ok true := by
      rcases hend with ⟨hfree, -⟩ | ⟨f, hfault, -⟩
      · rw [hfree]
        nofun
      · rw [hfault]
        nofun
    obtain ⟨target, rfl⟩ := FileTree.exists_link_of_not_found hparent hget hnot
    refine .inr (.inl ⟨⟨target, rfl⟩, fun found h => ?_, ?_⟩)
    · exact hnot (FileTree.exists?_eq_ok_true_iff.mpr ⟨found, h⟩)
    · rcases hend with ⟨-, hto⟩ | ⟨f, hfault, hto⟩
      · exact .inl (exportCollection_of_fault hto
          (FileTree.makeDirectories_extend_of_taken hparent hget))
      · obtain ⟨rfl, hlong⟩ := FileTree.hasLongTarget_of_exists? hparent hget hfault
        exact .inr ⟨exportCollection_of_error hto false, hlong⟩

end

/-- A file, and a link to it, with the first two names that are tried for a folder. -/
def takenByFileAndLink : FileTree :=
  (FileTree.empty.insert [] "out".toList (.file .empty 1)).insert [] "out (1)".toList
    (.link "out".toList)

/-- A file and a link that leads to it do not make an export fail. -/
theorem takenByFileAndLink_exported :
    let parent := Path.ofText ['/']
    let run := exportCollection takenByFileAndLink .empty parent parent "out".toList false
    checkFolderName "out".toList = .ok () ∧ takenByFileAndLink.stat parent = .ok ([], .directory) ∧
      run.answer = .ok ⟨.ofText "/out (2)".toList, 0, 0⟩ ∧
      ∃ n, takenByFileAndLink.Admits [] (numberedName "out".toList n) ∧
        run.tree.stat (parent.extend [numberedName "out".toList n]) =
          .ok ([numberedName "out".toList n], .directory) := by
  intro parent run
  have hcheck : checkFolderName "out".toList = .ok () := by decide
  have hparent : takenByFileAndLink.stat parent = .ok ([], .directory) := by decide
  have hanswer : run.answer = .ok ⟨.ofText "/out (2)".toList, 0, 0⟩ := by decide
  have hno : ∀ e, run ≠ ⟨.error e, takenByFileAndLink, []⟩ := by
    intro e h
    rw [h] at hanswer
    cases hanswer
  refine ⟨hcheck, hparent, hanswer, ?_⟩
  obtain ⟨n, -, ⟨hadmits, -, hstat⟩ | ⟨-, -, h | ⟨h, -⟩⟩ | ⟨-, -, f, h⟩⟩ :=
    exportCollection_empty parent hcheck hparent
  · exact ⟨n, hadmits, hstat⟩
  · exact absurd h (hno _)
  · exact absurd h (hno _)
  · exact absurd h (hno _)

/-- A link that leads nowhere has the name of a folder. The search ends at this name, as nothing is
found there, and the export is given up, as the name is taken. -/
theorem exportCollection_of_dangling_link :
    let t := FileTree.empty.insert [] "out".toList (.link "nowhere".toList)
    let parent := Path.ofText ['/']
    let run := exportCollection t .empty parent parent "out".toList false
    checkFolderName "out".toList = .ok () ∧ t.isDirectory? parent = .ok true ∧
      freeFolder t (parent.resolve "out".toList) = .ok (parent.resolve "out".toList) ∧
      t.get? ["out".toList] = some (.link "nowhere".toList) ∧
      run.answer = .error (.writing .occupied) ∧
      run.tree.get? ["out".toList] = some (.link "nowhere".toList) := by
  decide

end IgnoredPaths
