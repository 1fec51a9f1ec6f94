import IgnoredPaths.FileTree.Write
import IgnoredPaths.Proofs.Resolve

/-!
# What writing changes

Paths can lead anywhere, but from a directory without links in it or below it names only lead
further down. So what is written at such paths stays at and below the directory, whatever else
the tree holds, and also if the writing is given up on the way.

Nothing is said here about what is written; see `FileTree.IsFolder.makeDirectories_of_passable`
and `FileTree.copyFile_extend` for that.

- `FileTree.Fills`: one tree is another one with more written at and below a location.
- `FileTree.IsFolder`: a path leads to a directory without links in it or below it.
- `FileTree.IsFolder.fills_makeDirectories`, `FileTree.IsFolder.fills_copyFile`: what is written
  at paths that lead on from such a directory.
-/

namespace IgnoredPaths

/-- Whether a path leads to an entry in some directory or below it, or to a place for one. -/
def Spot.IsWithin (folder : Location) : Spot → Prop
  | .taken l _ => folder <:+ l
  | .vacant parent _ => folder <:+ parent

namespace FileTree

/-- A tree in which more was written at and below one location: all else is as it was, no
directory is lost, and links neither come nor go. -/
structure Fills (folder : Location) (t t' : FileTree) : Prop where
  outside : ∀ l, ¬ folder <:+ l → t'.get? l = t.get? l
  directory : ∀ l, t.get? l = some .directory → t'.get? l = some .directory
  link : ∀ l target, t'.get? l = some (.link target) ↔ t.get? l = some (.link target)
  locked : t'.locked = t.locked

/-- A path leads to a directory that has no links in it or below it. -/
structure IsFolder (t : FileTree) (p : Path) (folder : Location) : Prop where
  stat : t.stat p = .ok (folder, .directory)
  noLink : ∀ l target, folder <:+ l → t.get? l ≠ some (.link target)

variable {t t' t'' : FileTree} {folder l : Location} {p : Path} {name : Text} {names : List Text}

namespace Fills

theorem refl (folder : Location) (t : FileTree) : Fills folder t t :=
  ⟨fun _ _ => rfl, fun _ h => h, fun _ _ => Iff.rfl, rfl⟩

theorem trans (h : Fills folder t t') (h' : Fills folder t' t'') : Fills folder t t'' where
  outside l hl := (h'.outside l hl).trans (h.outside l hl)
  directory l hl := h'.directory l (h.directory l hl)
  link l target := (h'.link l target).trans (h.link l target)
  locked := h'.locked.trans h.locked

/-- Directories and links are kept. -/
theorem kept (h : Fills folder t t') (l : Location) (e : Entry) (he : e.isFile = false)
    (hget : t.get? l = some e) : t'.get? l = some e := by
  cases e with
  | directory => exact h.directory l hget
  | file => cases he
  | link target => exact (h.link l target).mpr hget

/-- A new entry that is no link. -/
theorem insert {parent : Location} {name : Text} {e : Entry} (hbelow : folder <:+ name :: parent)
    (he : ∀ target, e ≠ .link target) : Fills folder t (t.insert parent name e) := by
  by_cases hadmits : t.Admits parent name
  · have hget := get?_insert (e := e) hadmits
    refine ⟨fun l hl => ?_, fun l hl => ?_, fun l target => ?_, ?_⟩
    · rw [hget, if_neg]
      rintro rfl
      exact hl hbelow
    · rw [hget, if_neg, hl]
      rintro rfl
      rw [hadmits.2.2] at hl
      cases hl
    · rw [hget]
      split
      · next heq =>
        rw [heq, hadmits.2.2]
        exact iff_of_false (fun h => he target (Option.some.inj h)) (Option.some_ne_none _).symm
      · exact Iff.rfl
    · rw [FileTree.insert, dif_pos hadmits]
  · rw [FileTree.insert, dif_neg hadmits]
    exact refl folder t

/-- Other content in a file. -/
theorem overwrite (hbelow : folder <:+ l) (content : ByteArray) (mtime : Int) :
    Fills folder t (t.overwrite l content mtime) := by
  have hget := t.get?_overwrite l content mtime
  refine ⟨fun m hm => ?_, fun m hm => ?_, fun m target => ?_, rfl⟩
  · have hne : m ≠ l := by
      rintro rfl
      exact hm hbelow
    simp only [hget, hne, if_false, Option.map_id_fun']
    rfl
  · rw [hget, hm, Option.map_some]
    split <;> rfl
  · rw [hget]
    cases hm : t.get? m with
    | none => simp
    | some e =>
      rw [Option.map_some]
      split
      · cases e <;> simp [Entry.refill]
      · exact Iff.rfl

end Fills

/-- Nothing lies below a place where nothing is. -/
theorem get?_of_vacant (h : t.get? folder = none) (hl : folder <:+ l) : t.get? l = none := by
  obtain ⟨trail, rfl⟩ := hl
  by_cases htrail : trail = []
  · rw [htrail, List.nil_append]
    exact h
  · refine Option.eq_none_iff_forall_not_mem.mpr fun e he => ?_
    rw [get?_of_append he htrail] at h
    cases h

/-- All that was there is kept if what is filled was not there. -/
theorem Fills.kept_of_vacant (h : Fills folder t t') (hvacant : t.get? folder = none) {e : Entry}
    (he : t.get? l = some e) : t'.get? l = some e := by
  rw [h.outside l fun hl => ?_, he]
  rw [get?_of_vacant hvacant hl] at he
  cases he

/-- A path to a directory without links keeps leading there when the directory is filled. -/
theorem IsFolder.of_fills (h : t.IsFolder p folder) (hfills : Fills folder t t') :
    t'.IsFolder p folder where
  stat := stat_mono hfills.kept (hfills.directory folder (get?_of_stat h.stat)) h.stat
  noLink l target hl hget := h.noLink l target hl ((hfills.link l target).mp hget)

/-- A new directory has no links in it or below it. -/
theorem isFolder_insert (hp : t.stat p = .ok (l, .directory)) (hadmits : t.Admits l name) :
    (t.insert l name .directory).IsFolder (p.extend [name]) (name :: l) := by
  have hfills : Fills (name :: l) t (t.insert l name .directory) :=
    .insert (List.suffix_refl _) nofun
  have hnew : (t.insert l name .directory).get? ([name] ++ l) = some .directory := by
    rw [List.singleton_append, get?_insert hadmits, if_pos rfl]
  refine ⟨?_, fun m target hm hlink => ?_⟩
  · have hstat := stat_mono hfills.kept (hfills.directory l hadmits.2.1) hp
    exact stat_extend hstat hnew Entry.directory_ne_link (List.cons_ne_nil name [])
  · rw [hfills.link, get?_of_vacant hadmits.2.2 hm] at hlink
    cases hlink

/-! ## Where names lead -/

/-- Names lead from a directory without links in it or below it only further down. -/
theorem isWithin_of_leadFrom {jump : Location → List Step → Except Fault Spot}
    (hlink : ∀ m target, folder <:+ m → t.get? m ≠ some (.link target)) (hl : folder <:+ l)
    {s : Spot} (h : t.leadFrom jump l (names.map .name) = .ok s) : s.IsWithin folder := by
  induction names generalizing l with
  | nil =>
    cases h
    exact hl
  | cons n rest ih =>
    have hbelow : folder <:+ n :: l := hl.trans (List.suffix_cons n l)
    simp only [List.map_cons, leadFrom] at h
    split at h
    · cases h
    · split at h
      · split at h
        · cases h
          exact hl
        · cases h
      · exact ih hbelow h
      · split at h
        · cases h
          exact hbelow
        · cases h
      · next target hget => exact absurd hget (hlink _ _ hbelow)

namespace IsFolder

/-- A path that leads on by names from a directory without links leads further down. -/
theorem isWithin_of_spot (h : t.IsFolder p folder) (hnames : ∀ name ∈ names, LeadsDown name)
    {s : Spot} (hs : t.spot (p.extend names) = .ok s) : s.IsWithin folder := by
  rw [spot] at hs
  split at hs
  · cases hs
  · obtain ⟨k, hk⟩ := lead_append (stat_eq_ok_iff.mp h.stat).2
    rw [Path.ofPath_extend p hnames, hk] at hs
    cases k with
    | zero => exact isWithin_of_leadFrom h.noLink (List.suffix_refl folder) hs
    | succ k => exact isWithin_of_leadFrom h.noLink (List.suffix_refl folder) hs

/-- The directory for the last of some names lies in or below the directory they lead on from. -/
theorem suffix_of_place (h : t.IsFolder p folder) {name : Text}
    (hnames : ∀ n ∈ names ++ [name], LeadsDown n) {last : Text}
    (hplace : t.place (p.extend (names ++ [name])) = .ok (l, last)) : folder <:+ l := by
  have hseg : IsSegment name := (hnames name (List.mem_append_right names List.mem_cons_self)).1
  rw [place, Path.parent_extend p names hseg] at hplace
  split at hplace
  · cases hplace
  · split at hplace
    · cases hplace
    · split at hplace
      · cases hplace
      · cases hplace
      · next e hspot =>
        have hwithin := h.isWithin_of_spot
          (fun n hn => hnames n (List.mem_append_left [name] hn)) hspot
        split at hplace
        · cases hplace
        · split at hplace
          · cases hplace
          · split at hplace
            · cases hplace
            · cases hplace
              exact hwithin

end IsFolder

/-! ## Making directories -/

/-- Where something is, no directory can be made. -/
theorem makeDirectory_of_stat {e : Entry} (h : t.stat p = .ok (l, e)) :
    t.makeDirectory p = (t, some .occupied) := by
  rw [makeDirectory, makeEntry, place]
  cases hlast : p.segments.getLast? with
  | none => rfl
  | some name =>
    obtain ⟨dir, hdir, hname⟩ := stat_parent hlast h
    have hbarred : name.holdsBarred = false := by
      have hall := (stat_eq_ok_iff.mp h).1
      rw [Path.holdsBarred, List.any_eq_false] at hall
      exact Bool.eq_false_iff.mpr (hall name (List.mem_of_getLast? hlast))
    simp only [hbarred, spot_of_stat hdir, Entry.isDirectory]
    by_cases hup : name = upSegment
    · simp [hup]
    · obtain ⟨hlong, htaken⟩ := hname hup
      simp [hup, hlong, htaken]

/-- In a directory that is there, the last name of a path has a place if it is one. -/
theorem place_extend (hp : t.stat p = .ok (l, .directory)) (hname : LeadsDown name) :
    t.place (p.extend [name]) =
      if name.holdsBarred then .error .barredCharacter
      else if isTooLong name then .error .nameTooLong else .ok (l, name) := by
  have hlast : (p.extend ([] ++ [name])).segments.getLast? = some name := by
    rw [Path.segments_extend_append p [] hname.1, List.getLast?_concat]
  have hparent : (p.extend ([] ++ [name])).parent = p := by
    rw [Path.parent_extend p [] hname.1, Path.extend_nil]
  rw [List.nil_append] at hlast hparent
  simp only [place, hlast, hparent, spot_of_stat hp, Entry.isDirectory, hname.2, Bool.not_true,
    Bool.false_eq_true, if_false]

/-- In a directory that is there, a directory is made if there may be one, and else nothing is. -/
theorem makeDirectory_extend (hp : t.stat p = .ok (l, .directory)) (hname : LeadsDown name) :
    t.Admits l name ∧ t.makeDirectory (p.extend [name]) = (t.insert l name .directory, none) ∨
      ¬ t.Admits l name ∧
        ∃ f, f ≠ .absent ∧ t.makeDirectory (p.extend [name]) = (t, some f) := by
  rw [makeDirectory, makeEntry, place_extend hp hname]
  by_cases hbarred : name.holdsBarred = true
  · rw [if_pos hbarred]
    exact .inr ⟨fun h => Bool.eq_false_iff.mp h.1.2.2.1 hbarred, .barredCharacter, nofun, rfl⟩
  · rw [if_neg hbarred]
    by_cases hlong : isTooLong name = true
    · rw [if_pos hlong]
      exact .inr ⟨fun h => Bool.eq_false_iff.mp h.1.2.2.2 hlong, .nameTooLong, nofun, rfl⟩
    · rw [if_neg hlong]
      cases hget : t.get? (name :: l) with
      | some e =>
        refine .inr ⟨fun h => absurd (hget.symm.trans h.2.2) nofun, .occupied, nofun, ?_⟩
        simp only [hget, Option.isSome_some, if_true]
      | none =>
        have hisName : IsName name :=
          ⟨hname.1, hname.2, Bool.eq_false_iff.mpr hbarred, Bool.eq_false_iff.mpr hlong⟩
        refine .inl ⟨⟨hisName, get?_of_stat hp, hget⟩, ?_⟩
        simp only [hget, Option.isSome_none, Bool.false_eq_true, if_false]

/-- If no directory above is missing, only the last one is made. -/
theorem makeDirectoriesUpTo_of_ne_absent (h : (t.makeDirectory p).2 ≠ some .absent) (above : Nat)
    (existing : Bool) :
    t.makeDirectoriesUpTo above p existing = forgiving existing p (t.makeDirectory p) := by
  cases above with
  | zero => rw [makeDirectoriesUpTo]
  | succ above =>
    rw [makeDirectoriesUpTo]
    split
    · next heq =>
      rw [heq] at h
      exact absurd rfl h
    · rfl

/-- Where something is, making directories changes nothing. -/
theorem makeDirectoriesUpTo_of_stat {e : Entry} (h : t.stat p = .ok (l, e)) (above : Nat)
    (existing : Bool) :
    t.makeDirectoriesUpTo above p existing = forgiving existing p (t, some .occupied) := by
  have hmake := makeDirectory_of_stat h
  rw [makeDirectoriesUpTo_of_ne_absent (by rw [hmake]; nofun), hmake]

/-- A directory that cannot be made for another reason than a missing parent is not tried again. -/
theorem makeDirectories_of_fault {f : Fault} (h : t.makeDirectory p = (t, some f))
    (hf : f ≠ .absent) : t.makeDirectories p false = (t, some f) := by
  have hne : (t.makeDirectory p).2 ≠ some .absent := by
    rw [h]
    exact fun heq => hf (Option.some.inj heq)
  rw [makeDirectories, makeDirectoriesUpTo_of_ne_absent hne, h]
  rfl

/-- Where a directory may be made, it is. -/
theorem makeDirectories_extend_of_stat (hp : t.stat p = .ok (l, .directory))
    (hname : LeadsDown name) :
    t.Admits l name ∧
        t.makeDirectories (p.extend [name]) false = (t.insert l name .directory, none) ∨
      ¬ t.Admits l name ∧ ∃ f, t.makeDirectories (p.extend [name]) false = (t, some f) := by
  rcases makeDirectory_extend hp hname with ⟨hadmits, hmake⟩ | ⟨hnot, f, hf, hmake⟩
  · rw [makeDirectories, makeDirectoriesUpTo_of_ne_absent (by rw [hmake]; nofun), hmake]
    exact .inl ⟨hadmits, rfl⟩
  · exact .inr ⟨hnot, f, makeDirectories_of_fault hmake hf⟩

theorem forgiving_fst (existing : Bool) (p : Path) (w : Written) :
    (forgiving existing p w).1 = w.1 := by
  obtain ⟨t, f⟩ := w
  cases f with
  | none => rfl
  | some f =>
    rw [forgiving]
    split <;> rfl

namespace IsFolder

theorem fills_makeDirectory (h : t.IsFolder p folder) {name : Text}
    (hnames : ∀ n ∈ names ++ [name], LeadsDown n) :
    Fills folder t (t.makeDirectory (p.extend (names ++ [name]))).1 := by
  rw [makeDirectory, makeEntry]
  split
  · exact .refl folder t
  · next l last hplace =>
    split
    · exact .refl folder t
    · have hbelow := h.suffix_of_place hnames hplace
      exact .insert (hbelow.trans (List.suffix_cons last l)) nofun

theorem fills_makeDirectoriesUpTo (h : t.IsFolder p folder) (above : Nat)
    (hnames : ∀ name ∈ names, LeadsDown name) (existing : Bool) :
    Fills folder t (t.makeDirectoriesUpTo above (p.extend names) existing).1 := by
  induction above generalizing t names existing with
  | zero =>
    rcases List.eq_nil_or_concat' names with rfl | ⟨outer, name, rfl⟩
    · rw [Path.extend_nil, makeDirectoriesUpTo_of_stat h.stat, forgiving_fst]
      exact .refl folder t
    · rw [makeDirectoriesUpTo, forgiving_fst]
      exact h.fills_makeDirectory hnames
  | succ above ih =>
    rcases List.eq_nil_or_concat' names with rfl | ⟨outer, name, rfl⟩
    · rw [Path.extend_nil, makeDirectoriesUpTo_of_stat h.stat, forgiving_fst]
      exact .refl folder t
    · have hseg : IsSegment name :=
        (hnames name (List.mem_append_right outer List.mem_cons_self)).1
      have houter : ∀ n ∈ outer, LeadsDown n :=
        fun n hn => hnames n (List.mem_append_left [name] hn)
      have hone := h.fills_makeDirectory hnames
      rw [makeDirectoriesUpTo, Path.parent_extend p outer hseg]
      split
      · next t₁ hmake =>
        -- after the directories above, in the tree that the first attempt left
        rw [hmake] at hone
        have habove := ih (h.of_fills hone) houter true
        split
        · next t₂ f hdirs =>
          rw [hdirs] at habove
          exact hone.trans habove
        · next t₂ hdirs =>
          rw [hdirs] at habove
          have hboth := hone.trans habove
          rw [forgiving_fst]
          exact hboth.trans ((h.of_fills hboth).fills_makeDirectory hnames)
      · rw [forgiving_fst]
        exact hone

theorem fills_makeDirectories (h : t.IsFolder p folder) (hnames : ∀ name ∈ names, LeadsDown name)
    (existing : Bool) : Fills folder t (t.makeDirectories (p.extend names) existing).1 :=
  h.fills_makeDirectoriesUpTo _ hnames existing

/-- The directories above a path in a directory without links are made further down; above that
directory itself there is nothing to make. -/
theorem fills_makeDirectories_parent (h : t.IsFolder p folder)
    (hnames : ∀ name ∈ names, LeadsDown name) (existing : Bool) :
    Fills folder t (t.makeDirectories (p.extend names).parent existing).1 := by
  rcases List.eq_nil_or_concat' names with rfl | ⟨outer, name, rfl⟩
  · rw [Path.extend_nil]
    obtain ⟨dir, hdir⟩ := exists_stat_parent h.stat
    rw [makeDirectories, makeDirectoriesUpTo_of_stat hdir, forgiving_fst]
    exact .refl folder t
  · rw [Path.parent_extend p outer
      (hnames name (List.mem_append_right outer List.mem_cons_self)).1]
    exact h.fills_makeDirectories (fun n hn => hnames n (List.mem_append_left [name] hn)) existing

/-! ## Copying files -/

theorem fills_writeFile (h : t.IsFolder p folder) (hnames : ∀ name ∈ names, LeadsDown name)
    (content : ByteArray) (mtime : Int) :
    Fills folder t (t.writeFile (p.extend names) content mtime).1 := by
  rw [writeFile]
  split
  · exact .refl folder t
  · exact .refl folder t
  · next l e _ hspot => exact .overwrite (h.isWithin_of_spot hnames hspot) content mtime
  · next l name hspot =>
    have hbelow := h.isWithin_of_spot hnames hspot
    exact .insert (hbelow.trans (List.suffix_cons name l)) nofun

/-- A copy to a path that leads on from a directory without links. Into a directory the copy goes
under the name of its source, and if that leads up again, to a directory, which is a fault. -/
theorem fills_copyFile (h : t.IsFolder p folder) (source : Path)
    (hnames : ∀ name ∈ names, LeadsDown name) :
    Fills folder t (t.copyFile source (p.extend names)).1 := by
  have hwrite : ∀ content mtime, Fills folder t
      (t.writeFile (t.copyTarget source (p.extend names)) content mtime).1 := by
    intro content mtime
    rw [copyTarget]
    split
    · next hdirectory =>
      rw [Path.extend_extend]
      rcases source.name_eq_nil_or_isSegment with hnil | hseg
      · have hsame : p.extend (names ++ [source.name]) = p.extend names := by
          rw [← Path.extend_extend, hnil]
          exact Path.eq_of_segments rfl (List.append_nil _)
        rw [hsame]
        exact h.fills_writeFile hnames content mtime
      · by_cases hup : source.name = upSegment
        · obtain ⟨l, hl⟩ := isDirectory_iff.mp hdirectory
          rw [← Path.extend_extend, hup, writeFile, spot_of_stat (stat_extend_up hl)]
          exact .refl folder t
        · refine h.fills_writeFile (fun name hname => ?_) content mtime
          rcases List.mem_append.mp hname with hname | hname
          · exact hnames name hname
          · rw [List.mem_singleton.mp hname]
            exact ⟨hseg, hup⟩
    · exact h.fills_writeFile hnames content mtime
  simp only [copyFile]
  split
  · exact .refl folder t
  · split
    · exact .refl folder t
    · exact hwrite _ _

end IsFolder

end FileTree

end IgnoredPaths
