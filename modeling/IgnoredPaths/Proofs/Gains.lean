import IgnoredPaths.Proofs.Write
import Mathlib.Data.Set.Lattice

/-!
# What writing adds

Where nothing stands in the way, directories are made and files are copied without a fault, and
what is there afterwards can be said entry by entry: what was there, and what was made or copied.

- `FileTree.Gains`: at and below a location, a tree has what it had and some more.
- `FileTree.Passable`: along some names there is nothing but directories.
- `FileTree.IsFolder.makeDirectories_of_passable`: directories along some names.
- `FileTree.copyFile_extend`: the copy of a file to a place where nothing else is.
-/

namespace IgnoredPaths

namespace FileTree

variable {t t' t'' : FileTree} {folder l : Location} {p : Path} {name : Text} {names : List Text}

/-- At and below a location a tree has what it had and some more, each entry given by the names
that lead to it from there. -/
def Gains (folder : Location) (new : Set (Trail × Entry)) (t t' : FileTree) : Prop :=
  ∀ trail e, t'.get? (trail ++ folder) = some e ↔
    t.get? (trail ++ folder) = some e ∨ (trail, e) ∈ new

/-- Directories at a location and along some names from there. -/
def along (names : List Text) : Set (Trail × Entry) :=
  {p | p.1.reverse <+: names ∧ p.2 = .directory}

/-- Along some names from a location there is nothing but directories. -/
def Passable (t : FileTree) (folder : Location) (names : List Text) : Prop :=
  ∀ outer, outer <+: names → ∀ e, t.get? (outer.reverse ++ folder) = some e → e = .directory

namespace Gains

variable {new more : Set (Trail × Entry)}

theorem trans (h : Gains folder new t t') (h' : Gains folder more t' t'') :
    Gains folder (new ∪ more) t t'' :=
  fun trail e => (h' trail e).trans ((or_congr_left (h trail e)).trans or_assoc)

/-- What is there already is no gain. -/
theorem of_subset (h : ∀ p ∈ new, t.get? (p.1 ++ folder) = some p.2) : Gains folder new t t :=
  fun trail e => (or_iff_left_of_imp (h (trail, e))).symm

/-- An empty list adds nothing. -/
theorem nil (each : Text → Set (Trail × Entry)) :
    Gains folder {p | ∃ x ∈ ([] : List Text), p ∈ each x} t t :=
  of_subset fun _ hp => absurd hp.choose_spec.1 List.not_mem_nil

/-- What a list adds is what its head adds and then what the others add. -/
theorem cons {each : Text → Set (Trail × Entry)} {x : Text} {rest : List Text}
    (h : Gains folder (each x) t t') (h' : Gains folder {p | ∃ y ∈ rest, p ∈ each y} t' t'') :
    Gains folder {p | ∃ y ∈ x :: rest, p ∈ each y} t t'' := by
  refine fun trail e => (h.trans h' trail e).trans (or_congr_right ?_)
  exact (List.exists_mem_cons_iff (fun y => (trail, e) ∈ each y) x rest).symm

/-- One entry more, unless it was there already. -/
theorem singleton {trail : Trail} {e : Entry}
    (hget : ∀ m, t'.get? m = if m = trail ++ folder then some e else t.get? m)
    (hfree : ∀ d, t.get? (trail ++ folder) = some d → d = e) :
    Gains folder {(trail, e)} t t' := by
  intro other d
  rw [hget, Set.mem_singleton_iff, Prod.mk.injEq]
  by_cases hother : other = trail
  · subst hother
    rw [if_pos rfl, Option.some.injEq, eq_comm]
    exact ⟨fun h => .inr ⟨rfl, h⟩, fun h => h.elim (hfree d) And.right⟩
  · rw [if_neg fun h => hother (List.append_cancel_right h)]
    exact (or_iff_left fun h => hother h.1).symm

end Gains

/-- One name more on the way. -/
theorem along_concat (names : List Text) (name : Text) :
    along (names ++ [name]) = along names ∪ {((names ++ [name]).reverse, .directory)} := by
  ext ⟨trail, e⟩
  simp only [along, Set.mem_union, Set.mem_ofPred_eq, Set.mem_singleton_iff, Prod.mk.injEq,
    List.prefix_concat_iff]
  rw [or_and_right, or_comm, List.reverse_eq_iff]

theorem Passable.of_prefix {outer : List Text} (h : t.Passable folder names)
    (houter : outer <+: names) : t.Passable folder outer :=
  fun inner hinner => h inner (hinner.trans houter)

/-! ## Making directories -/

/-- Names along which there is nothing but directories lead to a vacant place, or to none, if
nothing is where they lead. -/
theorem leadFrom_of_passable {jump : Location → List Step → Except Fault Spot}
    (hnames : ∀ n ∈ names, IsName n) (hl : t.get? l = some .directory) (h : t.Passable l names)
    (hvacant : t.get? (names.reverse ++ l) = none) :
    (∃ parent last, t.leadFrom jump l (names.map .name) = .ok (.vacant parent last)) ∨
      t.leadFrom jump l (names.map .name) = .error .absent := by
  induction names generalizing l with
  | nil =>
    rw [List.reverse_nil, List.nil_append, hl] at hvacant
    cases hvacant
  | cons n rest ih =>
    have hshort : isTooLong n = false := (hnames n List.mem_cons_self).2.2.2
    simp only [List.map_cons, leadFrom, hshort, Bool.false_eq_true, if_false]
    cases hget : t.get? (n :: l) with
    | none =>
      simp only
      split
      · exact .inl ⟨l, n, rfl⟩
      · exact .inr rfl
    | some e =>
      obtain rfl := h [n] (List.prefix_append [n] rest) e hget
      have hrest : ∀ m ∈ rest, IsName m := fun m hm => hnames m (List.mem_cons_of_mem n hm)
      refine ih hrest hget (fun outer houter e he => ?_) ?_
      · refine h (n :: outer) (List.prefix_cons_inj n |>.mpr houter) e ?_
        rwa [List.reverse_cons, List.append_assoc, List.singleton_append]
      · rwa [List.reverse_cons, List.append_assoc, List.singleton_append] at hvacant

/-- Where a directory above is missing, a directory cannot be made at once. -/
theorem makeDirectory_of_vacant (hp : t.stat p = .ok (folder, .directory))
    (hnames : ∀ n ∈ names ++ [name], IsName n) (h : t.Passable folder names)
    (hvacant : t.get? (names.reverse ++ folder) = none) :
    t.makeDirectory (p.extend (names ++ [name])) = (t, some .absent) := by
  obtain ⟨hlead, hname⟩ := List.forall_mem_append.mp hnames
  have hname : IsName name := hname name List.mem_cons_self
  have hlast : (p.extend (names ++ [name])).segments.getLast? = some name := by
    rw [Path.segments_extend_append p names hname.1, List.getLast?_concat]
  obtain ⟨hpbarred, hplead⟩ := stat_eq_ok_iff.mp hp
  obtain ⟨k, hk⟩ := lead_append hplead
  have hspot : t.spot (p.extend names) = t.lead k folder (names.map .name) := by
    rw [spot, Path.holdsBarred_extend hpbarred hlead,
      Path.ofPath_extend p fun n hn => (hlead n hn).leadsDown, hk]
    rfl
  have hstop : (∃ parent last, t.spot (p.extend names) = .ok (.vacant parent last)) ∨
      t.spot (p.extend names) = .error .absent := by
    rw [hspot]
    cases k with
    | zero => exact leadFrom_of_passable hlead (get?_of_stat hp) h hvacant
    | succ k => exact leadFrom_of_passable hlead (get?_of_stat hp) h hvacant
  rw [makeDirectory, makeEntry, place, hlast, Path.parent_extend p names hname.1]
  rcases hstop with ⟨_, _, hstop⟩ | hstop
  · simp only [hname.2.2.1, hstop, Bool.false_eq_true, if_false]
  · simp only [hname.2.2.1, hstop, Bool.false_eq_true, if_false]

/-- In a directory that is there, a directory is made unless it is there already. -/
theorem forgiving_makeDirectory (hp : t.stat p = .ok (l, .directory)) (hname : IsName name)
    (hfree : ∀ e, t.get? (name :: l) = some e → e = .directory) :
    ∃ t', forgiving true (p.extend [name]) (t.makeDirectory (p.extend [name])) = (t', none) ∧
      ∀ m, t'.get? m = if m = name :: l then some .directory else t.get? m := by
  rcases makeDirectory_extend hp hname.leadsDown with ⟨hadmits, hmake⟩ | ⟨hnot, f, -, hmake⟩
  · rw [hmake]
    exact ⟨_, rfl, get?_insert hadmits⟩
  · -- as the name may be given, it is taken
    obtain ⟨e, he⟩ : ∃ e, t.get? (name :: l) = some e :=
      Option.ne_none_iff_exists'.mp fun hnone => hnot ⟨hname, get?_of_stat hp, hnone⟩
    obtain rfl := hfree e he
    have hstat : t.stat (p.extend [name].reverse) = .ok ([name] ++ l, .directory) :=
      stat_extend hp he Entry.directory_ne_link (List.cons_ne_nil name [])
    have hdirectory : t.isDirectory (p.extend [name]) = true := isDirectory_iff.mpr ⟨_, hstat⟩
    refine ⟨t, ?_, fun m => ?_⟩
    · rw [hmake, forgiving, hdirectory]
      rfl
    · split
      · next hm => rw [hm, he]
      · rfl

/-- Below a directory that is there, only the last directory is made. -/
theorem makeDirectoriesUpTo_of_directory (hp : t.stat p = .ok (folder, .directory))
    (hget : t.get? (names.reverse ++ folder) = some .directory) (hname : LeadsDown name)
    (above : Nat) (existing : Bool) :
    t.makeDirectoriesUpTo above (p.extend (names ++ [name])) existing =
      forgiving existing (p.extend (names ++ [name]))
        (t.makeDirectory (p.extend (names ++ [name]))) := by
  refine makeDirectoriesUpTo_of_ne_absent ?_ above existing
  rw [← Path.extend_extend]
  rcases makeDirectory_extend (stat_extend_names hp hget Entry.directory_ne_link) hname with
    ⟨-, hmake⟩ | ⟨-, f, hf, hmake⟩
  · rw [hmake]
    nofun
  · rw [hmake]
    exact fun heq => hf (Option.some.inj heq)

/-- Below a missing directory, the directories above are made first. -/
theorem makeDirectoriesUpTo_of_vacant (hp : t.stat p = .ok (folder, .directory))
    (hnames : ∀ n ∈ names ++ [name], IsName n) (h : t.Passable folder names)
    (hvacant : t.get? (names.reverse ++ folder) = none) {above : Nat}
    (hmade : t.makeDirectoriesUpTo above (p.extend names) true = (t', none)) (existing : Bool) :
    t.makeDirectoriesUpTo (above + 1) (p.extend (names ++ [name])) existing =
      forgiving existing (p.extend (names ++ [name]))
        (t'.makeDirectory (p.extend (names ++ [name]))) := by
  have hseg : IsSegment name := (hnames name (List.mem_append_right names List.mem_cons_self)).1
  simp only [makeDirectoriesUpTo, makeDirectory_of_vacant hp hnames h hvacant,
    Path.parent_extend p names hseg, hmade]

/-- Along names where there is nothing but directories, all directories are made. -/
theorem IsFolder.makeDirectoriesUpTo_of_passable (hp : t.IsFolder p folder) {above : Nat}
    (habove : names.length ≤ above) (hnames : ∀ n ∈ names, IsName n)
    (h : t.Passable folder names) :
    ∃ t', t.makeDirectoriesUpTo above (p.extend names) true = (t', none) ∧
      Gains folder (along names) t t' := by
  induction names using List.reverseRecOn generalizing above with
  | nil =>
    refine ⟨t, ?_, .of_subset ?_⟩
    · rw [Path.extend_nil, makeDirectoriesUpTo_of_stat hp.stat, forgiving,
        isDirectory_iff.mpr ⟨_, hp.stat⟩]
      rfl
    · rintro ⟨trail, e⟩ ⟨htrail, rfl⟩
      rw [List.reverse_eq_nil_iff.mp (List.prefix_nil.mp htrail)]
      exact get?_of_stat hp.stat
  | append_singleton outer name ih =>
    obtain ⟨houter, hname⟩ := List.forall_mem_append.mp hnames
    have hname : IsName name := hname name List.mem_cons_self
    have hpass : t.Passable folder outer := h.of_prefix (List.prefix_append outer [name])
    rw [List.length_append, List.length_singleton] at habove
    obtain ⟨above, rfl⟩ : ∃ k, above = k + 1 := ⟨above - 1, by omega⟩
    -- the directories above are there, or they are made first; the last one follows
    obtain ⟨t₁, hmake, hgains, hfolder⟩ : ∃ t₁,
        t.makeDirectoriesUpTo (above + 1) (p.extend (outer ++ [name])) true =
          forgiving true (p.extend (outer ++ [name]))
            (t₁.makeDirectory (p.extend (outer ++ [name]))) ∧
        Gains folder (along outer) t t₁ ∧ t₁.IsFolder p folder := by
      cases hget : t.get? (outer.reverse ++ folder) with
      | some e =>
        obtain rfl := hpass outer (List.prefix_refl outer) e hget
        refine ⟨t, makeDirectoriesUpTo_of_directory hp.stat hget hname.leadsDown _ _,
          .of_subset ?_, hp⟩
        rintro ⟨trail, e⟩ ⟨htrail, rfl⟩
        have hdir := get?_of_prefix hget htrail
        rwa [List.reverse_reverse] at hdir
      | none =>
        obtain ⟨t₁, hdirs, hgains⟩ := ih (by omega : outer.length ≤ above) houter hpass
        have hfills := hp.fills_makeDirectoriesUpTo above (fun n hn => (houter n hn).leadsDown) true
        rw [hdirs] at hfills
        exact ⟨t₁, makeDirectoriesUpTo_of_vacant hp.stat hnames hpass hget hdirs true, hgains,
          hp.of_fills hfills⟩
    have hdir : t₁.get? (outer.reverse ++ folder) = some .directory := by
      refine (hgains _ _).mpr (.inr ⟨?_, rfl⟩)
      exact (List.reverse_reverse outer).symm ▸ List.prefix_refl outer
    have hfree : ∀ e, t₁.get? (name :: (outer.reverse ++ folder)) = some e → e = .directory := by
      intro e he
      rcases (hgains (name :: outer.reverse) e).mp he with he | ⟨-, rfl⟩
      · refine h (outer ++ [name]) (List.prefix_refl _) e ?_
        rwa [List.reverse_append, List.reverse_singleton]
      · rfl
    obtain ⟨t₂, hlast, hget⟩ :=
      forgiving_makeDirectory (stat_extend_names hfolder.stat hdir Entry.directory_ne_link) hname hfree
    rw [Path.extend_extend] at hlast
    refine ⟨t₂, hmake.trans hlast, ?_⟩
    rw [along_concat, List.reverse_append, List.reverse_singleton]
    exact hgains.trans (.singleton hget hfree)

theorem IsFolder.makeDirectories_of_passable (hp : t.IsFolder p folder)
    (hnames : ∀ n ∈ names, IsName n) (h : t.Passable folder names) :
    ∃ t', t.makeDirectories (p.extend names) true = (t', none) ∧
      Gains folder (along names) t t' := by
  refine hp.makeDirectoriesUpTo_of_passable ?_ hnames h
  rw [p.segments_extend fun n hn => (hnames n hn).1, List.length_append]
  exact Nat.le_add_left _ _

/-! ## Copying files -/

/-- A file is copied to a place in a directory where nothing is, or where the same is that the
copy leaves there. -/
theorem copyFile_extend (hp : t.stat p = .ok (l, .directory)) (hname : IsName name)
    {source : Path} {m : Location} {content : ByteArray} {mtime : Int}
    (hsource : t.stat source = .ok (m, .file content mtime)) (hm : m ≠ name :: l)
    (hfree : ∀ e, t.get? (name :: l) = some e → e = .file content mtime) :
    ∃ t', t.copyFile source (p.extend [name]) = (t', none) ∧
      ∀ k, t'.get? k = if k = name :: l then some (.file content mtime) else t.get? k := by
  have hread : t.read source = .ok (content, mtime) := by rw [read, hsource]
  cases hget : t.get? (name :: l) with
  | none =>
    have hspot := spot_extend_of_vacant hp hname hget
    have hstat : t.stat (p.extend [name]) = .error .absent := by rw [stat, hspot]
    have hadmits : t.Admits l name := ⟨hname, get?_of_stat hp, hget⟩
    refine ⟨t.insert l name (.file content mtime), ?_, get?_insert hadmits⟩
    simp only [copyFile, copyTarget, isDirectory, hstat, sameEntry, hsource, hread, writeFile,
      hspot, Bool.false_eq_true, if_false]
  | some e =>
    obtain rfl := hfree e hget
    have hstat : t.stat (p.extend [name]) = .ok (name :: l, .file content mtime) :=
      @stat_extend_names _ _ _ [name] hp _ hget (Entry.file_ne_link _ _)
    refine ⟨t.overwrite (name :: l) content mtime, ?_, fun k => ?_⟩
    · simp only [copyFile, copyTarget, isDirectory, hstat, sameEntry, hsource, hread, writeFile,
        spot_of_stat hstat, Entry.isDirectory, hm, decide_false, Bool.false_eq_true, if_false]
    · rw [get?_overwrite]
      split
      · next hk =>
        rw [hk, hget]
        rfl
      · exact Option.map_id'

end FileTree

end IgnoredPaths
