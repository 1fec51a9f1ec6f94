import IgnoredPaths.Export
import IgnoredPaths.Proofs.Resolve
import Mathlib.Data.List.Nodup

/-!
# The folder of an export

The search for a folder tries the wanted name and then numbered ones. The names differ from each
other, so that no more of them can be taken than there are entries, and the search ends at a name
at which nothing is found.

What is found is not what is there: a link that leads nowhere takes a name all the same.

- `numberedName`: the names that are tried; `numbered_resolve` gives their paths.
- `length_le_of_found`: how many names can be found in a row.
- `FolderSearch`: the search without a limit; `folderSearch_freeFolder` says that it ends, and
  `FolderSearch.exists_last` what it has met then.
- `destinationOf_eq_ok`: what an export has found out when it knows its folder; `destinationOf_cases`
  says which folder it is.
- `exists_destinationOf`: in a directory without links an export finds a folder.
-/

namespace IgnoredPaths

/-- The names that are tried for a folder: the wanted one, then the same with a number. -/
def numberedName (name : Text) : Nat → Text
  | 0 => name
  | n + 1 => name ++ " (".toList ++ Text.ofNat (n + 1) ++ [')']

/-- A folder whose name passed the check is an entry of the directory it is made in. -/
theorem leadsDown_of_checkFolderName {name : Text} (h : checkFolderName name = .ok ()) :
    LeadsDown name := by
  rw [checkFolderName] at h
  split at h
  · cases h
  · next hstrip =>
    split at h
    · cases h
    · next hslash =>
      split at h
      · cases h
      · next hreserved =>
        simp only [Bool.or_eq_true, decide_eq_true_eq, List.contains_iff_mem, not_or]
          at hslash hreserved
        refine ⟨⟨?_, hreserved.1, hslash.1⟩, hreserved.2⟩
        rintro rfl
        exact hstrip rfl

theorem slash_not_mem_ofNat (n : Nat) : '/' ∉ Text.ofNat n := by
  intro h
  have := Nat.isDigit_of_mem_toDigits (by decide) (by decide) h
  exact absurd this (by decide)

theorem leadsDown_numberedName {name : Text} (h : LeadsDown name) (n : Nat) :
    LeadsDown (numberedName name n) := by
  cases n with
  | zero => exact h
  | succ n =>
    -- a closing bracket tells a numbered name from the reserved ones
    have hmem : ')' ∈ numberedName name (n + 1) := List.mem_append_right _ List.mem_cons_self
    have hne : ∀ s : Text, ')' ∉ s → numberedName name (n + 1) ≠ s := by
      rintro s hs rfl
      exact hs hmem
    refine ⟨⟨hne _ (by decide), hne _ (by decide), ?_⟩, hne _ (by decide)⟩
    simp only [numberedName, List.mem_append, not_or]
    exact ⟨⟨⟨h.1.2.2, by decide⟩, slash_not_mem_ofNat _⟩, by decide⟩

/-- The names that are tried differ from each other. -/
theorem numberedName_injective (name : Text) : Function.Injective (numberedName name) := by
  have hlong : ∀ n, numberedName name (n + 1) ≠ name := by
    intro n h
    have := congrArg List.length h
    simp only [numberedName, List.length_append, List.length_singleton] at this
    omega
  intro m n h
  cases m with
  | zero =>
    cases n with
    | zero => rfl
    | succ n => exact absurd h.symm (hlong n)
  | succ m =>
    cases n with
    | zero => exact absurd h (hlong m)
    | succ n =>
      have hdigits : Nat.toDigits 10 (m + 1) = Nat.toDigits 10 (n + 1) := by
        simpa [numberedName, Text.ofNat] using h
      have := congrArg (Nat.ofDigitChars 10 · 0) hdigits
      simpa [Nat.ofDigitChars_toDigits] using this

/-- A name without slashes leads to an entry of a directory. -/
theorem resolve_name (parent : Path) {name : Text} (h : IsSegment name) :
    parent.resolve name = parent.extend [name] := by
  have hrel : Path.anchorOf name = .relative := by
    refine Path.anchorOf_eq_relative fun c hc => ?_
    rintro rfl
    exact h.2.2 (List.mem_of_mem_head? hc)
  have hsegments : Path.segmentsOf (Text.joinWith '/' [name]) = [name] :=
    Path.segmentsOf_joinWith fun s hs => List.mem_singleton.mp hs ▸ h
  rw [Text.joinWith] at hsegments
  rw [parent.resolve_eq_extend hrel, hsegments]

/-- The paths that are tried lead to entries of the directory that receives the folder. -/
theorem numbered_resolve (parent : Path) {name : Text} (h : LeadsDown name) (n : Nat) :
    numbered (parent.resolve name) n = parent.extend [numberedName name n] := by
  have hbase := resolve_name parent h.1
  have hname : (parent.resolve name).name = name := by
    rw [hbase, ← List.nil_append [name]]
    exact parent.name_extend fun s hs => List.mem_singleton.mp hs ▸ h.1
  have hparent : (parent.resolve name).parent = parent := by
    rw [hbase, ← List.nil_append [name], Path.parent_extend parent [] h.1, Path.extend_nil]
  cases n with
  | zero => exact hbase
  | succ n =>
    rw [numbered, Path.withName, hname, hparent]
    rfl

/-! ## The search -/

namespace FileTree

variable {t : FileTree} {l : Location} {p : Path}

/-- Something is found at a path exactly if the path leads to it. -/
theorem exists?_eq_ok_true_iff :
    t.exists? p = .ok true ↔ ∃ found, t.stat p = .ok found := by
  rw [exists?, find?]
  cases t.stat p with
  | ok found => simp [Except.map]
  | error f => cases hf : f.meansAbsent <;> simp [Except.map, hf]

theorem isDirectory?_eq_ok_true_iff :
    t.isDirectory? p = .ok true ↔ ∃ l, t.stat p = .ok (l, .directory) := by
  rw [isDirectory?, find?]
  cases t.stat p with
  | ok found =>
    obtain ⟨l, e⟩ := found
    cases e <;> simp [Except.map, Entry.isDirectory]
  | error f => cases hf : f.meansAbsent <;> simp [Except.map, hf]

/-- Whether something is found at a name in a directory can be told, and is what is there, unless
that is a link. -/
theorem exists?_extend {name : Text} (hp : t.stat p = .ok (l, .directory)) (hname : IsName name)
    (hlink : ∀ target, t.get? (name :: l) ≠ some (.link target)) :
    t.exists? (p.extend [name]) = .ok (t.get? (name :: l)).isSome := by
  rw [exists?, find?]
  cases hget : t.get? (name :: l) with
  | none =>
    rw [stat, spot_extend_of_vacant hp hname hget]
    rfl
  | some e =>
    have hne : ∀ target, e ≠ .link target := fun target he => hlink target (he ▸ hget)
    have hstat := @stat_extend_names t l p [name] hp e hget hne
    rw [hstat]
    rfl

/-- A name at which something is found in a directory is taken there. -/
theorem isSome_get?_of_exists? {name : Text} (hp : t.stat p = .ok (l, .directory))
    (hname : LeadsDown name) (h : t.exists? (p.extend [name]) = .ok true) :
    (t.get? (name :: l)).isSome = true := by
  obtain ⟨⟨m, e⟩, hstat⟩ := exists?_eq_ok_true_iff.mp h
  rw [← List.nil_append [name]] at hstat
  have hlast : (p.extend ([] ++ [name])).segments.getLast? = some name := by
    rw [Path.segments_extend_append p [] hname.1, List.getLast?_concat]
  obtain ⟨dir, hdir, htaken⟩ := stat_parent hlast hstat
  rw [Path.parent_extend p [] hname.1, Path.extend_nil] at hdir
  rw [stat_unique hp hdir]
  exact (htaken hname.2).2

/-- No more names can be found in a row than there are entries. -/
theorem length_le_of_found {parent : Path} {name : Text}
    (hparent : t.stat parent = .ok (l, .directory)) (hname : LeadsDown name) {k : Nat}
    (h : ∀ i < k, t.exists? (numbered (parent.resolve name) i) = .ok true) :
    k ≤ t.entries.length := by
  have hinj : Function.Injective fun i => numberedName name i :: l :=
    fun _ _ hij => numberedName_injective name (List.cons.inj hij).1
  have hnodup : ((List.range k).map fun i => numberedName name i :: l).Nodup :=
    List.nodup_range.map hinj
  have hsubset : ((List.range k).map fun i => numberedName name i :: l) ⊆
      t.entries.map Prod.fst := by
    intro m hm
    obtain ⟨i, hi, rfl⟩ := List.mem_map.mp hm
    have hfound := h i (List.mem_range.mp hi)
    rw [numbered_resolve parent hname] at hfound
    have htaken := isSome_get?_of_exists? hparent (leadsDown_numberedName hname i) hfound
    obtain ⟨e, he⟩ := Option.isSome_iff_exists.mp htaken
    exact List.mem_map.mpr ⟨_, (get?_eq_some_iff (List.cons_ne_nil _ _)).mp he, rfl⟩
  simpa using hnodup.length_le_of_subset hsubset

end FileTree

/-- The search from the `n`-th path on, with no limit to the paths that are tried, ends with an
answer. -/
inductive FolderSearch (t : FileTree) (base : Path) : Nat → Except Fault Path → Prop where
  /-- Nothing is at the path. -/
  | free {n : Nat} (h : t.exists? (numbered base n) = .ok false) :
      FolderSearch t base n (.ok (numbered base n))
  /-- It cannot be told whether something is at the path. -/
  | fault {n : Nat} {f : Fault} (h : t.exists? (numbered base n) = .error f) :
      FolderSearch t base n (.error f)
  /-- Something is at the path, so the next one is tried. -/
  | next {n : Nat} {r : Except Fault Path} (h : t.exists? (numbered base n) = .ok true)
      (hnext : FolderSearch t base (n + 1) r) : FolderSearch t base n r

namespace FolderSearch

variable {t : FileTree} {base : Path} {n : Nat} {r : Except Fault Path}

/-- The search ends at the first path at which nothing is found, or at a fault before. -/
theorem exists_last (h : FolderSearch t base n r) :
    ∃ m, n ≤ m ∧ (∀ i, n ≤ i → i < m → t.exists? (numbered base i) = .ok true) ∧
      (t.exists? (numbered base m) = .ok false ∧ r = .ok (numbered base m) ∨
        ∃ f, t.exists? (numbered base m) = .error f ∧ r = .error f) := by
  induction h with
  | free h => exact ⟨_, Nat.le_refl _, fun i hi him => absurd him (Nat.not_lt.mpr hi), .inl ⟨h, rfl⟩⟩
  | fault h =>
    exact ⟨_, Nat.le_refl _, fun i hi him => absurd him (Nat.not_lt.mpr hi), .inr ⟨_, h, rfl⟩⟩
  | @next n r h _ ih =>
    obtain ⟨m, hnm, hbefore, hend⟩ := ih
    refine ⟨m, by omega, fun i hi him => ?_, hend⟩
    by_cases hin : i = n
    · rw [hin]
      exact h
    · exact hbefore i (by omega) him

/-- The search has one answer. -/
theorem unique {r' : Except Fault Path} (h : FolderSearch t base n r)
    (h' : FolderSearch t base n r') : r = r' := by
  induction h with
  | free h =>
    cases h' with
    | free h' => rfl
    | fault h' => cases h.symm.trans h'
    | next h' _ => cases h.symm.trans h'
  | fault h =>
    cases h' with
    | free h' => cases h.symm.trans h'
    | fault h' => exact congrArg _ (Except.error.inj (h.symm.trans h'))
    | next h' _ => cases h.symm.trans h'
  | next h _ ih =>
    cases h' with
    | free h' => cases h.symm.trans h'
    | fault h' => cases h.symm.trans h'
    | next _ hnext => exact ih hnext

end FolderSearch

/-- With a limit that is not reached, the search ends as without one. -/
theorem folderSearch_freeFolderFrom {t : FileTree} {base : Path} {tries n : Nat}
    (h : ∃ i, n ≤ i ∧ i < n + tries ∧ t.exists? (numbered base i) ≠ .ok true) :
    FolderSearch t base n (freeFolderFrom t base tries n) := by
  induction tries generalizing n with
  | zero =>
    obtain ⟨i, hi, hlt, -⟩ := h
    omega
  | succ tries ih =>
    rw [freeFolderFrom]
    split
    · next f hfault => exact .fault hfault
    · next hfree => exact .free hfree
    · next hfound =>
      obtain ⟨i, hi, hlt, hnot⟩ := h
      have hne : i ≠ n := fun hin => hnot (hin ▸ hfound)
      exact .next hfound (ih ⟨i, by omega, by omega, hnot⟩)

/-- The limit of the search is not reached, as there are not so many entries in the directory. -/
theorem folderSearch_freeFolder (t : FileTree) (parent : Path) {name : Text} (h : LeadsDown name) :
    FolderSearch t (parent.resolve name) 0 (freeFolder t (parent.resolve name)) := by
  refine folderSearch_freeFolderFrom ?_
  by_contra hall
  have hfound : ∀ i < t.entries.length + 2,
      t.exists? (numbered (parent.resolve name) i) = .ok true := by
    intro i hi
    by_contra hnot
    exact hall ⟨i, Nat.zero_le i, by omega, hnot⟩
  obtain ⟨⟨m, e⟩, hstat⟩ := FileTree.exists?_eq_ok_true_iff.mp (hfound 0 (by omega))
  -- the first path leads somewhere, so the directory of all of them is there
  have hlast : (parent.resolve name).segments.getLast? = some name := by
    rw [resolve_name parent h.1, ← List.nil_append [name],
      Path.segments_extend_append parent [] h.1, List.getLast?_concat]
  obtain ⟨l, hparent, -⟩ := FileTree.stat_parent hlast hstat
  have hself : (parent.resolve name).parent = parent := by
    rw [resolve_name parent h.1, ← List.nil_append [name], Path.parent_extend parent [] h.1,
      Path.extend_nil]
  rw [hself] at hparent
  have hle := FileTree.length_le_of_found hparent h hfound
  omega

/-- The folder that the search ends at has one of the names that are tried, something is found at
each name before it, and nothing at its own. -/
theorem freeFolder_eq_ok {t : FileTree} {parent destination : Path} {name : Text}
    (hname : LeadsDown name) (h : freeFolder t (parent.resolve name) = .ok destination) :
    ∃ n, destination = parent.extend [numberedName name n] ∧
      (∀ i < n, t.exists? (numbered (parent.resolve name) i) = .ok true) ∧
        t.exists? destination = .ok false := by
  obtain ⟨n, -, hfound, hend⟩ := (folderSearch_freeFolder t parent hname).exists_last
  rcases hend with ⟨hfree, heq⟩ | ⟨f, -, heq⟩
  · rw [h] at heq
    cases heq
    exact ⟨n, numbered_resolve parent hname n, fun i hi => hfound i (Nat.zero_le i) hi, hfree⟩
  · rw [h] at heq
    cases heq

/-- What an export has found out when it knows its folder. -/
theorem destinationOf_eq_ok {t : FileTree} {parent destination : Path} {name : Text}
    (h : destinationOf t parent name = .ok destination) :
    checkFolderName name = .ok () ∧ (∃ l, t.stat parent = .ok (l, .directory)) ∧
      freeFolder t (parent.resolve name) = .ok destination := by
  rw [destinationOf] at h
  split at h
  · cases h
  · next hcheck =>
    split at h
    · cases h
    · cases h
    · next hdirectory =>
      split at h
      · cases h
      · next hfree =>
        cases h
        exact ⟨hcheck, FileTree.isDirectory?_eq_ok_true_iff.mp hdirectory, hfree⟩

/-- Without a folder to export to, nothing is done. -/
theorem exportCollection_of_error {t : FileTree} {c : Collection} {root parent : Path}
    {name : Text} {e : ExportError} (h : destinationOf t parent name = .error e) (dryRun : Bool) :
    exportCollection t c root parent name dryRun = ⟨.error e, t, []⟩ := by
  rw [exportCollection, h]

/-- In a directory, an export goes to the first path at which nothing is found, unless it cannot be
told at one before whether something is. -/
theorem destinationOf_cases {t : FileTree} {parent : Path} {name : Text} {l : Location}
    (hcheck : checkFolderName name = .ok ()) (hparent : t.stat parent = .ok (l, .directory)) :
    ∃ n, (∀ i < n, t.exists? (numbered (parent.resolve name) i) = .ok true) ∧
      (t.exists? (parent.extend [numberedName name n]) = .ok false ∧
          destinationOf t parent name = .ok (parent.extend [numberedName name n]) ∨
        ∃ f, t.exists? (parent.extend [numberedName name n]) = .error f ∧
          destinationOf t parent name = .error (.unclear f)) := by
  have hname := leadsDown_of_checkFolderName hcheck
  obtain ⟨n, -, hfound, hend⟩ := (folderSearch_freeFolder t parent hname).exists_last
  rw [numbered_resolve parent hname] at hend
  refine ⟨n, fun i hi => hfound i (Nat.zero_le i) hi, ?_⟩
  rw [destinationOf, hcheck, FileTree.isDirectory?_eq_ok_true_iff.mpr ⟨l, hparent⟩]
  rcases hend with ⟨hfree, hanswer⟩ | ⟨f, hfault, hanswer⟩
  · exact .inl ⟨hfree, by rw [hanswer]⟩
  · exact .inr ⟨f, hfault, by rw [hanswer]⟩

/-- The operating system takes the names that are tried for a folder: none is too long, and none
holds a barred character. -/
def AllowsFolder (t : FileTree) (parent : Path) (name : Text) : Prop :=
  ∀ n, (∀ i < n, t.exists? (numbered (parent.resolve name) i) = .ok true) →
    IsName (numberedName name n)

/-- In a directory without links, an export finds a folder at which nothing is. -/
theorem exists_destinationOf {t : FileTree} {parent : Path} {name : Text} {l : Location}
    (hcheck : checkFolderName name = .ok ()) (hparent : t.stat parent = .ok (l, .directory))
    (hlink : ∀ n target, t.get? (n :: l) ≠ some (.link target))
    (hallows : AllowsFolder t parent name) :
    ∃ n, t.Admits l (numberedName name n) ∧
      destinationOf t parent name = .ok (parent.extend [numberedName name n]) := by
  obtain ⟨n, hn, hend⟩ := destinationOf_cases hcheck hparent
  have htold := FileTree.exists?_extend hparent (hallows n hn) (hlink _)
  rw [htold] at hend
  rcases hend with ⟨hvacant, hto⟩ | ⟨f, hfault, -⟩
  · have hnone := Option.not_isSome_iff_eq_none.mp (Bool.eq_false_iff.mp (Except.ok.inj hvacant))
    exact ⟨n, ⟨hallows n hn, FileTree.get?_of_stat hparent, hnone⟩, hto⟩
  · cases hfault

end IgnoredPaths
