import IgnoredPaths.Proofs.Project

/-!
# What the supplemental scan contributes

The scan keeps the directories that it has taken, to pass over what lies below them. Taking what
lies below them again would contribute nothing new, so that what the scan contributes can be said
without them: what the entries contribute that are left out, each for itself.

- `Pass.Terms.leftOut`: an entry that an index leaves out and that was not reported.
- `Pass.Terms.supplemented_eq`: what the scan contributes.
- `Pass.Terms.taken_le_taken`: what lies below a directory contributes nothing beside it.
-/

namespace IgnoredPaths

namespace Pass.Terms

variable (k : Terms) (t : FileTree) (known : List Text)

/-- Whether an entry has a name that an index leaves out and was not reported either. -/
def leftOut (k : Terms) (known : List Text) (found : Path × Bool) : Bool :=
  ProjectPath.isSpecialName found.1.name && !known.contains (projectRelative k.root found.1)

/-- Whether an entry lies below one of some directories, as the scan tells. -/
def Covered (k : Terms) (covered : List Text) (found : Path × Bool) : Prop :=
  ∃ c ∈ covered, Text.startsWith (projectRelative k.root found.1) (c ++ ['/']) = true

/-- Whether an entry is a directory and another lies below it, as the scan tells. -/
def Covers (k : Terms) (dir found : Path × Bool) : Prop :=
  dir.2 = true ∧ Text.startsWith (projectRelative k.root found.1)
    (projectRelative k.root dir.1 ++ ['/']) = true

/-- An entry that is taken covers what lies below it, if it is a directory. -/
theorem covered_taken_iff (covered : List Text) (taken found : Path × Bool) :
    k.Covered (if taken.2 then covered ++ [projectRelative k.root taken.1] else covered) found ↔
      k.Covered covered found ∨ k.Covers taken found := by
  cases hdirectory : taken.2 with
  | false => simp [Covers, hdirectory]
  | true => simp [Covered, Covers, hdirectory, or_and_right, exists_or]

theorem passesOver_iff (covered : List Text) (found : Path × Bool) :
    k.passesOver known covered found = true ↔
      k.leftOut known found = false ∨ k.Covered covered found := by
  rw [passesOver, leftOut, Bool.or_eq_true, List.any_eq_true, Bool.and_eq_false_iff,
    Bool.or_eq_true]
  simp [Covered]

/-- What the scan contributes beside some findings, if these hold what the directories taken so
far contribute and each directory covers what the scan takes to lie below it. -/
theorem supplemented_sup_eq {l : List (Path × Bool)} {covered : List Text} {c : Findings}
    (hcovered : ∀ found ∈ l, k.Covered covered found → k.taken t found ≤ c)
    (hcover : ∀ dir ∈ l, ∀ found ∈ l, k.Covers dir found → k.taken t found ≤ k.taken t dir) :
    k.supplemented t known covered l ⊔ c =
      (⨆ found ∈ l, ⨆ _ : k.leftOut known found = true, k.taken t found) ⊔ c := by
  induction l generalizing covered c with
  | nil => simp [supplemented]
  | cons found rest ih =>
    have hcoverRest : ∀ dir ∈ rest, ∀ found ∈ rest, k.Covers dir found →
        k.taken t found ≤ k.taken t dir :=
      fun dir hd found hf => hcover dir (List.mem_cons_of_mem _ hd) found (List.mem_cons_of_mem _ hf)
    have hrest := ih (fun g hg => hcovered g (List.mem_cons_of_mem _ hg)) hcoverRest
    rw [supplemented, Findings.iSup_cons]
    by_cases hleft : k.leftOut known found = true
    · rw [iSup_pos hleft]
      by_cases hcov : k.Covered covered found
      · -- the entry is passed over, and what it contributes is there already
        have hle := (hcovered found List.mem_cons_self hcov).trans
          (le_sup_right : c ≤ (⨆ g ∈ rest, ⨆ _ : k.leftOut known g = true, k.taken t g) ⊔ c)
        rw [if_pos ((k.passesOver_iff known covered found).mpr (.inr hcov)), hrest, sup_assoc]
        exact (sup_eq_right.mpr hle).symm
      · -- the entry is taken: what it contributes joins `c`, as its text joins `covered`
        have hpass : ¬ k.passesOver known covered found = true := by
          rw [passesOver_iff]
          rintro (h | h)
          · rw [hleft] at h
            cases h
          · exact hcov h
        rw [if_neg hpass, sup_assoc, sup_assoc, sup_left_comm, sup_left_comm (k.taken t found)]
        refine ih (fun g hg hgcov => ?_) hcoverRest
        rcases (k.covered_taken_iff covered found g).mp hgcov with hgcov | hcovers
        · exact (hcovered g (List.mem_cons_of_mem _ hg) hgcov).trans le_sup_right
        · exact (hcover found List.mem_cons_self g (List.mem_cons_of_mem _ hg) hcovers).trans
            le_sup_left
    · rw [iSup_neg hleft, bot_sup_eq, ← hrest,
        if_pos ((k.passesOver_iff known covered found).mpr (.inl (by simpa using hleft)))]

/-! ## Entries of a project -/

variable {k t known} {dir : Text} {trail : Trail} {e : Entry}

/-- What an entry contributes that the scan takes, said by the text of the entry. -/
theorem taken_extend (h : t.Shows k.root dir trail e) (hlegible : t.Legible k.root)
    (hdir : Path.anchorOf dir = .relative) :
    k.taken t ((k.root.resolve dir).extend trail.reverse, e.isDirectory) =
      if e.isDirectory then k.shown t dir trail e ⊔
        k.below t (k.root.resolve (ProjectPath.descend dir trail.reverse))
      else if Text.endsWith (ProjectPath.descend dir trail.reverse) k.suffix then ⊥
      else k.shown t dir trail e := by
  rw [taken, h.projectRelative hlegible hdir, h.resolve hdir, shown]
  cases e.isDirectory <;> rfl

/-- What the scan takes below a directory is part of what lies below it. -/
theorem taken_le_below (h : t.Shows k.root dir trail e) (hlegible : t.Legible k.root)
    (hdir : Path.anchorOf dir = .relative) :
    k.taken t ((k.root.resolve dir).extend trail.reverse, e.isDirectory) ≤
      k.below t (k.root.resolve dir) := by
  have hshown := shown_le_below h hlegible hdir
  rw [taken_extend h hlegible hdir]
  split
  · next hdirectory =>
    obtain rfl := FileTree.eq_directory hdirectory
    exact sup_le hshown (below_le_below h hlegible hdir)
  · split
    · exact bot_le
    · exact hshown

/-- What the scan takes to lie below a directory contributes nothing beside it. -/
theorem taken_le_taken (hlegible : t.Legible k.root) (hdir : Path.anchorOf dir = .relative)
    (hdirectory : t.isDirectory (k.root.resolve dir) = true) {outer found : Path × Bool}
    (houter : outer ∈ t.walk (k.root.resolve dir))
    (hfound : found ∈ t.walk (k.root.resolve dir)) (hcovers : k.Covers outer found) :
    k.taken t found ≤ k.taken t outer := by
  obtain ⟨houterDirectory, hstart⟩ := hcovers
  obtain ⟨trail, d, hshows, -, rfl⟩ :=
    (FileTree.mem_walkSkipping_iff hdirectory).mp houter
  obtain ⟨inner, e, hinner, -, rfl⟩ :=
    (FileTree.mem_walkSkipping_iff hdirectory).mp hfound
  obtain rfl := FileTree.eq_directory houterDirectory
  rw [hshows.projectRelative hlegible hdir, hinner.projectRelative hlegible hdir] at hstart
  obtain ⟨rest, hrest, rfl⟩ := hinner.exists_append_of_startsWith hshows hstart
  have hbelow := (FileTree.shows_append_iff hshows hdir hrest).mp hinner
  have hrel : Path.anchorOf (ProjectPath.descend dir trail.reverse) = .relative :=
    ProjectPath.anchorOf_descend hshows.isSegment
  -- the walk of the outer directory finds the entry under the same path
  have hpath : (k.root.resolve dir).extend (rest ++ trail).reverse =
      (k.root.resolve (ProjectPath.descend dir trail.reverse)).extend rest.reverse := by
    rw [← hinner.resolve hdir, ← hbelow.resolve hrel,
      ProjectPath.descend_descend hshows.isSegment, List.reverse_append]
  rw [taken_extend hshows hlegible hdir, hpath]
  exact (taken_le_below hbelow hlegible hrel).trans le_sup_right

/-- What the scan contributes: what the entries contribute that are left out, each for itself. -/
theorem supplemented_eq (hlegible : t.Legible k.root) (hdir : Path.anchorOf dir = .relative)
    (hdirectory : t.isDirectory (k.root.resolve dir) = true) (known : List Text) :
    k.supplemented t known [] (t.walk (k.root.resolve dir)) =
      ⨆ found ∈ t.walk (k.root.resolve dir), ⨆ _ : k.leftOut known found = true,
        k.taken t found := by
  have huncovered : ∀ found ∈ t.walk (k.root.resolve dir), k.Covered [] found →
      k.taken t found ≤ ⊥ :=
    fun found _ ⟨_, hnone, _⟩ => absurd hnone List.not_mem_nil
  have h := k.supplemented_sup_eq t known huncovered
    fun outer houter found hfound hcovers =>
      taken_le_taken hlegible hdir hdirectory houter hfound hcovers
  rwa [sup_bot_eq, sup_bot_eq] at h

theorem leftOut_extend {name : Text} (h : t.Shows k.root dir (name :: trail) e)
    (hlegible : t.Legible k.root) (hdir : Path.anchorOf dir = .relative) (known : List Text) :
    k.leftOut known ((k.root.resolve dir).extend (name :: trail).reverse, e.isDirectory) = true ↔
      ProjectPath.isSpecialName name = true ∧
        ProjectPath.descend dir (name :: trail).reverse ∉ known := by
  rw [leftOut, h.name_extend, h.projectRelative hlegible hdir]
  simp

/-- The scan takes each entry that is left out. -/
theorem taken_le_supplemented {name : Text} (h : t.Shows k.root dir (name :: trail) e)
    (hlegible : t.Legible k.root) (hdir : Path.anchorOf dir = .relative)
    (hname : ProjectPath.isSpecialName name = true)
    (hknown : ProjectPath.descend dir (name :: trail).reverse ∉ known) :
    k.taken t ((k.root.resolve dir).extend (name :: trail).reverse, e.isDirectory) ≤
      k.supplemented t known [] (t.walk (k.root.resolve dir)) := by
  rw [supplemented_eq hlegible hdir h.isDirectory]
  refine le_iSup₂_of_le _ h.mem_walk (le_iSup_of_le ?_ le_rfl)
  exact (leftOut_extend h hlegible hdir known).mpr ⟨hname, hknown⟩

/-- The scan takes nothing but entries that are left out. -/
theorem supplemented_le {c : Findings} (hlegible : t.Legible k.root)
    (hdir : Path.anchorOf dir = .relative)
    (hdirectory : t.isDirectory (k.root.resolve dir) = true)
    (h : ∀ name trail e, t.Shows k.root dir (name :: trail) e →
      ProjectPath.isSpecialName name = true →
        k.taken t ((k.root.resolve dir).extend (name :: trail).reverse, e.isDirectory) ≤ c) :
    k.supplemented t known [] (t.walk (k.root.resolve dir)) ≤ c := by
  rw [supplemented_eq hlegible hdir hdirectory]
  refine iSup₂_le fun found hfound => iSup_le fun hleft => ?_
  obtain ⟨trail, e, hshows, -, rfl⟩ := (FileTree.mem_walkSkipping_iff hdirectory).mp hfound
  obtain ⟨name, trail, rfl⟩ := List.exists_cons_of_ne_nil hshows.ne_nil
  exact h name trail e hshows ((leftOut_extend hshows hlegible hdir known).mp hleft).1

end Pass.Terms

end IgnoredPaths
