import IgnoredPaths.FileTree.Walk
import IgnoredPaths.Proofs.Resolve

/-!
# What a walk finds

A walk keeps a stack of directories, but what it finds can be said without one: the entries that
are visible below the directory where it starts, apart from those in directories to be skipped.

Nothing is said here about the order in which the entries are found.

- `FileTree.Visible`: an entry that listing leads to. `FileTree.visible_append_iff` takes the way
  to it apart at any directory on it.
- `FileTree.mem_walkFrom`: what a walk finds from a stack of directories.
- `FileTree.mem_walkSkipping`: what a walk finds below a path.
-/

namespace IgnoredPaths

namespace FileTree

variable {t : FileTree} {skip : Text → Bool} {l : Location}

/-- An entry is visible below a directory if that directory and every directory between them can
be listed. -/
def Visible (t : FileTree) (l : Location) (trail : Trail) (e : Entry) : Prop :=
  trail ≠ [] ∧ t.get? (trail ++ l) = some e ∧
    ∀ inner, inner <:+ trail → inner ≠ trail → (t.list? (inner ++ l)).isSome = true

/-- Whether no directory on the way to an entry is to be skipped, nor the entry itself if it is a
directory. -/
def Unskipped (skip : Text → Bool) (trail : Trail) (e : Entry) : Prop :=
  ∀ name ∈ if e.isDirectory then trail else trail.tail, skip name = false

/-! ## The way to an entry -/

theorem isSome_list?_iff :
    (t.list? l).isSome = true ↔ t.get? l = some .directory ∧ l ∉ t.locked := by
  rw [list?]
  split
  · next h => exact iff_of_true rfl h
  · next h => exact iff_of_false Bool.false_ne_true h

theorem visible_singleton {name : Text} {e : Entry} :
    t.Visible l [name] e ↔ (t.list? l).isSome = true ∧ t.get? (name :: l) = some e := by
  constructor
  · rintro ⟨-, hget, hlist⟩
    exact ⟨hlist [] List.nil_suffix (by simp), hget⟩
  · rintro ⟨hlist, hget⟩
    refine ⟨List.cons_ne_nil _ _, hget, fun inner hin hne => ?_⟩
    rcases List.suffix_cons_iff.mp hin with h | h
    · exact absurd h hne
    · rw [List.suffix_nil.mp h]
      exact hlist

/-- The way to an entry can be taken apart at a directory on it. -/
theorem visible_append_iff {rest trail : Trail} {e : Entry} (hrest : rest ≠ [])
    (htrail : trail ≠ []) : t.Visible l (rest ++ trail) e ↔
      t.Visible l trail .directory ∧ t.Visible (trail ++ l) rest e := by
  have hne : ∀ inner, inner <:+ trail → inner ≠ rest ++ trail := by
    rintro inner hin rfl
    have := hin.length_le
    rw [List.length_append] at this
    exact hrest (List.length_eq_zero_iff.mp (by omega))
  constructor
  · rintro ⟨-, hget, hlist⟩
    have hmid := hlist trail (List.suffix_append rest trail) (hne trail (List.suffix_refl trail))
    refine ⟨⟨htrail, (isSome_list?_iff.mp hmid).1, fun inner hin _ => ?_⟩,
      hrest, by rw [← List.append_assoc, hget], fun inner hin hinner => ?_⟩
    · exact hlist inner (hin.trans (List.suffix_append rest trail)) (hne inner hin)
    · rw [← List.append_assoc]
      exact hlist (inner ++ trail) (List.suffix_append_self_iff.mpr hin)
        fun h => hinner (List.append_cancel_right h)
  · rintro ⟨⟨-, -, hlist⟩, -, hget, hlist'⟩
    refine ⟨List.append_ne_nil_of_right_ne_nil _ htrail, by rw [List.append_assoc, hget],
      fun inner hin hinner => ?_⟩
    -- an inner directory lies before the end of `trail`, or there, or beyond
    rcases List.suffix_or_suffix_of_suffix hin (List.suffix_append rest trail) with h | h
    · by_cases heq : inner = trail
      · rw [heq]
        exact hlist' [] List.nil_suffix hrest.symm
      · exact hlist inner h heq
    · obtain ⟨beyond, rfl⟩ := h
      rw [List.append_assoc]
      exact hlist' beyond (List.suffix_append_self_iff.mp hin) fun h => hinner (by rw [h])

/-- Whether an entry is skipped can be told on either part of the way to it. -/
theorem unskipped_append_iff {rest trail : Trail} {e : Entry} (hrest : rest ≠ []) :
    Unskipped skip (rest ++ trail) e ↔
      Unskipped skip trail .directory ∧ Unskipped skip rest e := by
  have hif : (if e.isDirectory then rest ++ trail else (rest ++ trail).tail) =
      (if e.isDirectory then rest else rest.tail) ++ trail := by
    split
    · rfl
    · exact List.tail_append_of_ne_nil hrest
  rw [Unskipped, Unskipped, Unskipped, hif, List.forall_mem_append, and_comm]
  rfl

/-! ## Walks -/

/-- What a directory contributes to a walk is what is visible directly in it. -/
theorem mem_visit_iff {p : Text × Bool} : p ∈ t.visit skip l ↔
    ∃ e, p.2 = e.isDirectory ∧ t.Visible l [p.1] e ∧ Unskipped skip [p.1] e := by
  obtain ⟨name, b⟩ := p
  have hskip : ∀ e : Entry,
      Unskipped skip [name] e ↔ (!(e.isDirectory && skip name)) = true := by
    intro e
    cases hdir : e.isDirectory <;> simp [Unskipped, hdir]
  simp only [visible_singleton, hskip, visit]
  cases hlist : t.list? l with
  | none => simp
  | some found =>
    have hfound : found = t.children l := by
      rw [list?] at hlist
      split at hlist
      · exact (Option.some.inj hlist).symm
      · cases hlist
    subst hfound
    simp only [List.mem_map, List.mem_filter, Option.isSome_some, true_and]
    constructor
    · rintro ⟨⟨n, e⟩, ⟨hmem, hkeep⟩, heq⟩
      obtain ⟨rfl, rfl⟩ := Prod.mk.inj heq
      exact ⟨e, rfl, mem_children.mp hmem, hkeep⟩
    · rintro ⟨e, rfl, hget, hkeep⟩
      exact ⟨(name, e), ⟨mem_children.mpr hget, hkeep⟩, rfl⟩

/-- A walk from a stack finds what is visible below the directories on it, unless it is skipped. -/
theorem mem_walkFrom (root : Location) (stack : List Trail) (p : Trail × Bool) :
    p ∈ t.walkFrom skip root stack ↔ ∃ trail ∈ stack, ∃ rest e,
      p = (rest ++ trail, e.isDirectory) ∧ t.Visible (trail ++ root) rest e ∧
        Unskipped skip rest e := by
  fun_induction t.walkFrom skip root stack with
  | case1 => simp
  | case2 trail stack ih =>
    rw [List.mem_append, List.mem_map, ih]
    constructor
    · rintro (⟨⟨name, b⟩, hq, rfl⟩ | ⟨inner, hinner, rest, e, rfl, hvis, hskip⟩)
      · obtain ⟨e, rfl, hvis, hskip⟩ := mem_visit_iff.mp hq
        exact ⟨trail, List.mem_cons_self, [name], e, rfl, hvis, hskip⟩
      · rcases List.mem_append.mp hinner with h | h
        · -- what is below a directory in the topmost one is below the topmost one
          obtain ⟨⟨name, b⟩, hq, rfl⟩ := List.mem_map.mp h
          obtain ⟨hq, hb⟩ := List.mem_filter.mp hq
          obtain ⟨d, hd, hdvis, hdskip⟩ := mem_visit_iff.mp hq
          obtain rfl : d = .directory := eq_directory (hd.symm.trans hb)
          refine ⟨trail, List.mem_cons_self, rest ++ [name], e, by simp, ?_, ?_⟩
          · exact (visible_append_iff hvis.1 (List.cons_ne_nil _ _)).mpr ⟨hdvis, hvis⟩
          · exact (unskipped_append_iff hvis.1).mpr ⟨hdskip, hskip⟩
        · exact ⟨inner, List.mem_cons_of_mem _ h, rest, e, rfl, hvis, hskip⟩
    · rintro ⟨outer, houter, rest, e, rfl, hvis, hskip⟩
      rcases List.mem_cons.mp houter with rfl | h
      · obtain ⟨rest, name, rfl⟩ := (List.eq_nil_or_concat' rest).resolve_left hvis.1
        by_cases hrest : rest = []
        · subst hrest
          exact .inl ⟨(name, e.isDirectory), mem_visit_iff.mpr ⟨e, rfl, hvis, hskip⟩, rfl⟩
        · obtain ⟨hdvis, hvis⟩ := (visible_append_iff hrest (List.cons_ne_nil _ _)).mp hvis
          obtain ⟨hdskip, hskip⟩ := (unskipped_append_iff hrest).mp hskip
          have hsub : name :: outer ∈ subdirectories outer (t.visit skip (outer ++ root)) :=
            List.mem_map.mpr ⟨(name, true), List.mem_filter.mpr
              ⟨mem_visit_iff.mpr ⟨.directory, rfl, hdvis, hdskip⟩, rfl⟩, rfl⟩
          exact .inr ⟨name :: outer, List.mem_append_left _ hsub, rest, e, by simp, hvis, hskip⟩
      · exact .inr ⟨outer, List.mem_append_right _ h, rest, e, rfl, hvis, hskip⟩

/-- A walk from a path finds what is visible below the directory there, unless it is skipped. -/
theorem mem_walkSkipping {root : Path} {l : Location} {d : Entry} (hroot : t.stat root = .ok (l, d))
    (found : Path × Bool) : found ∈ t.walkSkipping skip root ↔ ∃ trail e,
      found = (root.extend trail.reverse, e.isDirectory) ∧ t.Visible l trail e ∧
        Unskipped skip trail e := by
  simp only [walkSkipping, hroot, List.mem_map]
  constructor
  · rintro ⟨p, hp, rfl⟩
    obtain ⟨_, hnil, trail, e, rfl, hvis, hskip⟩ := (mem_walkFrom l [[]] p).mp hp
    rw [List.mem_singleton.mp hnil] at hvis ⊢
    exact ⟨trail, e, by simp, hvis, hskip⟩
  · rintro ⟨trail, e, rfl, hvis, hskip⟩
    refine ⟨(trail, e.isDirectory), (mem_walkFrom l [[]] _).mpr ?_, rfl⟩
    exact ⟨[], List.mem_singleton_self _, trail, e, by simp, hvis, hskip⟩

end FileTree

end IgnoredPaths
