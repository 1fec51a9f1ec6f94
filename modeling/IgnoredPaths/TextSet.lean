import IgnoredPaths.Text.Basic

/-!
# Sets of texts

A set of texts is kept as its strictly ascending list, so that two sets with the same members
are the same set and the list is already the order in which members are reported.

- `TextSet.insert`, `TextSet.union`: the set operations.
- `TextSet.mem_insert`, `TextSet.mem_union`: what they do to membership.
- `TextSet.ext`: members determine a set.
-/

namespace IgnoredPaths

/-- A finite set of texts. -/
structure TextSet where
  toList : List Text
  ascending : toList.Pairwise (· < ·)
  deriving DecidableEq

namespace TextSet

instance : Membership Text TextSet := ⟨fun s x => x ∈ s.toList⟩

instance (x : Text) (s : TextSet) : Decidable (x ∈ s) := inferInstanceAs (Decidable (x ∈ s.toList))

/-- The set without members. -/
def empty : TextSet := ⟨[], .nil⟩

instance : EmptyCollection TextSet := ⟨empty⟩

/-- Insertion into an ascending list. -/
def insertInto (x : Text) : List Text → List Text
  | [] => [x]
  | y :: r => if x = y then y :: r else if x < y then x :: y :: r else y :: insertInto x r

theorem mem_insertInto {x z : Text} : ∀ {l : List Text}, z ∈ insertInto x l ↔ z = x ∨ z ∈ l
  | [] => by simp [insertInto]
  | y :: r => by
    rw [insertInto]
    split
    · next h => subst h; simp
    · split
      · simp
      · rw [List.mem_cons, mem_insertInto, List.mem_cons]
        constructor
        · rintro (h | h | h) <;> simp [h]
        · rintro (h | h | h) <;> simp [h]

theorem pairwise_insertInto (x : Text) :
    ∀ {l : List Text}, l.Pairwise (· < ·) → (insertInto x l).Pairwise (· < ·)
  | [], _ => by simp [insertInto]
  | y :: r, h => by
    obtain ⟨hy, hr⟩ := List.pairwise_cons.mp h
    rw [insertInto]
    split
    · exact h
    · next hne =>
      split
      · next hlt =>
        refine List.pairwise_cons.mpr ⟨fun z hz => ?_, h⟩
        rcases List.mem_cons.mp hz with rfl | hz
        · exact hlt
        · exact List.lt_trans hlt (hy z hz)
      · next hnlt =>
        refine List.pairwise_cons.mpr ⟨fun z hz => ?_, pairwise_insertInto x hr⟩
        rcases mem_insertInto.mp hz with rfl | hz
        · exact Text.lt_of_not_lt hnlt (Ne.symm hne)
        · exact hy z hz

/-- The set with one more member. -/
def insert (x : Text) (s : TextSet) : TextSet :=
  ⟨insertInto x s.toList, pairwise_insertInto x s.ascending⟩

/-- The set of the members of a list. -/
def ofList (l : List Text) : TextSet := l.foldl (fun s x => s.insert x) ∅

/-- The members of two sets. -/
def union (s t : TextSet) : TextSet := t.toList.foldl (fun s x => s.insert x) s

instance : Union TextSet := ⟨union⟩

@[simp] theorem mem_toList {x : Text} {s : TextSet} : x ∈ s.toList ↔ x ∈ s := Iff.rfl

@[simp] theorem not_mem_empty (x : Text) : x ∉ (∅ : TextSet) := List.not_mem_nil

@[simp] theorem mem_insert {x y : Text} {s : TextSet} : x ∈ s.insert y ↔ x = y ∨ x ∈ s :=
  mem_insertInto

theorem mem_foldl_insert {x : Text} :
    ∀ {l : List Text} {s : TextSet}, x ∈ l.foldl (fun s y => s.insert y) s ↔ x ∈ l ∨ x ∈ s
  | [], s => by simp
  | y :: r, s => by
    rw [List.foldl_cons, mem_foldl_insert, mem_insert, List.mem_cons]
    constructor
    · rintro (h | h | h) <;> simp [h]
    · rintro ((h | h) | h) <;> simp [h]

@[simp] theorem mem_ofList {x : Text} {l : List Text} : x ∈ ofList l ↔ x ∈ l := by
  rw [ofList, mem_foldl_insert]
  simp

@[simp] theorem mem_union {x : Text} {s t : TextSet} : x ∈ s ∪ t ↔ x ∈ s ∨ x ∈ t := by
  show x ∈ union s t ↔ _
  rw [union, mem_foldl_insert, mem_toList]
  exact Or.comm

/-- Two ascending lists with the same members are equal. -/
theorem eq_of_mem_iff :
    ∀ {l m : List Text}, l.Pairwise (· < ·) → m.Pairwise (· < ·) → (∀ x, x ∈ l ↔ x ∈ m) → l = m
  | [], [], _, _, _ => rfl
  | [], y :: m, _, _, h => absurd ((h y).mpr List.mem_cons_self) List.not_mem_nil
  | x :: l, [], _, _, h => absurd ((h x).mp List.mem_cons_self) List.not_mem_nil
  | x :: l, y :: m, hl, hm, h => by
    obtain ⟨hx, hl'⟩ := List.pairwise_cons.mp hl
    obtain ⟨hy, hm'⟩ := List.pairwise_cons.mp hm
    have hxy : x = y := by
      rcases List.mem_cons.mp ((h x).mp List.mem_cons_self) with h1 | h1
      · exact h1
      · rcases List.mem_cons.mp ((h y).mpr List.mem_cons_self) with h2 | h2
        · exact h2.symm
        · exact absurd (List.lt_trans (hy x h1) (hx y h2)) (List.lt_irrefl y)
    subst hxy
    refine congrArg (x :: ·) (eq_of_mem_iff hl' hm' fun z => ⟨fun hz => ?_, fun hz => ?_⟩)
    · rcases List.mem_cons.mp ((h z).mp (List.mem_cons_of_mem _ hz)) with rfl | h1
      · exact absurd (hx z hz) (List.lt_irrefl z)
      · exact h1
    · rcases List.mem_cons.mp ((h z).mpr (List.mem_cons_of_mem _ hz)) with rfl | h1
      · exact absurd (hy z hz) (List.lt_irrefl z)
      · exact h1

/-- Sets with the same members are equal. -/
theorem ext {s t : TextSet} (h : ∀ x, x ∈ s ↔ x ∈ t) : s = t := by
  obtain ⟨l, hl⟩ := s
  obtain ⟨m, hm⟩ := t
  have : l = m := eq_of_mem_iff hl hm h
  subst this
  rfl

end TextSet

end IgnoredPaths
