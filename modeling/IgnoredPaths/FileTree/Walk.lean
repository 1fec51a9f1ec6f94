import IgnoredPaths.FileTree.Resolve

/-!
# Walking a directory

A walk visits everything below a directory. It keeps the directories still to be listed on a
stack: the entries of the topmost are reported in the order of their names, and its
directories go onto the stack with the first one on top. Links are reported as they are and
never entered. A directory that cannot be listed contributes nothing, and neither does one
whose name is to be skipped. A walk begins where a directory was found, so never at a path with a
barred character.

- `FileTree.visit`: what one directory contributes.
- `FileTree.walkFrom`: the walk from a stack of directories.
- `FileTree.walk`: the walk from a path.

The walk ends because a directory on the stack weighs more than all directories in it
together (`weight_visit_lt`): its weight is a power of the number of entries, with the number
of levels that may be below it as the exponent.
-/

namespace IgnoredPaths

/-- The names on the way from the directory where a walk starts, the innermost first. -/
abbrev Trail := List Text

namespace FileTree

/-- The entries that a directory contributes to a walk, with whether they are directories. -/
def visit (t : FileTree) (skip : Text → Bool) (l : Location) : List (Text × Bool) :=
  match t.list? l with
  | none => []
  | some found =>
    (found.filter fun p => !(p.2.isDirectory && skip p.1)).map fun p => (p.1, p.2.isDirectory)

/-- The trails of the directories among the entries of a directory. -/
def subdirectories (trail : Trail) (found : List (Text × Bool)) : List Trail :=
  (found.filter (·.2)).map fun p => p.1 :: trail

/-! ## Why a walk ends -/

/-- The sum of some numbers. -/
def total : List Nat → Nat
  | [] => 0
  | n :: l => n + total l

/-- A number of names that no location in the tree exceeds. -/
def reach (t : FileTree) : Nat := total (t.entries.map fun p => p.1.length)

/-- How much listing a location can entail. -/
def weight (t : FileTree) (l : Location) : Nat :=
  Nat.pow (t.entries.length + 1) (t.reach - l.length)

/-- How much listing the directories of a stack can entail. -/
def stackWeight (t : FileTree) (root : Location) (stack : List Trail) : Nat :=
  total (stack.map fun trail => t.weight (trail ++ root))

theorem le_total_of_mem {n : Nat} : ∀ {l : List Nat}, n ∈ l → n ≤ total l
  | [], h => absurd h List.not_mem_nil
  | m :: l, h => by
    rw [total]
    rcases List.mem_cons.mp h with rfl | h
    · exact Nat.le_add_right _ _
    · exact Nat.le_trans (le_total_of_mem h) (Nat.le_add_left _ _)

theorem total_append : ∀ a b : List Nat, total (a ++ b) = total a + total b
  | [], b => (Nat.zero_add _).symm
  | n :: a, b => by
    rw [List.cons_append, total, total, total_append a b, Nat.add_assoc]

theorem length_le_reach {t : FileTree} {l : Location} {e : Entry} (hl : l ≠ [])
    (h : t.get? l = some e) : l.length ≤ t.reach :=
  le_total_of_mem (List.mem_map.mpr ⟨(l, e), (get?_eq_some_iff hl).mp h, rfl⟩)

theorem mem_visit {t : FileTree} {skip : Text → Bool} {l : Location} {p : Text × Bool}
    (h : p ∈ t.visit skip l) : ∃ e, t.get? (p.1 :: l) = some e := by
  rw [visit] at h
  split at h
  · exact absurd h List.not_mem_nil
  · next found hf =>
    obtain ⟨⟨n, e⟩, hq, rfl⟩ := List.mem_map.mp h
    rw [list?] at hf
    split at hf
    · rw [Option.some.injEq] at hf
      exact ⟨e, mem_children.mp (hf ▸ (List.mem_filter.mp hq).1)⟩
    · exact absurd hf.symm (Option.some_ne_none _)

theorem length_visit_le (t : FileTree) (skip : Text → Bool) (l : Location) :
    (t.visit skip l).length ≤ t.entries.length := by
  rw [visit]
  split
  · exact Nat.zero_le _
  · next found hf =>
    rw [List.length_map]
    rw [list?] at hf
    split at hf
    · rw [Option.some.injEq] at hf
      rw [← hf]
      exact Nat.le_trans (List.length_filter_le _ _) (t.length_children_le l)
    · exact absurd hf.symm (Option.some_ne_none _)

theorem stackWeight_le (t : FileTree) (root : Location) (w : Nat) :
    ∀ stack : List Trail, (∀ trail ∈ stack, t.weight (trail ++ root) ≤ w) →
      t.stackWeight root stack ≤ stack.length * w
  | [], _ => Nat.zero_le _
  | trail :: stack, h => by
    have ih := stackWeight_le t root w stack fun x hx => h x (List.mem_cons_of_mem _ hx)
    have hw := h trail List.mem_cons_self
    rw [stackWeight, List.map_cons, total, List.length_cons, Nat.succ_mul,
      Nat.add_comm (stack.length * w)]
    exact Nat.add_le_add hw ih

theorem stackWeight_append (t : FileTree) (root : Location) (a b : List Trail) :
    t.stackWeight root (a ++ b) = t.stackWeight root a + t.stackWeight root b := by
  rw [stackWeight, List.map_append, total_append]
  rfl

/-- The directories in a directory weigh less than it does. -/
theorem weight_visit_lt (t : FileTree) (skip : Text → Bool) (root : Location) (trail : Trail) :
    t.stackWeight root (subdirectories trail (t.visit skip (trail ++ root)))
      < t.weight (trail ++ root) := by
  generalize hfound : t.visit skip (trail ++ root) = found
  cases hsub : subdirectories trail found with
  | nil => exact Nat.pow_pos (Nat.succ_pos _)
  | cons first rest =>
    have hmem : ∀ x ∈ subdirectories trail found, ∃ n e,
        x = n :: trail ∧ t.get? (n :: (trail ++ root)) = some e := by
      intro x hx
      obtain ⟨p, hp, rfl⟩ := List.mem_map.mp hx
      have := mem_visit (hfound ▸ (List.mem_filter.mp hp).1 : p ∈ t.visit skip (trail ++ root))
      exact ⟨p.1, this.choose, rfl, this.choose_spec⟩
    obtain ⟨n, e, -, he⟩ := hmem first (hsub ▸ List.mem_cons_self)
    have hlen : (trail ++ root).length + 1 ≤ t.reach := length_le_reach (List.cons_ne_nil _ _) he
    obtain ⟨k, hk⟩ : ∃ k, t.reach - (trail ++ root).length = k + 1 :=
      ⟨t.reach - (trail ++ root).length - 1, by omega⟩
    have hbound : ∀ x ∈ subdirectories trail found,
        t.weight (x ++ root) ≤ Nat.pow (t.entries.length + 1) k := by
      intro x hx
      obtain ⟨m, -, rfl, -⟩ := hmem x hx
      rw [weight, List.cons_append, List.length_cons]
      exact Nat.le_of_eq (congrArg _ (by omega))
    have hcount : (subdirectories trail found).length ≤ t.entries.length := by
      rw [subdirectories, List.length_map]
      exact Nat.le_trans (List.length_filter_le _ _) (hfound ▸ t.length_visit_le skip _)
    rw [← hsub, weight, hk]
    show _ < Nat.pow (t.entries.length + 1) k * (t.entries.length + 1)
    rw [Nat.mul_comm]
    calc t.stackWeight root (subdirectories trail found)
        ≤ (subdirectories trail found).length * Nat.pow (t.entries.length + 1) k :=
          t.stackWeight_le root _ _ hbound
      _ ≤ t.entries.length * Nat.pow (t.entries.length + 1) k := Nat.mul_le_mul_right _ hcount
      _ < (t.entries.length + 1) * Nat.pow (t.entries.length + 1) k :=
          Nat.mul_lt_mul_of_pos_right (Nat.lt_succ_self _) (Nat.pow_pos (Nat.succ_pos _))

/-! ## The walk -/

/-- The walk from a stack of directories. -/
def walkFrom (t : FileTree) (skip : Text → Bool) (root : Location) :
    List Trail → List (Trail × Bool)
  | [] => []
  | trail :: stack =>
    (t.visit skip (trail ++ root)).map (fun p => (p.1 :: trail, p.2)) ++
      walkFrom t skip root (subdirectories trail (t.visit skip (trail ++ root)) ++ stack)
termination_by stack => t.stackWeight root stack
decreasing_by
  rw [stackWeight_append]
  exact Nat.add_lt_add_right (t.weight_visit_lt skip root trail) _

/-- Everything below a path, with whether it is a directory; the directories whose names are to
be skipped are left out, with what is below them. -/
def walkSkipping (t : FileTree) (skip : Text → Bool) (root : Path) : List (Path × Bool) :=
  match t.stat root with
  | .ok (l, _) => (t.walkFrom skip l [[]]).map fun p => (root.extend p.1.reverse, p.2)
  | .error _ => []

/-- Everything below a path, with whether it is a directory. -/
def walk (t : FileTree) (root : Path) : List (Path × Bool) := t.walkSkipping (fun _ => false) root

end FileTree

end IgnoredPaths
