import IgnoredPaths.FileTree.Canonical
import IgnoredPaths.Proofs.Resolve
import Mathlib.Data.List.Nodup

/-!
# Canonical paths of directories

To follow a path, links are replaced by their targets one after another, and more than forty are a
fault. For its canonical form each link is followed to its end first, inside of other links if need
be, and a link that comes up while it is followed is a circle. Where a path leads to a directory the
two agree: no link comes up inside of itself, because it would need fewer links there than it needs.

- `FileTree.Leads`: which steps lead to which directory, and through how many links.
- `FileTree.real_of_leads`: the canonical form of such steps, with links that wait for their end.
- `FileTree.canonical_of_stat`: a path to a directory has the canonical path of its location.
- `FileTree.stat_toPath`: that path leads to the directory.
-/

namespace IgnoredPaths

namespace FileTree

variable {t : FileTree} {l m : Location} {c : Nat}

/-- Steps lead from a location to a directory, through directories and links only. The number
counts the links, those in targets of links included. -/
inductive Leads (t : FileTree) : Location → List Step → Nat → Location → Prop where
  | nil (l : Location) : Leads t l [] 0 l
  | here {l m : Location} {rest : List Step} {c : Nat} (h : Leads t l rest c m) :
      Leads t l (.here :: rest) c m
  | up {l m : Location} {rest : List Step} {c : Nat} (h : Leads t l.tail rest c m) :
      Leads t l (.up :: rest) c m
  | down {l m : Location} {n : Text} {rest : List Step} {c : Nat}
      (hget : t.get? (n :: l) = some .directory) (h : Leads t (n :: l) rest c m) :
      Leads t l (.name n :: rest) c m
  | link {l via m : Location} {n target : Text} {rest : List Step} {c c' : Nat}
      (hget : t.get? (n :: l) = some (.link target))
      (htarget : Leads t (linkBase target l) (Step.ofTarget target) c via)
      (h : Leads t via rest c' m) : Leads t l (.name n :: rest) (c + 1 + c') m

namespace Leads

/-- Steps lead to one directory, through one number of links. -/
theorem unique {steps : List Step} {c' : Nat} {m' : Location} (h : t.Leads l steps c m)
    (h' : t.Leads l steps c' m') : c = c' ∧ m = m' := by
  induction h generalizing c' m' with
  | nil l =>
    cases h'
    exact ⟨rfl, rfl⟩
  | here _ ih =>
    cases h' with
    | here h' => exact ih h'
  | up _ ih =>
    cases h' with
    | up h' => exact ih h'
  | down hget _ ih =>
    cases h' with
    | down _ h' => exact ih h'
    | link hget' _ _ => cases hget.symm.trans hget'
  | link hget _ _ ihTarget ih =>
    cases h' with
    | down hget' _ => cases hget.symm.trans hget'
    | link hget' htarget' h' =>
      cases hget.symm.trans hget'
      obtain ⟨rfl, rfl⟩ := ihTarget htarget'
      obtain ⟨rfl, rfl⟩ := ih h'
      exact ⟨rfl, rfl⟩

/-- Steps that lead somewhere can be cut in two. -/
theorem exists_append {first rest : List Step} (h : t.Leads l (first ++ rest) c m) :
    ∃ via c₁ c₂, t.Leads l first c₁ via ∧ t.Leads via rest c₂ m := by
  induction first generalizing l c with
  | nil => exact ⟨l, 0, c, .nil l, h⟩
  | cons step first ih =>
    cases h with
    | here h =>
      obtain ⟨via, c₁, c₂, hfirst, hrest⟩ := ih h
      exact ⟨via, c₁, c₂, .here hfirst, hrest⟩
    | up h =>
      obtain ⟨via, c₁, c₂, hfirst, hrest⟩ := ih h
      exact ⟨via, c₁, c₂, .up hfirst, hrest⟩
    | down hget h =>
      obtain ⟨via, c₁, c₂, hfirst, hrest⟩ := ih h
      exact ⟨via, c₁, c₂, .down hget hfirst, hrest⟩
    | link hget htarget h =>
      obtain ⟨via, c₁, c₂, hfirst, hrest⟩ := ih h
      exact ⟨via, _, c₂, .link hget htarget hfirst, hrest⟩

end Leads

/-- Steps that are followed to a directory lead to it, if this holds of the steps from a link on. -/
theorem exists_leads_of_leadFrom {jump : Location → List Step → Except Fault Spot}
    (hjump : ∀ base steps, jump base steps = .ok (.taken m .directory) →
      ∃ c, t.Leads base steps c m) {steps : List Step}
    (h : t.leadFrom jump l steps = .ok (.taken m .directory)) : ∃ c, t.Leads l steps c m := by
  induction steps generalizing l with
  | nil =>
    cases h
    exact ⟨0, .nil _⟩
  | cons step rest ih =>
    cases step with
    | here => exact (ih h).imp fun _ => .here
    | up => exact (ih h).imp fun _ => .up
    | name n =>
      simp only [leadFrom] at h
      split at h
      · cases h
      · split at h
        · split at h <;> cases h
        · next hget => exact (ih h).imp fun _ => .down hget
        · split at h <;> cases h
        · next target hget =>
          obtain ⟨c, hall⟩ := hjump _ _ h
          obtain ⟨via, c₁, c₂, htarget, hrest⟩ := hall.exists_append
          exact ⟨_, .link hget htarget hrest⟩

theorem exists_leads_of_lead {n : Nat} {steps : List Step}
    (h : t.lead n l steps = .ok (.taken m .directory)) : ∃ c, t.Leads l steps c m := by
  induction n generalizing l steps with
  | zero => exact exists_leads_of_leadFrom (fun _ _ hjump => by cases hjump) h
  | succ n ih => exact exists_leads_of_leadFrom (fun _ _ hjump => ih hjump) h

section

variable {enter : List Location → Location → List Step → Except Location Location}
  {busy : List Location} {n : Text} {rest : List Step}

/-- A step to the entry of a name. -/
theorem realFrom_name : t.realFrom enter busy l (.name n :: rest) =
    match t.get? (n :: l) with
    | some (.link target) =>
      if n :: l ∈ busy then .error (Step.blindly (n :: l) rest)
      else
        match enter ((n :: l) :: busy) (linkBase target l) (Step.ofTarget target) with
        | .ok via => t.realFrom enter busy via rest
        | .error m => .error (Step.blindly m rest)
    | _ => t.realFrom enter busy (n :: l) rest :=
  rfl

/-- A step to a directory. -/
theorem realFrom_of_directory (hget : t.get? (n :: l) = some .directory) :
    t.realFrom enter busy l (.name n :: rest) = t.realFrom enter busy (n :: l) rest := by
  rw [realFrom_name, hget]

/-- A step to a link that is free, and has an end. -/
theorem realFrom_of_link {via : Location} {target : Text}
    (hget : t.get? (n :: l) = some (.link target)) (hfree : n :: l ∉ busy)
    (henter : enter ((n :: l) :: busy) (linkBase target l) (Step.ofTarget target) = .ok via) :
    t.realFrom enter busy l (.name n :: rest) = t.realFrom enter busy via rest := by
  rw [realFrom_name, hget]
  simp only [if_neg hfree, henter]

end

/-- A link waits for its end if more links are needed from it on than a given number. -/
def Waits (t : FileTree) (c : Nat) (place : Location) : Prop :=
  ∃ name parent c' via, place = name :: parent ∧ t.Leads parent [.name name] c' via ∧ c < c'

theorem Waits.mono {c' : Nat} {place : Location} (h : t.Waits c place) (hle : c' ≤ c) :
    t.Waits c' place := by
  obtain ⟨name, parent, needed, via, hplace, hleads, hlt⟩ := h
  exact ⟨name, parent, needed, via, hplace, hleads, Nat.lt_of_le_of_lt hle hlt⟩

/-- Steps lead where they lead by way of canonical forms too. The links that are being followed wait
for more links than the steps still need, so none of them comes up again; and there are not more of
them than entries. -/
theorem real_of_leads {depth : Nat} {busy : List Location} {steps : List Step}
    (hnodup : busy.Nodup) (hsubset : busy ⊆ t.entries.map Prod.fst)
    (hdepth : depth + busy.length = t.entries.length + 1)
    (hwaits : ∀ place ∈ busy, t.Waits c place) (h : t.Leads l steps c m) :
    t.real depth busy l steps = .ok m := by
  induction depth generalizing busy l steps c m with
  | zero =>
    have hle := hnodup.length_le_of_subset hsubset
    rw [List.length_map] at hle
    omega
  | succ depth ih =>
    rw [real]
    induction h with
    | nil l => rfl
    | here _ ihRest => exact ihRest hwaits
    | up _ ihRest => exact ihRest hwaits
    | down hget _ ihRest =>
      rw [realFrom_of_directory hget]
      exact ihRest hwaits
    | @link l via m n target rest c c' hget htarget hrest _ ihRest =>
      have hfree : n :: l ∉ busy := by
        intro hbusy
        obtain ⟨name, parent, needed, via', hplace, hleads, hlt⟩ := hwaits _ hbusy
        obtain ⟨rfl, rfl⟩ := List.cons.inj hplace
        obtain ⟨rfl, -⟩ := hleads.unique (.link hget htarget (.nil via))
        omega
      have hentry : n :: l ∈ t.entries.map Prod.fst :=
        List.mem_map.mpr ⟨_, (get?_eq_some_iff (List.cons_ne_nil _ _)).mp hget, rfl⟩
      have henter : t.real depth ((n :: l) :: busy) (linkBase target l) (Step.ofTarget target) =
          .ok via := by
        refine ih (List.nodup_cons.mpr ⟨hfree, hnodup⟩) (List.cons_subset.mpr ⟨hentry, hsubset⟩)
          (by rw [List.length_cons]; omega) (fun place hplace => ?_) htarget
        rcases List.mem_cons.mp hplace with rfl | hplace
        · exact ⟨n, l, c + 1 + 0, via, rfl, .link hget htarget (.nil via), by omega⟩
        · exact (hwaits place hplace).mono (by omega)
      have hafter := ihRest fun place hplace => (hwaits place hplace).mono (by omega)
      rw [realFrom_of_link hget hfree henter]
      exact hafter

/-- A path that leads to a directory has the canonical path of the directory's location. -/
theorem canonical_of_stat {p : Path} (h : t.stat p = .ok (l, .directory)) :
    t.canonical p = .ok (Location.toPath l) := by
  obtain ⟨hbarred, hlead⟩ := stat_eq_ok_iff.mp h
  obtain ⟨c, hleads⟩ := exists_leads_of_lead hlead
  -- at first no link is being followed
  have hreal : t.real (t.entries.length + 1) [] [] (Step.ofPath p) = .ok l :=
    real_of_leads .nil (List.nil_subset _) rfl nofun hleads
  rw [canonical, hbarred, hreal]
  rfl

/-! ## Locations -/

theorem stat_root (t : FileTree) : t.stat (.ofText ['/']) = .ok ([], .directory) := rfl

/-- The path of a directory's location leads to the directory. -/
theorem stat_toPath (h : t.get? l = some .directory) :
    t.stat (Location.toPath l) = .ok (l, .directory) := by
  have hreverse : l.reverse.reverse ++ [] = l := by rw [List.reverse_reverse, List.append_nil]
  have hget : t.get? (l.reverse.reverse ++ []) = some .directory := by rwa [hreverse]
  have hstat := stat_extend_names t.stat_root hget Entry.directory_ne_link
  rwa [hreverse] at hstat

/-- The directory above a directory is that of its location without the innermost name. -/
theorem parent_toPath (h : t.get? l = some .directory) :
    (Location.toPath l).parent = Location.toPath l.tail := by
  cases l with
  | nil => rfl
  | cons name rest =>
    rw [Location.toPath, List.reverse_cons]
    exact Path.parent_extend _ _ (isName_of_get? h).1

theorem get?_tail (h : t.get? l = some .directory) : t.get? l.tail = some .directory := by
  cases l with
  | nil => exact h
  | cons name rest => exact get?_parent h

end FileTree

end IgnoredPaths
