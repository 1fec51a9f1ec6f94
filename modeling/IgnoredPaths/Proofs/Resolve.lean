import IgnoredPaths.FileTree.Resolve
import IgnoredPaths.Proofs.Path
import Mathlib.Data.List.Induction

/-!
# Where longer paths lead

A path that leads to a directory can be followed on, whatever links were met on the way: what
lies below the directory is found there under the path with more names. A path that leads
somewhere has led to directories on its way.

- `ProjectPath.StaysInside`: the texts that lead on from any directory.
- `FileTree.lead_append`: following some steps and then others.
- `FileTree.stat_extend`, `FileTree.spot_extend_of_vacant`: where a path with more names leads.
- `FileTree.stat_parent`, `FileTree.stat_extend_of_append`: where a path has led before its end.
- `FileTree.stat_mono`: where a path leads in a tree with more entries.
- `FileTree.exists_get?_of_stat`: each name in a path that leads somewhere is the name of an entry.
- `FileTree.fault_of_stat`: a path that leads nowhere does so because nothing is there, or because of
  a name that is too long.
-/

namespace IgnoredPaths

/-! ## Kinds of entries -/

theorem Entry.directory_ne_link (target : Text) : Entry.directory ≠ .link target := by
  intro h
  cases h

theorem Entry.file_ne_link (content : ByteArray) (mtime : Int) (target : Text) :
    Entry.file content mtime ≠ .link target := by
  intro h
  cases h

/-! ## Names as steps -/

/-- A segment that leads to an entry of a directory, and not out of the directory. -/
def LeadsDown (s : Text) : Prop := IsSegment s ∧ s ≠ upSegment

theorem IsName.leadsDown {name : Text} (h : IsName name) : LeadsDown name := ⟨h.1, h.2.1⟩

/-- A segment that does not lead up is the name of a step. -/
theorem Step.ofPiece_eq_name {s : Text} (h : IsSegment s) (hup : s ≠ upSegment) :
    Step.ofPiece s = .name s := by
  rw [ofPiece, if_neg fun hor => hor.elim h.1 h.2.1, if_neg hup]

theorem Step.eq_of_ofPiece_eq_name {s n : Text} (h : Step.ofPiece s = .name n) : s = n := by
  rw [ofPiece] at h
  split at h
  · cases h
  · split at h
    · cases h
    · cases h
      rfl

namespace Path

/-- Names that lead on from a path are steps after those of the path. -/
theorem ofPath_extend (p : Path) {names : List Text} (h : ∀ name ∈ names, LeadsDown name) :
    Step.ofPath (p.extend names) = Step.ofPath p ++ names.map .name := by
  rw [Step.ofPath, p.segments_extend fun name hname => (h name hname).1, List.map_append]
  refine congrArg _ (List.map_congr_left fun name hname => ?_)
  exact Step.ofPiece_eq_name (h name hname).1 (h name hname).2

theorem holdsBarred_extend {p : Path} {names : List Text} (hp : p.holdsBarred = false)
    (h : ∀ name ∈ names, IsName name) : (p.extend names).holdsBarred = false := by
  rw [holdsBarred, p.segments_extend fun name hname => (h name hname).1, List.any_append,
    ← holdsBarred, hp, Bool.false_or, List.any_eq_false]
  exact fun name hname => Bool.eq_false_iff.mp (h name hname).2.2.1

end Path

/-- A text that leads on from any directory: it is relative, and no segment of it leads up. -/
def ProjectPath.StaysInside (path : Text) : Prop :=
  Path.anchorOf path = .relative ∧ upSegment ∉ Path.segmentsOf path

instance (path : Text) : Decidable (ProjectPath.StaysInside path) :=
  inferInstanceAs (Decidable (_ ∧ _))

theorem ProjectPath.StaysInside.leadsDown {path : Text} (h : StaysInside path) :
    ∀ s ∈ Path.segmentsOf path, LeadsDown s := by
  intro s hs
  refine ⟨Path.isSegment_of_mem_segmentsOf hs, ?_⟩
  rintro rfl
  exact h.2 hs

theorem ProjectPath.StaysInside.resolve {path : Text} (h : StaysInside path) (p : Path) :
    p.resolve path = p.extend (Path.segmentsOf path) :=
  p.resolve_eq_extend h.1

namespace FileTree

variable {t : FileTree} {jump : Location → List Step → Except Fault Spot} {l dir : Location}

/-! ## Entries on the way -/

theorem get?_of_append {rest : List Text} {e : Entry} (h : t.get? (rest ++ l) = some e)
    (hrest : rest ≠ []) : t.get? l = some .directory := by
  induction rest generalizing e with
  | nil => exact absurd rfl hrest
  | cons name rest ih =>
    have hparent : t.get? (rest ++ l) = some .directory := get?_parent h
    by_cases hnil : rest = []
    · rwa [hnil] at hparent
    · exact ih hparent hnil

/-- Directories are on the way to a directory. -/
theorem get?_of_prefix {names outer : List Text} (h : t.get? (names.reverse ++ l) = some .directory)
    (houter : outer <+: names) : t.get? (outer.reverse ++ l) = some .directory := by
  obtain ⟨rest, rfl⟩ := houter
  rw [List.reverse_append, List.append_assoc] at h
  by_cases hrest : rest = []
  · rwa [hrest, List.reverse_nil, List.nil_append] at h
  · exact get?_of_append h fun hnil => hrest (List.reverse_eq_nil_iff.mp hnil)

/-- The names on the way to an entry are names of entries. -/
theorem exists_get?_of_mem {trail : List Text} {e : Entry} (h : t.get? (trail ++ l) = some e)
    {name : Text} (hname : name ∈ trail) : ∃ parent d, t.get? (name :: parent) = some d := by
  induction trail generalizing e with
  | nil => cases hname
  | cons first trail ih =>
    rcases List.mem_cons.mp hname with rfl | hname
    · exact ⟨trail ++ l, e, h⟩
    · exact ih (get?_parent h) hname

/-! ## Following steps -/

/-- Steps that lead to a directory can be taken before others: either on the spot or after the
first link that they meet. -/
theorem leadFrom_append {first : List Step}
    (h : t.leadFrom jump l first = .ok (.taken dir .directory)) :
    (∀ rest, t.leadFrom jump l (first ++ rest) = t.leadFrom jump dir rest) ∨
      ∃ base steps, jump base steps = .ok (.taken dir .directory) ∧
        ∀ rest, t.leadFrom jump l (first ++ rest) = jump base (steps ++ rest) := by
  induction first generalizing l with
  | nil =>
    cases h
    exact .inl fun rest => rfl
  | cons step first ih =>
    cases step with
    | here => exact ih h
    | up => exact ih h
    | name n =>
      simp only [leadFrom, List.cons_append] at h ⊢
      split at h
      · cases h
      · next hlong =>
        simp only [hlong, Bool.false_eq_true, if_false]
        split at h
        · split at h <;> cases h
        · next hget => exact ih h
        · split at h <;> cases h
        · -- from a link on, its target and the steps after it are up to `jump`
          next target hget => exact .inr ⟨_, _, h, fun rest => by rw [List.append_assoc]⟩

/-- Steps that lead to a directory can be taken before others, which then follow fewer links. -/
theorem lead_append {n : Nat} {first : List Step}
    (h : t.lead n l first = .ok (.taken dir .directory)) :
    ∃ k, ∀ rest, t.lead n l (first ++ rest) = t.lead k dir rest := by
  induction n generalizing l first with
  | zero =>
    rcases leadFrom_append h with hon | ⟨_, _, hjump, -⟩
    · exact ⟨0, hon⟩
    · cases hjump
  | succ n ih =>
    rcases leadFrom_append h with hon | ⟨base, steps, hjump, hon⟩
    · exact ⟨n + 1, hon⟩
    · obtain ⟨k, hk⟩ := ih hjump
      exact ⟨k, fun rest => (hon rest).trans (hk rest)⟩

/-- The names on the way to an entry lead to it, if it is no link. -/
theorem leadFrom_names {trail : List Text} {e : Entry} (hget : t.get? (trail ++ l) = some e)
    (hlink : ∀ target, e ≠ .link target) (htrail : trail ≠ []) :
    t.leadFrom jump l (trail.reverse.map .name) = .ok (.taken (trail ++ l) e) := by
  induction trail using List.reverseRecOn generalizing l with
  | nil => exact absurd rfl htrail
  | append_singleton rest name ih =>
    obtain ⟨_, _, hname⟩ := exists_get?_of_mem hget (List.mem_append_right rest List.mem_cons_self)
    have hshort : isTooLong name = false := (isName_of_get? hname).2.2.2
    rw [List.append_assoc, List.singleton_append] at hget ⊢
    rw [List.reverse_append, List.reverse_singleton, List.singleton_append, List.map_cons, leadFrom,
      hshort]
    by_cases hnil : rest = []
    · subst hnil
      rw [List.nil_append] at hget ⊢
      cases e with
      | directory | file => simp [hget, leadFrom]
      | link target => exact absurd rfl (hlink target)
    · -- more names follow, so the first one is a directory
      have hdir : t.get? (name :: l) = some .directory := get?_of_append hget hnil
      simp only [hdir, Bool.false_eq_true, if_false]
      exact ih hget hnil

theorem lead_names (n : Nat) {trail : List Text} {e : Entry} (hget : t.get? (trail ++ l) = some e)
    (hlink : ∀ target, e ≠ .link target) (htrail : trail ≠ []) :
    t.lead n l (trail.reverse.map .name) = .ok (.taken (trail ++ l) e) := by
  cases n with
  | zero => exact leadFrom_names hget hlink htrail
  | succ n => exact leadFrom_names hget hlink htrail

/-! ## Names that are passed -/

/-- Each name among steps that lead somewhere is the name of an entry, if this holds of the steps
from a link on. -/
theorem exists_get?_of_leadFrom {l' : Location} {e : Entry} {name : Text}
    (hjump : ∀ base steps, jump base steps = .ok (.taken l' e) → .name name ∈ steps →
      ∃ parent d, t.get? (name :: parent) = some d) {steps : List Step}
    (h : t.leadFrom jump l steps = .ok (.taken l' e)) (hname : .name name ∈ steps) :
    ∃ parent d, t.get? (name :: parent) = some d := by
  induction steps generalizing l with
  | nil => cases hname
  | cons step rest ih =>
    cases step with
    | here => exact ih h ((List.mem_cons.mp hname).resolve_left Step.noConfusion)
    | up => exact ih h ((List.mem_cons.mp hname).resolve_left Step.noConfusion)
    | name n =>
      rw [leadFrom] at h
      split at h
      · cases h
      · rcases List.mem_cons.mp hname with heq | hname
        · cases heq
          cases hget : t.get? (name :: l) with
          | none =>
            rw [hget] at h
            simp only at h
            split at h <;> cases h
          | some d => exact ⟨l, d, hget⟩
        · split at h
          · split at h <;> cases h
          · exact ih h hname
          · split at h
            · next hnil =>
              rw [hnil] at hname
              cases hname
            · cases h
          · exact hjump _ _ h (List.mem_append_right _ hname)

theorem exists_get?_of_lead {n : Nat} {l' : Location} {e : Entry} {name : Text} {steps : List Step}
    (h : t.lead n l steps = .ok (.taken l' e)) (hname : .name name ∈ steps) :
    ∃ parent d, t.get? (name :: parent) = some d := by
  induction n generalizing l steps with
  | zero => exact exists_get?_of_leadFrom (fun _ _ hjump => by cases hjump) h hname
  | succ n ih => exact exists_get?_of_leadFrom (fun _ _ hjump => ih hjump) h hname

/-! ## Shorter ways -/

/-- Steps that lead somewhere have led to a directory before the last of them, if this holds of the
steps from a link on. -/
theorem leadFrom_of_append {rest : List Step} (hrest : rest ≠ []) {l' : Location} {e : Entry}
    (hjump : ∀ base steps, jump base (steps ++ rest) = .ok (.taken l' e) →
      ∃ dir, jump base steps = .ok (.taken dir .directory)) {first : List Step}
    (h : t.leadFrom jump l (first ++ rest) = .ok (.taken l' e)) :
    ∃ dir, t.leadFrom jump l first = .ok (.taken dir .directory) := by
  induction first generalizing l with
  | nil => exact ⟨l, rfl⟩
  | cons step first ih =>
    cases step with
    | here => exact ih h
    | up => exact ih h
    | name n =>
      have hmore : first ++ rest ≠ [] := List.append_ne_nil_of_right_ne_nil first hrest
      simp only [leadFrom, List.cons_append, hmore, if_false] at h ⊢
      split at h
      · cases h
      · next hlong =>
        simp only [hlong, Bool.false_eq_true, if_false]
        split at h
        · cases h
        · exact ih h
        · cases h
        · rw [← List.append_assoc] at h
          exact hjump _ _ h

theorem lead_of_append {n : Nat} {first rest : List Step} (hrest : rest ≠ []) {l' : Location}
    {e : Entry} (h : t.lead n l (first ++ rest) = .ok (.taken l' e)) :
    ∃ dir, t.lead n l first = .ok (.taken dir .directory) := by
  induction n generalizing l first with
  | zero => exact leadFrom_of_append hrest (fun _ _ hjump => by cases hjump) h
  | succ n ih => exact leadFrom_of_append hrest (fun base steps hjump => @ih base steps hjump) h

/-- A name that leads somewhere is the name of an entry. -/
theorem exists_get?_of_lead_name {n : Nat} {name : Text} {l' : Location} {e : Entry}
    (h : t.lead n l [.name name] = .ok (.taken l' e)) :
    isTooLong name = false ∧ (t.get? (name :: l)).isSome = true := by
  have hstep : ∀ jump : Location → List Step → Except Fault Spot,
      t.leadFrom jump l [.name name] = .ok (.taken l' e) →
        isTooLong name = false ∧ (t.get? (name :: l)).isSome = true := by
    intro jump h
    simp only [leadFrom] at h
    split at h
    · cases h
    · next hlong =>
      refine ⟨Bool.eq_false_iff.mpr hlong, ?_⟩
      split at h
      · cases h
      all_goals next hget => rw [hget]; rfl
  cases n with
  | zero => exact hstep _ h
  | succ n => exact hstep _ h

/-- Steps from a directory lead to what is there, if this holds of the steps from a link on. -/
theorem get?_of_leadFrom {l' : Location} {e : Entry}
    (hjump : ∀ base steps, t.get? base = some .directory →
      jump base steps = .ok (.taken l' e) → t.get? l' = some e) {steps : List Step}
    (hl : t.get? l = some .directory) (h : t.leadFrom jump l steps = .ok (.taken l' e)) :
    t.get? l' = some e := by
  induction steps generalizing l with
  | nil =>
    cases h
    exact hl
  | cons step rest ih =>
    cases step with
    | here => exact ih hl h
    | up =>
      refine ih ?_ h
      cases l with
      | nil => exact hl
      | cons name parent => exact get?_parent hl
    | name n =>
      simp only [leadFrom] at h
      split at h
      · cases h
      · split at h
        · split at h <;> cases h
        · next hget => exact ih hget h
        · next hget =>
          split at h
          · cases h
            exact hget
          · cases h
        · refine hjump _ _ ?_ h
          rw [linkBase]
          split
          · rfl
          · exact hl

theorem get?_of_lead {n : Nat} {l' : Location} {e : Entry} {steps : List Step}
    (hl : t.get? l = some .directory) (h : t.lead n l steps = .ok (.taken l' e)) :
    t.get? l' = some e := by
  induction n generalizing l steps with
  | zero => exact get?_of_leadFrom (fun _ _ _ hjump => by cases hjump) hl h
  | succ n ih => exact get?_of_leadFrom (fun _ _ hbase hjump => ih hbase hjump) hl h

/-! ## Other trees -/

/-- What can be followed through a tree can be followed through any tree that has its directories
and links, if the entry at the end is there as well. -/
theorem leadFrom_mono {t' : FileTree} {jump' : Location → List Step → Except Fault Spot}
    {l' : Location} {e : Entry}
    (hkept : ∀ m d, d.isFile = false → t.get? m = some d → t'.get? m = some d)
    (hend : t'.get? l' = some e)
    (hjump : ∀ base steps, jump base steps = .ok (.taken l' e) →
      jump' base steps = .ok (.taken l' e)) {steps : List Step}
    (h : t.leadFrom jump l steps = .ok (.taken l' e)) :
    t'.leadFrom jump' l steps = .ok (.taken l' e) := by
  induction steps generalizing l with
  | nil => exact h
  | cons step rest ih =>
    cases step with
    | here => exact ih h
    | up => exact ih h
    | name n =>
      simp only [leadFrom] at h ⊢
      split at h
      · cases h
      · next hlong =>
        simp only [hlong, Bool.false_eq_true, if_false]
        split at h
        · split at h <;> cases h
        · next hget =>
          rw [hkept _ _ rfl hget]
          exact ih h
        · next content mtime hget =>
          split at h
          · next hnil =>
            cases h
            rw [hend]
            simp only [hnil, if_true]
          · cases h
        · next target hget =>
          rw [hkept _ _ rfl hget]
          exact hjump _ _ h

theorem lead_mono {t' : FileTree} {l' : Location} {e : Entry}
    (hkept : ∀ m d, d.isFile = false → t.get? m = some d → t'.get? m = some d)
    (hend : t'.get? l' = some e) {n : Nat} {steps : List Step}
    (h : t.lead n l steps = .ok (.taken l' e)) : t'.lead n l steps = .ok (.taken l' e) := by
  induction n generalizing l steps with
  | zero => exact leadFrom_mono hkept hend (fun _ _ hjump => by cases hjump) h
  | succ n ih => exact leadFrom_mono hkept hend (fun _ _ hjump => ih hjump) h

/-! ## Paths -/

/-- What is found at a path is where its steps lead. -/
theorem stat_eq_ok_iff {p : Path} {e : Entry} : t.stat p = .ok (l, e) ↔
    p.holdsBarred = false ∧ t.lead maxLinks [] (Step.ofPath p) = .ok (.taken l e) := by
  rw [stat, spot]
  cases p.holdsBarred with
  | true => simp
  | false =>
    simp only [Bool.false_eq_true, if_false, true_and]
    split
    · next h => simp [h]
    · next h => simp [h]
    · next h => simp [h]

theorem eq_directory {e : Entry} (h : e.isDirectory = true) : e = .directory := by
  cases e with
  | directory => rfl
  | file | link => cases h

theorem isDirectory_iff {p : Path} :
    t.isDirectory p = true ↔ ∃ l, t.stat p = .ok (l, .directory) := by
  rw [isDirectory]
  constructor
  · intro h
    split at h
    · next l e hstat => exact ⟨l, by rw [hstat, eq_directory h]⟩
    · cases h
  · rintro ⟨l, hl⟩
    rw [hl]
    rfl

theorem isFile_iff {p : Path} : t.isFile p = true ↔
    ∃ l content mtime, t.stat p = .ok (l, .file content mtime) := by
  rw [isFile]
  constructor
  · intro h
    split at h
    · next l e hstat =>
      cases e with
      | file content mtime => exact ⟨l, content, mtime, hstat⟩
      | directory | link => cases h
    · cases h
  · rintro ⟨l, content, mtime, hl⟩
    rw [hl]
    rfl

/-- A path leads to what is there. -/
theorem get?_of_stat {p : Path} {e : Entry} (h : t.stat p = .ok (l, e)) : t.get? l = some e :=
  get?_of_lead t.get?_nil (stat_eq_ok_iff.mp h).2

/-- What lies below a directory is found under the path of the directory with more names. -/
theorem stat_extend {p : Path} (hp : t.stat p = .ok (dir, .directory)) {trail : List Text}
    {e : Entry} (hget : t.get? (trail ++ dir) = some e) (hlink : ∀ target, e ≠ .link target)
    (htrail : trail ≠ []) : t.stat (p.extend trail.reverse) = .ok (trail ++ dir, e) := by
  obtain ⟨hbarred, hlead⟩ := stat_eq_ok_iff.mp hp
  have hnames : ∀ name ∈ trail.reverse, IsName name := by
    intro name hname
    obtain ⟨_, _, hd⟩ := exists_get?_of_mem hget (List.mem_reverse.mp hname)
    exact isName_of_get? hd
  refine stat_eq_ok_iff.mpr ⟨Path.holdsBarred_extend hbarred hnames, ?_⟩
  obtain ⟨k, hk⟩ := lead_append hlead
  rw [Path.ofPath_extend p fun name hname => (hnames name hname).leadsDown, hk]
  exact lead_names k hget hlink htrail

/-- What is there at the end of some names is found under the path with these names. -/
theorem stat_extend_names {p : Path} {names : List Text} (hp : t.stat p = .ok (l, .directory))
    {e : Entry} (hget : t.get? (names.reverse ++ l) = some e)
    (hlink : ∀ target, e ≠ .link target) :
    t.stat (p.extend names) = .ok (names.reverse ++ l, e) := by
  by_cases hnames : names = []
  · subst hnames
    rw [Path.extend_nil, hp]
    rw [List.reverse_nil, List.nil_append, get?_of_stat hp] at hget
    rw [Option.some.inj hget]
    rfl
  · have hstat := stat_extend hp hget hlink fun hnil => hnames (List.reverse_eq_nil_iff.mp hnil)
    rwa [List.reverse_reverse] at hstat

/-- The names in a path that leads somewhere are names of entries. -/
theorem exists_get?_of_stat {p : Path} {e : Entry} (hp : t.stat p = .ok (l, e)) {name : Text}
    (hname : name ∈ p.segments) (hup : name ≠ upSegment) :
    ∃ parent d, t.get? (name :: parent) = some d := by
  refine exists_get?_of_lead (stat_eq_ok_iff.mp hp).2 (List.mem_map.mpr ⟨name, hname, ?_⟩)
  exact Step.ofPiece_eq_name (p.meaningful name hname) hup

/-- Where a path leads, a tree with the same directories and links leads as well, if the entry is
there. -/
theorem stat_mono {t' : FileTree} {p : Path} {e : Entry}
    (hkept : ∀ m d, d.isFile = false → t.get? m = some d → t'.get? m = some d)
    (hend : t'.get? l = some e) (h : t.stat p = .ok (l, e)) : t'.stat p = .ok (l, e) := by
  obtain ⟨hbarred, hlead⟩ := stat_eq_ok_iff.mp h
  exact stat_eq_ok_iff.mpr ⟨hbarred, lead_mono hkept hend hlead⟩

theorem stat_unique {p : Path} {l l' : Location} {d d' : Entry} (h : t.stat p = .ok (l, d))
    (h' : t.stat p = .ok (l', d')) : l = l' := by
  rw [h] at h'
  exact congrArg Prod.fst (Except.ok.inj h')

/-- A path that leads somewhere leads to a directory before its last segment. -/
theorem stat_parent {p : Path} {name : Text} (hlast : p.segments.getLast? = some name) {e : Entry}
    (h : t.stat p = .ok (l, e)) : ∃ dir, t.stat p.parent = .ok (dir, .directory) ∧
      (name ≠ upSegment → isTooLong name = false ∧ (t.get? (name :: dir)).isSome = true) := by
  obtain ⟨hbarred, hlead⟩ := stat_eq_ok_iff.mp h
  have hsegments : p.segments = p.parent.segments ++ [name] :=
    (List.dropLast_append_getLast? name hlast).symm
  have hsteps : Step.ofPath p = Step.ofPath p.parent ++ [Step.ofPiece name] := by
    rw [Step.ofPath, hsegments, List.map_append]
    rfl
  rw [hsteps] at hlead
  obtain ⟨dir, hdir⟩ := lead_of_append (List.cons_ne_nil _ _) hlead
  refine ⟨dir, stat_eq_ok_iff.mpr ⟨?_, hdir⟩, fun hup => ?_⟩
  · rw [Path.holdsBarred, hsegments, List.any_append, Bool.or_eq_false_iff] at hbarred
    exact hbarred.1
  · obtain ⟨k, hk⟩ := lead_append hdir
    have hname := Step.ofPiece_eq_name (p.meaningful name (List.mem_of_getLast? hlast)) hup
    rw [hk, hname] at hlead
    exact exists_get?_of_lead_name hlead

/-- A path that leads on from another one and leads somewhere has led to a directory before. -/
theorem stat_extend_of_append {p : Path} {first rest : List Text} {e : Entry}
    (hnames : ∀ name ∈ first ++ rest, IsSegment name) (hrest : rest ≠ [])
    (h : t.stat (p.extend (first ++ rest)) = .ok (l, e)) :
    ∃ dir, t.stat (p.extend first) = .ok (dir, .directory) := by
  induction rest using List.reverseRecOn generalizing l e with
  | nil => exact absurd rfl hrest
  | append_singleton more name ih =>
    rw [← List.append_assoc] at h hnames
    have hname : IsSegment name := hnames name (List.mem_append_right _ List.mem_cons_self)
    have hlast : (p.extend (first ++ more ++ [name])).segments.getLast? = some name := by
      rw [Path.segments_extend_append p _ hname, List.getLast?_concat]
    obtain ⟨dir, hdir, -⟩ := stat_parent hlast h
    rw [Path.parent_extend p _ hname] at hdir
    by_cases hmore : more = []
    · rw [hmore, List.append_nil] at hdir
      exact ⟨dir, hdir⟩
    · exact ih (fun n hn => hnames n (List.mem_append_left [name] hn)) hmore hdir

/-- A path that leads on from a directory and then up leads to a directory. -/
theorem stat_extend_up {p : Path} (h : t.stat p = .ok (l, .directory)) :
    t.stat (p.extend [upSegment]) = .ok (l.tail, .directory) := by
  obtain ⟨hbarred, hlead⟩ := stat_eq_ok_iff.mp h
  have hseg : ∀ name ∈ [upSegment], IsSegment name := by decide
  obtain ⟨k, hk⟩ := lead_append hlead
  refine stat_eq_ok_iff.mpr ⟨?_, ?_⟩
  · rw [Path.holdsBarred, p.segments_extend hseg, List.any_append, ← Path.holdsBarred, hbarred]
    decide
  · rw [Step.ofPath, p.segments_extend hseg, List.map_append]
    refine (hk _).trans ?_
    cases k <;> rfl

/-- A path to a directory has one before its last segment, or is its own parent. -/
theorem exists_stat_parent {p : Path} (hp : t.stat p = .ok (l, .directory)) :
    ∃ dir, t.stat p.parent = .ok (dir, .directory) := by
  cases hlast : p.segments.getLast? with
  | none =>
    have hnil : p.segments = [] := List.getLast?_eq_none_iff.mp hlast
    have hself : p.parent = p := by
      refine Path.eq_of_segments rfl ?_
      show p.segments.dropLast = p.segments
      rw [hnil, List.dropLast_nil]
    exact ⟨l, by rw [hself, hp]⟩
  | some name =>
    obtain ⟨dir, hdir, -⟩ := stat_parent hlast hp
    exact ⟨dir, hdir⟩

theorem spot_of_stat {p : Path} {e : Entry} (h : t.stat p = .ok (l, e)) :
    t.spot p = .ok (.taken l e) := by
  obtain ⟨hbarred, hlead⟩ := stat_eq_ok_iff.mp h
  rw [spot, hbarred, hlead]
  rfl

/-- Where nothing is in a directory, a path leads to the vacant place. -/
theorem spot_extend_of_vacant {p : Path} {name : Text} (hp : t.stat p = .ok (l, .directory))
    (hname : IsName name) (hget : t.get? (name :: l) = none) :
    t.spot (p.extend [name]) = .ok (.vacant l name) := by
  have hnames : ∀ n ∈ [name], IsName n := fun n hn => List.mem_singleton.mp hn ▸ hname
  have hlead : ∀ jump : Location → List Step → Except Fault Spot,
      t.leadFrom jump l [.name name] = .ok (.vacant l name) := by
    intro jump
    rw [leadFrom, hname.2.2.2, hget]
    rfl
  obtain ⟨hbarred, hp⟩ := stat_eq_ok_iff.mp hp
  obtain ⟨k, hk⟩ := lead_append hp
  rw [spot, Path.holdsBarred_extend hbarred hnames,
    Path.ofPath_extend p fun n hn => (hnames n hn).leadsDown, hk]
  cases k with
  | zero => exact hlead _
  | succ k => exact hlead _

/-! ## Faults -/

/-- Some link in the tree has a name in its target that is too long. -/
def HasLongTarget (t : FileTree) : Prop :=
  ∃ l target s, t.get? l = some (.link target) ∧ s ∈ Text.split '/' target ∧ isTooLong s = true

/-- What a fault of following steps can be: there is nothing at their end, or a name is too long,
one of theirs or one in a link. -/
def MeetsFault (t : FileTree) (steps : List Step) (f : Fault) : Prop :=
  f.meansAbsent = true ∨
    f = .nameTooLong ∧ ((∃ n, .name n ∈ steps ∧ isTooLong n = true) ∨ t.HasLongTarget)

theorem MeetsFault.cons {steps : List Step} {f : Fault} (h : t.MeetsFault steps f) (step : Step) :
    t.MeetsFault (step :: steps) f := by
  refine h.imp_right fun ⟨hf, hlong⟩ => ⟨hf, hlong.imp_left ?_⟩
  rintro ⟨n, hn, hlong⟩
  exact ⟨n, List.mem_cons_of_mem step hn, hlong⟩

/-- From a link on, a name that is too long is one of its target or one of the steps after it. -/
theorem MeetsFault.of_link {l : Location} {target : Text} {rest : List Step} {f : Fault}
    (hlink : t.get? l = some (.link target)) (h : t.MeetsFault (Step.ofTarget target ++ rest) f) :
    t.MeetsFault rest f := by
  refine h.imp_right fun ⟨hf, hlong⟩ => ⟨hf, ?_⟩
  rcases hlong with ⟨n, hn, hlong⟩ | hlong
  · rcases List.mem_append.mp hn with hn | hn
    · obtain ⟨s, hs, hname⟩ := List.mem_map.mp hn
      exact .inr ⟨l, target, s, hlink, hs, Step.eq_of_ofPiece_eq_name hname ▸ hlong⟩
    · exact .inl ⟨n, hn, hlong⟩
  · exact .inr hlong

theorem meetsFault_of_leadFrom
    (hjump : ∀ base steps f, jump base steps = .error f → t.MeetsFault steps f) {steps : List Step}
    {f : Fault} (h : t.leadFrom jump l steps = .error f) : t.MeetsFault steps f := by
  induction steps generalizing l with
  | nil => cases h
  | cons step rest ih =>
    cases step with
    | here => exact (ih h).cons .here
    | up => exact (ih h).cons .up
    | name n =>
      simp only [leadFrom] at h
      split at h
      · next hlong =>
        cases h
        exact .inr ⟨rfl, .inl ⟨n, List.mem_cons_self, hlong⟩⟩
      · split at h
        · split at h
          · cases h
          · cases h
            exact .inl rfl
        · exact (ih h).cons (.name n)
        · split at h
          · cases h
          · cases h
            exact .inl rfl
        · next target hget => exact ((hjump _ _ _ h).of_link hget).cons (.name n)

theorem meetsFault_of_lead {n : Nat} {steps : List Step} {f : Fault}
    (h : t.lead n l steps = .error f) : t.MeetsFault steps f := by
  induction n generalizing l steps f with
  | zero =>
    refine meetsFault_of_leadFrom (fun _ _ f hjump => ?_) h
    cases hjump
    exact .inl rfl
  | succ n ih => exact meetsFault_of_leadFrom (fun _ _ _ hjump => ih hjump) h

/-- A path that leads nowhere does so because nothing is there, or because a name is too long. -/
theorem fault_of_stat {p : Path} {f : Fault} (h : t.stat p = .error f) :
    f.meansAbsent = true ∨
      f = .nameTooLong ∧ ((∃ s ∈ p.segments, isTooLong s = true) ∨ t.HasLongTarget) := by
  rw [stat] at h
  split at h
  · cases h
  · cases h
    exact .inl rfl
  · next hspot =>
    cases h
    rw [spot] at hspot
    split at hspot
    · cases hspot
      exact .inl rfl
    · refine (meetsFault_of_lead hspot).imp_right fun ⟨hf, hlong⟩ => ⟨hf, hlong.imp_left ?_⟩
      rintro ⟨n, hn, hlong⟩
      obtain ⟨s, hs, hname⟩ := List.mem_map.mp hn
      exact ⟨s, hs, Step.eq_of_ofPiece_eq_name hname ▸ hlong⟩

end FileTree

end IgnoredPaths
