import IgnoredPaths.Path

/-!
# File trees

A file tree maps locations to directories, files and symbolic links. A location lists the
names on the way to an entry, the innermost first, so that the directory of `name :: rest` is
`rest` and the root directory is `[]`. The root directory is there without an entry of its own.

- `FileTree.get?`: what is at a location.
- `FileTree.insert`, `FileTree.overwrite`: the changes, each with the lemma that says what it does
  to `get?`.
- `FileTree.list?`: the entries of a directory in the order of their names; a locked directory
  cannot be listed.
-/

namespace IgnoredPaths

/-- How many bytes a name may have. -/
def maxNameBytes : Nat := 255

/-- How many bytes a name has. -/
def nameBytes : Text → Nat
  | [] => 0
  | c :: rest => (if isByte c then 1 else c.utf8Size) + nameBytes rest

/-- Whether a name is longer than an entry's name may be. -/
def isTooLong (n : Text) : Bool := maxNameBytes < nameBytes n

/-- A name that an entry may have. -/
def IsName (n : Text) : Prop :=
  IsSegment n ∧ n ≠ upSegment ∧ n.holdsBarred = false ∧ isTooLong n = false

instance (n : Text) : Decidable (IsName n) := inferInstanceAs (Decidable (_ ∧ _ ∧ _ ∧ _))

/-- The names on the way to an entry, the innermost first. -/
abbrev Location := List Text

/-- What can be at a location. -/
inductive Entry where
  | directory
  | file (content : ByteArray) (mtime : Int)
  | link (target : Text)

namespace Entry

/-- Entries are compared by what they hold, files byte by byte. -/
instance : DecidableEq Entry
  | .directory, .directory => isTrue rfl
  | .file c m, .file d n =>
    if h : c.data = d.data ∧ m = n then isTrue (by rw [ByteArray.ext h.1, h.2])
    else isFalse fun e => h (by cases e; exact ⟨rfl, rfl⟩)
  | .link s, .link r => if h : s = r then isTrue (h ▸ rfl) else isFalse fun e => h (link.inj e)
  | .directory, .file _ _ | .directory, .link _ | .file _ _, .directory | .file _ _, .link _
  | .link _, .directory | .link _, .file _ _ => isFalse nofun

/-- Whether an entry is a directory. -/
def isDirectory : Entry → Bool
  | .directory => true
  | _ => false

/-- Whether an entry is a file. -/
def isFile : Entry → Bool
  | .file _ _ => true
  | _ => false

/-- An entry with its content and time replaced if it is a file. -/
def refill (content : ByteArray) (mtime : Int) : Entry → Entry
  | .file _ _ => .file content mtime
  | e => e

end Entry

/-- A tree of entries: no location has two, and every entry is in the root directory or in a
directory of the tree. -/
structure FileTree where
  entries : List (Location × Entry)
  /-- The directories that cannot be listed. -/
  locked : List Location
  distinct : (entries.map Prod.fst).Nodup
  housed : ∀ l e, (l, e) ∈ entries →
    ∃ name parent, l = name :: parent ∧ IsName name ∧
      (parent = [] ∨ (parent, Entry.directory) ∈ entries)

namespace FileTree

/-- The tree without entries. -/
def empty : FileTree := ⟨[], [], .nil, nofun⟩

/-- What is at a location. -/
def get? (t : FileTree) (l : Location) : Option Entry :=
  if l = [] then some .directory else t.entries.lookup l

theorem mem_of_lookup {l : Location} {e : Entry} :
    ∀ {es : List (Location × Entry)}, es.lookup l = some e → (l, e) ∈ es
  | [], h => by simp at h
  | (k, d) :: es, h => by
    rw [List.lookup_cons] at h
    split at h
    · next hk =>
      rw [beq_iff_eq] at hk
      rw [Option.some.injEq] at h
      rw [hk, h]
      exact List.mem_cons_self
    · exact List.mem_cons_of_mem _ (mem_of_lookup h)

theorem lookup_of_mem {l : Location} {e : Entry} :
    ∀ {es : List (Location × Entry)}, (es.map Prod.fst).Nodup → (l, e) ∈ es →
      es.lookup l = some e
  | [], _, h => absurd h List.not_mem_nil
  | (k, d) :: es, hn, h => by
    rw [List.map_cons, List.nodup_cons] at hn
    rw [List.lookup_cons]
    rcases List.mem_cons.mp h with h | h
    · rw [Prod.mk.injEq] at h
      simp [h.1, h.2]
    · have hne : l ≠ k := fun hk => hn.1 (List.mem_map.mpr ⟨(l, e), h, hk⟩)
      rw [beq_eq_false_iff_ne.mpr hne]
      exact lookup_of_mem hn.2 h

@[simp] theorem get?_nil (t : FileTree) : t.get? [] = some .directory := rfl

theorem nil_not_mem (t : FileTree) (e : Entry) : ([], e) ∉ t.entries := by
  intro h
  obtain ⟨_, _, hl, -⟩ := t.housed _ _ h
  exact absurd hl.symm (List.cons_ne_nil _ _)

/-- Below the root directory, `get?` and the entries say the same. -/
theorem get?_eq_some_iff {t : FileTree} {l : Location} {e : Entry} (hl : l ≠ []) :
    t.get? l = some e ↔ (l, e) ∈ t.entries := by
  rw [get?, if_neg hl]
  exact ⟨mem_of_lookup, lookup_of_mem t.distinct⟩

theorem get?_of_mem {t : FileTree} {l : Location} {e : Entry} (h : (l, e) ∈ t.entries) :
    t.get? l = some e :=
  (get?_eq_some_iff fun hl => t.nil_not_mem e (hl ▸ h)).mpr h

/-- An entry lies in a directory. -/
theorem get?_parent {t : FileTree} {name : Text} {parent : Location} {e : Entry}
    (h : t.get? (name :: parent) = some e) : t.get? parent = some .directory := by
  rw [get?_eq_some_iff (List.cons_ne_nil _ _)] at h
  obtain ⟨n, p, heq, -, hp⟩ := t.housed _ _ h
  rw [List.cons.injEq] at heq
  rw [heq.2]
  rcases hp with hp | hp
  · rw [hp, get?_nil]
  · exact get?_of_mem hp

/-- The name of an entry is a name. -/
theorem isName_of_get? {t : FileTree} {name : Text} {parent : Location} {e : Entry}
    (h : t.get? (name :: parent) = some e) : IsName name := by
  rw [get?_eq_some_iff (List.cons_ne_nil _ _)] at h
  obtain ⟨n, p, heq, hn, -⟩ := t.housed _ _ h
  rw [List.cons.injEq] at heq
  rw [heq.1]
  exact hn

/-! ## Changes -/

/-- Whether a new entry may be made: its name is one, its directory is there and its place is
free. -/
def Admits (t : FileTree) (parent : Location) (name : Text) : Prop :=
  IsName name ∧ t.get? parent = some .directory ∧ t.get? (name :: parent) = none

instance (t : FileTree) (parent : Location) (name : Text) : Decidable (t.Admits parent name) :=
  inferInstanceAs (Decidable (_ ∧ _ ∧ _))

/-- The tree with a new entry, if it may be made. -/
def insert (t : FileTree) (parent : Location) (name : Text) (e : Entry) : FileTree :=
  if h : t.Admits parent name then
    { entries := (name :: parent, e) :: t.entries
      locked := t.locked
      distinct := by
        rw [List.map_cons, List.nodup_cons]
        refine ⟨fun hm => ?_, t.distinct⟩
        obtain ⟨⟨l, d⟩, hd, hl⟩ := List.mem_map.mp hm
        have := get?_of_mem hd
        simp only at hl
        rw [hl, h.2.2] at this
        exact absurd this (Option.some_ne_none _).symm
      housed := by
        intro l d hd
        rcases List.mem_cons.mp hd with hd | hd
        · rw [Prod.mk.injEq] at hd
          refine ⟨name, parent, hd.1, h.1, ?_⟩
          by_cases hp : parent = []
          · exact Or.inl hp
          · exact Or.inr (List.mem_cons_of_mem _ ((get?_eq_some_iff hp).mp h.2.1))
        · obtain ⟨n, p, hl, hn, hp⟩ := t.housed _ _ hd
          exact ⟨n, p, hl, hn, hp.imp_right (List.mem_cons_of_mem _)⟩ }
  else t

/-- The entry of a location after the file at `place` is replaced. -/
def refillAt (place : Location) (content : ByteArray) (mtime : Int) (p : Location × Entry) :
    Location × Entry :=
  if p.1 = place then (p.1, Entry.refill content mtime p.2) else p

theorem refillAt_fst (place : Location) (content : ByteArray) (mtime : Int)
    (p : Location × Entry) : (refillAt place content mtime p).1 = p.1 := by
  rw [refillAt]
  split <;> rfl

theorem refillAt_directory (place l : Location) (content : ByteArray) (mtime : Int) :
    refillAt place content mtime (l, .directory) = (l, .directory) := by
  rw [refillAt]
  split <;> rfl

/-- The tree with other content in the file at a location, if there is a file. -/
def overwrite (t : FileTree) (l : Location) (content : ByteArray) (mtime : Int) : FileTree where
  entries := t.entries.map (refillAt l content mtime)
  locked := t.locked
  distinct := by
    rw [List.map_map]
    have : Prod.fst ∘ refillAt l content mtime = Prod.fst :=
      funext fun p => refillAt_fst l content mtime p
    rw [this]
    exact t.distinct
  housed := by
    intro k d hd
    obtain ⟨⟨k', d'⟩, hm, heq⟩ := List.mem_map.mp hd
    have hk : k' = k := by
      have := congrArg Prod.fst heq
      rwa [refillAt_fst] at this
    obtain ⟨n, p, hl, hn, hp⟩ := t.housed _ _ hm
    refine ⟨n, p, hk ▸ hl, hn, hp.imp_right fun hp => ?_⟩
    exact List.mem_map.mpr ⟨_, hp, refillAt_directory l p content mtime⟩

/-- A new entry is found at its location, and every other location stays as it was. -/
theorem get?_insert {t : FileTree} {parent : Location} {name : Text} {e : Entry}
    (h : t.Admits parent name) (l : Location) :
    (t.insert parent name e).get? l = if l = name :: parent then some e else t.get? l := by
  rw [insert, dif_pos h]
  by_cases hl : l = []
  · rw [hl, if_neg (List.cons_ne_nil _ _).symm]
    rfl
  · rw [get?, if_neg hl, List.lookup_cons]
    by_cases hk : l = name :: parent
    · rw [if_pos hk, beq_iff_eq.mpr hk]
    · rw [if_neg hk, beq_eq_false_iff_ne.mpr hk, get?, if_neg hl]

theorem lookup_refill (place l : Location) (content : ByteArray) (mtime : Int) :
    ∀ es : List (Location × Entry), (es.map (refillAt place content mtime)).lookup l =
      (es.lookup l).map fun e => if l = place then e.refill content mtime else e
  | [] => rfl
  | (k, d) :: es => by
    rw [List.map_cons, List.lookup_cons, lookup_refill place l content mtime es]
    by_cases hk : l = k
    · subst hk
      rw [refillAt]
      by_cases hp : l = place <;> simp [hp]
    · have hk' : (refillAt place content mtime (k, d)) =
          (k, (refillAt place content mtime (k, d)).2) :=
        Prod.ext (refillAt_fst place content mtime (k, d)) rfl
      rw [hk', beq_eq_false_iff_ne.mpr hk]
      simp [List.lookup_cons, beq_eq_false_iff_ne.mpr hk]

/-- Overwriting replaces the content of a file at the location and nothing else. -/
theorem get?_overwrite (t : FileTree) (place : Location) (content : ByteArray) (mtime : Int)
    (l : Location) : (t.overwrite place content mtime).get? l =
      (t.get? l).map fun e => if l = place then e.refill content mtime else e := by
  by_cases hl : l = []
  · rw [hl, get?_nil, get?_nil]
    by_cases hp : [] = place <;> simp [hp, Entry.refill]
  · rw [get?, if_neg hl, get?, if_neg hl]
    exact lookup_refill place l content mtime t.entries

/-! ## Listings -/

/-- The entries of a directory, in the order of their names. -/
def children (t : FileTree) (l : Location) : List (Text × Entry) :=
  (t.entries.filterMap fun p =>
    match p with
    | (name :: parent, e) => if parent = l then some (name, e) else none
    | ([], _) => none).mergeSort fun a b => Text.le a.1 b.1

/-- The entries of a directory, if there is one and it can be listed. -/
def list? (t : FileTree) (l : Location) : Option (List (Text × Entry)) :=
  if t.get? l = some .directory ∧ l ∉ t.locked then some (t.children l) else none

theorem mem_children {t : FileTree} {l : Location} {name : Text} {e : Entry} :
    (name, e) ∈ t.children l ↔ t.get? (name :: l) = some e := by
  rw [children, List.mem_mergeSort, List.mem_filterMap, get?_eq_some_iff (List.cons_ne_nil _ _)]
  constructor
  · rintro ⟨⟨k, d⟩, hm, h⟩
    cases k with
    | nil => simp at h
    | cons n p =>
      simp only [Option.ite_none_right_eq_some, Option.some.injEq, Prod.mk.injEq] at h
      obtain ⟨rfl, rfl, rfl⟩ := h
      exact hm
  · intro hm
    exact ⟨_, hm, by simp⟩

theorem length_children_le (t : FileTree) (l : Location) :
    (t.children l).length ≤ t.entries.length := by
  rw [children, List.length_mergeSort]
  exact List.length_filterMap_le _ _

end FileTree

end IgnoredPaths
