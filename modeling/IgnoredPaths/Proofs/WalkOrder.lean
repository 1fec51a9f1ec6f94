import IgnoredPaths.Proofs.Walk
import Mathlib.Data.List.Nodup

/-!
# The order of a walk

A walk keeps its directories on a stack, but what it yields can be said by recursion: first the
entries of a directory in the order of their names, then what lies below each of its directories in
the same order. That the stack makes no difference is one equation (`walkFrom_eq_flatMap`); what is
said about the order of a walk follows from the recursion.

Links do not matter for any of this, as a walk reports them like files. A path that leads to no
directory contributes nothing; about one that holds a barred character nothing is said, since the
system refuses to list it.

- `FileTree.pairwise_children`: the order of the entries of a directory.
- `FileTree.descendants`: what lies below a directory, said by recursion.
- `FileTree.pairwise_descendants`: nothing is yielded after itself or after what lies below it, so
  nothing is yielded twice (`FileTree.nodup_descendants`) and a directory is yielded before what
  lies in it (`FileTree.sublist_descendants`).
- `FileTree.descendants_skip`: skipping only leaves out.
- `walk_recursive`: the same for walks from a path.
-/

namespace IgnoredPaths

namespace FileTree

variable {t : FileTree} {skip : Text → Bool} {l root : Location} {trail : Trail}
  {listed : List (Text × Entry)}

/-! ## The entries of a directory -/

theorem eq_children_of_list? (h : t.list? l = some listed) : listed = t.children l := by
  rw [list?] at h
  split at h
  · exact (Option.some.inj h).symm
  · cases h

/-- The entries of a directory have different names. -/
theorem pairwise_names (t : FileTree) (l : Location) :
    (t.children l).Pairwise fun a b => a.1 ≠ b.1 := by
  rw [children, (List.mergeSort_perm _ _).pairwise_iff fun h => h.symm]
  refine List.Pairwise.filterMap _ ?_ (List.pairwise_map.mp t.distinct)
  rintro ⟨k, d⟩ ⟨k', d'⟩ hne ⟨name, e⟩ h ⟨name', e'⟩ h' rfl
  cases k with
  | nil => cases h
  | cons n parent =>
    cases k' with
    | nil => cases h'
    | cons n' parent' =>
      simp only [Option.ite_none_right_eq_some, Option.some.injEq, Prod.mk.injEq] at h h'
      obtain ⟨rfl, rfl, -⟩ := h
      obtain ⟨rfl, rfl, -⟩ := h'
      exact hne rfl

/-- The entries of a directory are listed in ascending order of their names. -/
theorem pairwise_children (t : FileTree) (l : Location) :
    (t.children l).Pairwise fun a b => a.1 < b.1 := by
  have hle : (t.children l).Pairwise fun a b => Text.le a.1 b.1 = true :=
    List.pairwise_mergeSort (fun a b c => Text.le_trans a.1 b.1 c.1)
      (fun a b => Text.le_total a.1 b.1) _
  refine (hle.and (t.pairwise_names l)).imp fun h => ?_
  exact Text.lt_of_not_lt (Text.le_iff.mp h.1) h.2

/-! ## Recursion on directories -/

theorem length_le_reach_of_list? (h : t.list? l = some listed) {p : Text × Entry}
    (hp : p ∈ listed) : l.length < t.reach := by
  rw [eq_children_of_list? h] at hp
  exact length_le_reach (List.cons_ne_nil p.1 l) (mem_children.mp hp)

/-- What lies below a directory: nothing if it cannot be listed, and otherwise its entries in their
order, without the directories to be skipped, and then what lies below its other directories, one
after another. -/
def descendants (t : FileTree) (skip : Text → Bool) (root : Location) (trail : Trail) :
    List (Trail × Bool) :=
  match _hlist : t.list? (trail ++ root) with
  | none => []
  | some listed =>
    let kept := listed.filter fun p => !(p.2.isDirectory && skip p.1)
    kept.map (fun p => (p.1 :: trail, p.2.isDirectory)) ++
      (kept.filter fun p => p.2.isDirectory).attach.flatMap fun p =>
        descendants t skip root (p.1.1 :: trail)
termination_by t.reach - (trail ++ root).length
decreasing_by
  have hmem := (List.mem_filter.mp (List.mem_filter.mp p.2).1).1
  have hlt := length_le_reach_of_list? _hlist hmem
  rw [List.cons_append, List.length_cons]
  omega

theorem descendants_of_none (h : t.list? (trail ++ root) = none) :
    t.descendants skip root trail = [] := by
  rw [descendants]
  split
  · rfl
  · next hlist =>
    rw [h] at hlist
    cases hlist

theorem descendants_of_some (h : t.list? (trail ++ root) = some listed) :
    let kept := listed.filter fun p => !(p.2.isDirectory && skip p.1)
    t.descendants skip root trail = kept.map (fun p => (p.1 :: trail, p.2.isDirectory)) ++
      (kept.filter fun p => p.2.isDirectory).flatMap fun p =>
        t.descendants skip root (p.1 :: trail) := by
  intro kept
  rw [descendants]
  split
  · next hlist =>
    rw [h] at hlist
    cases hlist
  · next listed' hlist =>
    obtain rfl : listed = listed' := Option.some.inj (h.symm.trans hlist)
    refine congrArg (_ ++ ·) ?_
    rw [← List.flatMap_map Subtype.val fun p : Text × Entry =>
      t.descendants skip root (p.1 :: trail), List.attach_map_subtype_val]

/-- What a directory contributes to a walk comes before what lies below its directories. -/
theorem descendants_eq_visit (t : FileTree) (skip : Text → Bool) (root : Location)
    (trail : Trail) : t.descendants skip root trail =
      (t.visit skip (trail ++ root)).map (fun p => (p.1 :: trail, p.2)) ++
        (subdirectories trail (t.visit skip (trail ++ root))).flatMap
          (t.descendants skip root) := by
  cases hlist : t.list? (trail ++ root) with
  | none =>
    rw [descendants_of_none hlist, visit, hlist]
    rfl
  | some listed =>
    rw [descendants_of_some hlist, visit, hlist, subdirectories, List.map_map, List.filter_map,
      List.map_map, List.flatMap_map]
    rfl

/-- A walk from a stack yields what lies below its directories, one after another. -/
theorem walkFrom_eq_flatMap (t : FileTree) (skip : Text → Bool) (root : Location)
    (stack : List Trail) :
    t.walkFrom skip root stack = stack.flatMap (t.descendants skip root) := by
  fun_induction t.walkFrom skip root stack with
  | case1 => rfl
  | case2 trail stack ih =>
    rw [ih, List.flatMap_append, List.flatMap_cons, descendants_eq_visit, List.append_assoc]

/-- What lies below a directory is what is visible there, unless it is skipped. -/
theorem mem_descendants {p : Trail × Bool} : p ∈ t.descendants skip root trail ↔
    ∃ rest e, p = (rest ++ trail, e.isDirectory) ∧ t.Visible (trail ++ root) rest e ∧
      Unskipped skip rest e := by
  have hstack : t.descendants skip root trail = t.walkFrom skip root [trail] := by
    rw [walkFrom_eq_flatMap, List.flatMap_singleton]
  rw [hstack, mem_walkFrom]
  simp only [List.mem_singleton, exists_eq_left]

/-! ## Order -/

/-- What holds of a directory if it holds of the directories in it holds of every directory. -/
theorem directory_induction {motive : Trail → Prop}
    (unlisted : ∀ trail, t.list? (trail ++ root) = none → motive trail)
    (listed : ∀ trail listed, t.list? (trail ++ root) = some listed →
      (∀ p ∈ listed, motive (p.1 :: trail)) → motive trail) (trail : Trail) : motive trail := by
  cases hlist : t.list? (trail ++ root) with
  | none => exact unlisted trail hlist
  | some entries =>
    refine listed trail entries hlist fun p hp => ?_
    have hlt := length_le_reach_of_list? hlist hp
    exact directory_induction unlisted listed (p.1 :: trail)
termination_by t.reach - (trail ++ root).length
decreasing_by
  rw [List.cons_append, List.length_cons]
  omega

/-- What is yielded below a directory has a longer way than what is yielded of the directory. -/
theorem length_of_mem_descendants {p : Trail × Bool} (h : p ∈ t.descendants skip root trail) :
    trail.length < p.1.length ∧ trail <:+ p.1 := by
  obtain ⟨rest, e, rfl, hvisible, -⟩ := mem_descendants.mp h
  have hpos := List.length_pos_iff.mpr hvisible.1
  refine ⟨?_, List.suffix_append rest trail⟩
  rw [List.length_append]
  omega

/-- What is yielded later neither is what was yielded before nor lies on the way to it. -/
theorem pairwise_descendants (t : FileTree) (skip : Text → Bool) (root : Location)
    (trail : Trail) : (t.descendants skip root trail).Pairwise fun p q => ¬ q.1 <:+ p.1 := by
  induction trail using @directory_induction t root with
  | unlisted trail hlist =>
    rw [descendants_of_none hlist]
    exact List.Pairwise.nil
  | listed trail listed hlist ih =>
    have hnames : listed.Pairwise fun a b => a.1 ≠ b.1 := by
      rw [eq_children_of_list? hlist]
      exact t.pairwise_names _
    -- ways that go on through different names of one directory have no end in common
    have hapart : ∀ {a b : Text} {way : Trail}, a ≠ b → a :: trail <:+ way →
        ¬ b :: trail <:+ way := by
      intro a b way hne ha hb
      have hsame := (List.suffix_of_suffix_length_le hb ha (Nat.le_refl _)).eq_of_length rfl
      exact hne (List.cons.inj hsame).1.symm
    rw [descendants_of_some hlist, List.pairwise_append, List.pairwise_map, List.pairwise_flatMap]
    refine ⟨(hnames.filter _).imp fun hne h => hapart hne List.suffix_rfl h,
      ⟨fun p hp => ?_, ?_⟩, ?_⟩
    · exact ih p (List.mem_of_mem_filter (List.mem_of_mem_filter hp))
    · refine ((hnames.filter _).filter _).imp fun hne x hx y hy h => ?_
      exact hapart hne (length_of_mem_descendants hx).2
        ((length_of_mem_descendants hy).2.trans h)
    · -- what lies deeper is not on the way to an entry of the directory
      intro x hx y hy h
      obtain ⟨p, -, rfl⟩ := List.mem_map.mp hx
      obtain ⟨q, -, hy⟩ := List.mem_flatMap.mp hy
      have hlength := (length_of_mem_descendants hy).1
      exact Nat.not_lt.mpr h.length_le hlength

/-- Nothing that lies below a directory is yielded twice. -/
theorem nodup_descendants (t : FileTree) (skip : Text → Bool) (root : Location) (trail : Trail) :
    ((t.descendants skip root trail).map Prod.fst).Nodup := by
  refine List.pairwise_map.mpr ((t.pairwise_descendants skip root trail).imp ?_)
  intro p q h heq
  rw [heq] at h
  exact h List.suffix_rfl

/-- Of two members of a list, one comes before the other. -/
theorem sublist_pair {α : Type} {a b : α} {l : List α} (ha : a ∈ l) (hb : b ∈ l) (hne : a ≠ b) :
    [a, b].Sublist l ∨ [b, a].Sublist l := by
  obtain ⟨before, after, rfl⟩ := List.append_of_mem ha
  rcases List.mem_append.mp hb with hb | hb
  · exact .inr ((List.singleton_sublist.mpr hb).append
      (List.singleton_sublist.mpr List.mem_cons_self))
  · have hb := (List.mem_cons.mp hb).resolve_left hne.symm
    exact .inl (((List.singleton_sublist.mpr hb).cons_cons a).trans
      (List.sublist_append_right before _))

/-- A directory is yielded before what lies in it. -/
theorem sublist_descendants {name : Text} {inner : Trail} {b : Bool} (hinner : inner ≠ [])
    (h : (name :: (inner ++ trail), b) ∈ t.descendants skip root trail) :
    [(inner ++ trail, true), (name :: (inner ++ trail), b)].Sublist
      (t.descendants skip root trail) := by
  obtain ⟨rest, e, heq, hvisible, hskip⟩ := mem_descendants.mp h
  obtain ⟨hnames, rfl⟩ := Prod.mk.inj heq
  obtain rfl : name :: inner = rest := by
    rw [← List.cons_append] at hnames
    exact List.append_cancel_right hnames
  have hdir := ((visible_append_iff (List.cons_ne_nil name []) hinner).mp hvisible).1
  have hkept := ((unskipped_append_iff (List.cons_ne_nil name [])).mp hskip).1
  have hmem : (inner ++ trail, true) ∈ t.descendants skip root trail :=
    mem_descendants.mpr ⟨inner, .directory, rfl, hdir, hkept⟩
  have hne : (inner ++ trail, true) ≠ (name :: (inner ++ trail), e.isDirectory) := fun h =>
    List.cons_ne_self name _ (Prod.mk.inj h).1.symm
  refine (sublist_pair hmem h hne).resolve_right fun hlate => ?_
  -- the directory is on the way to the entry, so it is not yielded after it
  exact List.pairwise_iff_forall_sublist.mp (t.pairwise_descendants skip root trail) hlate
    (List.suffix_cons name _)

/-! ## Skipping -/

/-- Whether a walk that skips some directories yields what it finds along some names: no name on
the way is one of a directory to be skipped, nor is the last one if it is a directory's. -/
def yields (skip : Text → Bool) (names : Trail) (isDirectory : Bool) : Bool :=
  (if isDirectory then names else names.tail).all fun name => !skip name

theorem flatMap_filter {α β : Type} (p : α → Bool) (f : α → List β) (l : List α) :
    (l.filter p).flatMap f = l.flatMap fun a => if p a then f a else [] := by
  induction l with
  | nil => rfl
  | cons a l ih =>
    rw [List.flatMap_cons, ← ih, List.filter_cons]
    split
    · rw [List.flatMap_cons]
    · rfl

/-- Nothing is yielded of what lies below a directory to be skipped. -/
theorem filter_yields_descendants {name : Text} (hname : skip name = true) :
    ((t.descendants (fun _ => false) root (name :: trail)).filter fun p => yields skip p.1 p.2) =
      [] := by
  refine List.filter_eq_nil_iff.mpr fun p hp hyields => ?_
  obtain ⟨rest, e, rfl, hvisible, -⟩ := mem_descendants.mp hp
  have hmem : name ∈ (rest ++ name :: trail).tail := by
    rw [List.tail_append_of_ne_nil hvisible.1]
    exact List.mem_append_right _ List.mem_cons_self
  have hway : name ∈ if e.isDirectory then rest ++ name :: trail
      else (rest ++ name :: trail).tail := by
    split
    · exact List.mem_of_mem_tail hmem
    · exact hmem
  have hkept := List.all_eq_true.mp hyields name hway
  rw [hname] at hkept
  cases hkept

/-- To skip directories is to leave out what they and what lies below them would yield. -/
theorem descendants_skip (htrail : ∀ name ∈ trail, skip name = false) :
    t.descendants skip root trail =
      (t.descendants (fun _ => false) root trail).filter fun p => yields skip p.1 p.2 := by
  induction trail using @directory_induction t root with
  | unlisted trail hlist =>
    rw [descendants_of_none hlist, descendants_of_none hlist]
    rfl
  | listed trail listed hlist ih =>
    have hall : trail.all (fun name => !skip name) = true :=
      List.all_eq_true.mpr fun name hname => by rw [htrail name hname]; rfl
    have hplain : (listed.filter fun p => !(p.2.isDirectory && false)) = listed := by
      simp only [Bool.and_false, Bool.not_false, List.filter_true]
    rw [descendants_of_some hlist, descendants_of_some hlist, hplain, List.filter_append,
      List.filter_map, List.filter_flatMap]
    congr 1
    · -- the entries of the directory itself
      refine congrArg _ (List.filter_congr fun p _ => ?_)
      cases hdirectory : p.2.isDirectory <;> simp [yields, hdirectory, hall]
    · -- what lies below its directories, those to be skipped apart
      rw [List.filter_filter, flatMap_filter, flatMap_filter]
      refine List.flatMap_congr fun p hp => ?_
      cases hdirectory : p.2.isDirectory with
      | false => rfl
      | true =>
        cases hname : skip p.1 with
        | true => exact (filter_yields_descendants hname).symm
        | false =>
          refine ih p hp fun name hmem => ?_
          rcases List.mem_cons.mp hmem with rfl | hmem
          · exact hname
          · exact htrail name hmem

/-! ## Walks from a path -/

/-- A walk from a path that leads somewhere goes by recursion. -/
theorem walkSkipping_eq_descendants (skip : Text → Bool) {path : Path} {d : Entry}
    (h : t.stat path = .ok (l, d)) : t.walkSkipping skip path =
      (t.descendants skip l []).map fun p => (path.extend p.1.reverse, p.2) := by
  rw [walkSkipping, h]
  simp only [walkFrom_eq_flatMap, List.flatMap_singleton]

/-- The names by which a walk from a path has reached what it yields. -/
def namesBeyond (path found : Path) : List Text := found.segments.drop path.segments.length

theorem Visible.namesBeyond_extend {e : Entry} (h : t.Visible l trail e) (path : Path) :
    namesBeyond path (path.extend trail.reverse) = trail.reverse := by
  have hsegments : ∀ name ∈ trail.reverse, IsSegment name := by
    intro name hname
    obtain ⟨_, _, hget⟩ := exists_get?_of_mem h.2.1 (List.mem_reverse.mp hname)
    exact (isName_of_get? hget).1
  rw [namesBeyond, path.segments_extend hsegments, List.drop_left]

theorem namesBeyond_of_mem_descendants {p : Trail × Bool} (h : p ∈ t.descendants skip l [])
    (path : Path) : namesBeyond path (path.extend p.1.reverse) = p.1.reverse := by
  obtain ⟨rest, e, rfl, hvisible, -⟩ := mem_descendants.mp h
  rw [List.append_nil]
  exact hvisible.namesBeyond_extend path

variable {path : Path} {d : Entry}

/-- A walk yields nothing twice. -/
theorem nodup_walkSkipping (skip : Text → Bool) (h : t.stat path = .ok (l, d)) :
    ((t.walkSkipping skip path).map Prod.fst).Nodup := by
  -- the names beyond the path tell apart what is yielded
  refine List.Nodup.of_map (namesBeyond path) ?_
  have hnames : ((t.walkSkipping skip path).map Prod.fst).map (namesBeyond path) =
      ((t.descendants skip l []).map Prod.fst).map List.reverse := by
    rw [walkSkipping_eq_descendants skip h, List.map_map, List.map_map, List.map_map]
    exact List.map_congr_left fun p hp => namesBeyond_of_mem_descendants hp path
  rw [hnames]
  exact (nodup_descendants t skip l []).map List.reverse_injective

/-- A walk yields a directory before what lies in it. -/
theorem sublist_walkSkipping (h : t.stat path = .ok (l, d)) {name : Text} {inner : Trail}
    {e : Entry} (hinner : inner ≠ []) (hvisible : t.Visible l (name :: inner) e)
    (hskip : Unskipped skip (name :: inner) e) :
    [(path.extend inner.reverse, true), (path.extend (name :: inner).reverse, e.isDirectory)].Sublist
      (t.walkSkipping skip path) := by
  have hmem : (name :: (inner ++ []), e.isDirectory) ∈ t.descendants skip l [] := by
    refine mem_descendants.mpr ⟨name :: inner, e, ?_, hvisible, hskip⟩
    rw [List.cons_append]
  have hsublist := (sublist_descendants hinner hmem).map
    fun p : Trail × Bool => (path.extend p.1.reverse, p.2)
  rw [walkSkipping_eq_descendants skip h]
  rwa [List.append_nil] at hsublist

/-- A walk that skips directories is the plain walk without them and what lies below them. -/
theorem walkSkipping_eq_filter (skip : Text → Bool) (h : t.stat path = .ok (l, d)) :
    t.walkSkipping skip path = (t.walk path).filter fun found =>
      yields skip (namesBeyond path found.1).reverse found.2 := by
  have hnil : ∀ name ∈ ([] : Trail), skip name = false := fun _ hname =>
    absurd hname List.not_mem_nil
  rw [walk, walkSkipping_eq_descendants skip h, walkSkipping_eq_descendants _ h,
    descendants_skip hnil, List.filter_map]
  refine congrArg _ (List.filter_congr fun p hp => ?_)
  rw [Function.comp_apply, namesBeyond_of_mem_descendants hp, List.reverse_reverse]

end FileTree

/-- **A walk goes by recursion.** Directories are listed in ascending order of names, and a path
without a barred character that leads nowhere contributes nothing. From a path that leads somewhere,
a walk yields what recursion on the directories says. So it yields everything visible there once, a
directory before what lies in it, and never goes through a link; and to skip directories is to leave
out, of the plain walk, those directories and what lies below them. Links may lead in circles, and
any directories may be locked. -/
theorem walk_recursive (t : FileTree) (skip : Text → Bool) (path : Path) :
    (∀ l listed, t.list? l = some listed → listed.Pairwise (fun a b => a.1 < b.1) ∧
      ∀ name e, (name, e) ∈ listed ↔ t.get? (name :: l) = some e) ∧
    (path.holdsBarred = false → ∀ f, t.stat path = .error f → t.walkSkipping skip path = []) ∧
    ∀ l d, t.stat path = .ok (l, d) →
      t.walkSkipping skip path =
        (t.descendants skip l []).map (fun p => (path.extend p.1.reverse, p.2)) ∧
      (∀ found, found ∈ t.walk path ↔ ∃ trail e,
        found = (path.extend trail.reverse, e.isDirectory) ∧ t.Visible l trail e) ∧
      ((t.walk path).map Prod.fst).Nodup ∧
      (∀ name inner e, inner ≠ [] → t.Visible l (name :: inner) e →
        [(path.extend inner.reverse, true),
          (path.extend (name :: inner).reverse, e.isDirectory)].Sublist (t.walk path)) ∧
      (∀ found ∈ t.walk path, ∀ names, names <+: FileTree.namesBeyond path found.1 →
        names ≠ FileTree.namesBeyond path found.1 →
          t.get? (names.reverse ++ l) = some .directory) ∧
      t.walkSkipping skip path = (t.walk path).filter fun found =>
        FileTree.yields skip (FileTree.namesBeyond path found.1).reverse found.2 := by
  refine ⟨fun l listed hlist => ?_, fun _ f hstat => ?_, fun l d hstat => ?_⟩
  · rw [FileTree.eq_children_of_list? hlist]
    exact ⟨t.pairwise_children l, fun name e => FileTree.mem_children⟩
  · rw [FileTree.walkSkipping, hstat]
  · have hplain : ∀ trail e, FileTree.Unskipped (fun _ => false) trail e := fun _ _ _ _ => rfl
    have hmem : ∀ found, found ∈ t.walk path ↔ ∃ trail e,
        found = (path.extend trail.reverse, e.isDirectory) ∧ t.Visible l trail e := by
      intro found
      rw [FileTree.walk, FileTree.mem_walkSkipping hstat]
      simp only [hplain, and_true]
    refine ⟨FileTree.walkSkipping_eq_descendants skip hstat, hmem,
      FileTree.nodup_walkSkipping _ hstat, fun name inner e hinner hvisible => ?_,
      fun found hfound names hprefix hne => ?_, FileTree.walkSkipping_eq_filter skip hstat⟩
    · exact FileTree.sublist_walkSkipping hstat hinner hvisible (hplain _ e)
    · obtain ⟨trail, e, rfl, hvisible⟩ := (hmem found).mp hfound
      rw [hvisible.namesBeyond_extend] at hprefix hne
      -- the names on the way lead to a directory that was listed
      have hinner : names.reverse <:+ trail := by
        rw [← List.reverse_reverse trail]
        exact List.reverse_suffix.mpr hprefix
      have hlisted := hvisible.2.2 names.reverse hinner fun heq =>
        hne (by rw [← heq, List.reverse_reverse])
      exact (FileTree.isSome_list?_iff.mp hlisted).1

end IgnoredPaths
