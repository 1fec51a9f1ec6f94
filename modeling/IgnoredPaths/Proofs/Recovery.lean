import IgnoredPaths.Proofs.ClosedForm
import IgnoredPaths.Proofs.OrderFree
import IgnoredPaths.Proofs.Supplement
import IgnoredPaths.Proofs.WalkOrder

/-!
# What the supplemental scan recovers

The scan keeps the directories that it has taken and passes over what lies below them, as it has
walked through them already. What it classifies in the end can be said without them: the entries
that an index leaves out and that were not reported, sidecars apart, and everything below those of
them that are directories. Each is classified once.

The texts by which a pass knows entries are compared as texts. In a tree without backslashes in
names they begin alike only where the ways to the entries do, wherever the project lies.

- `knownAs`: the text by which a pass knows what a walk finds.
- `LeftOut`: what an index leaves out and nobody reported.
- `Pass.Terms.recovered`: what the scan classifies, in its order.
- `supplement_recovers`: what that is.
-/

namespace IgnoredPaths

/-! ## The texts of what is found -/

/-- The text by which a pass knows what a walk from a directory finds along some names. -/
def knownAs (root : Path) (dir : Text) (trail : Trail) : Text :=
  projectRelative root ((root.resolve dir).extend trail.reverse)

/-- Whether an entry has a name that an index leaves out and is not known. -/
def LeftOut (root : Path) (dir : Text) (known : List Text) : Trail → Prop
  | [] => False
  | name :: outer =>
    ProjectPath.isSpecialName name = true ∧ knownAs root dir (name :: outer) ∉ known

instance (root : Path) (dir : Text) (known : List Text) : DecidablePred (LeftOut root dir known)
  | [] => inferInstanceAs (Decidable False)
  | _ :: _ => inferInstanceAs (Decidable (_ ∧ _))

section Below

variable {t : FileTree} {root : Path} {dir : Text} {trail inner : Trail} {d e : Entry}

theorem exists_knownAs_eq (root : Path) (hback : t.NoBackslash)
    (hdir : Path.anchorOf dir = .relative) : ∃ front : Text, ∀ trail e,
      t.Shows root dir trail e → knownAs root dir trail =
        front ++ ProjectPath.descend dir trail.reverse := by
  obtain ⟨front, -, -, hfront⟩ := exists_projectRelative_eq root
  exact ⟨front, fun trail e h => hfront _ _ (h.leadsOn hdir) fun s hs =>
    h.not_mem_backslash hback hdir s (List.mem_append_right _ hs)⟩

/-- The texts of entries tell which lies below which. -/
theorem startsWith_knownAs_iff (hback : t.NoBackslash) (hdir : Path.anchorOf dir = .relative)
    (hinner : t.Shows root dir inner d) (houter : t.Shows root dir trail e) :
    Text.startsWith (knownAs root dir inner) (knownAs root dir trail ++ ['/']) = true ↔
      ∃ rest, rest ≠ [] ∧ inner = rest ++ trail := by
  obtain ⟨front, hfront⟩ := exists_knownAs_eq root hback hdir
  rw [hfront inner d hinner, hfront trail e houter, Text.startsWith, List.isPrefixOf_iff_prefix,
    List.append_assoc, List.prefix_append_right_inj, ← List.isPrefixOf_iff_prefix]
  constructor
  · exact hinner.exists_append_of_startsWith houter
  · rintro ⟨rest, hrest, rfl⟩
    have hne : Path.segmentsOf dir ++ trail.reverse ≠ [] :=
      List.append_ne_nil_of_right_ne_nil _ fun hnil =>
        houter.ne_nil (List.reverse_eq_nil_iff.mp hnil)
    refine (ProjectPath.startsWith_joinWith_iff hne
      (fun s hs => (ProjectPath.isSegment_descend houter.isSegment s hs).2.2)
      fun s hs => (ProjectPath.isSegment_descend hinner.isSegment s hs).2.2).mpr
        ⟨rest.reverse, fun hnil => hrest (List.reverse_eq_nil_iff.mp hnil), ?_⟩
    rw [List.reverse_append, List.append_assoc]

/-- The path on which a walk finds an entry tells the names on the way. -/
theorem FileTree.Shows.extend_inj (h : t.Shows root dir trail e) (h' : t.Shows root dir inner d)
    (heq : (root.resolve dir).extend trail.reverse = (root.resolve dir).extend inner.reverse) :
    trail = inner := by
  have hsegments := congrArg Path.segments heq
  rw [Path.segments_extend _ h.isSegment, Path.segments_extend _ h'.isSegment] at hsegments
  exact List.reverse_injective (List.append_cancel_left hsegments)

/-- A walk from a directory on the way finds what lies below it. -/
theorem FileTree.Shows.mem_walk_iff (h : t.Shows root dir trail .directory)
    (hdir : Path.anchorOf dir = .relative) {x : Path × Bool} :
    x ∈ t.walk ((root.resolve dir).extend trail.reverse) ↔ ∃ rest d, rest ≠ [] ∧
      t.Shows root dir (rest ++ trail) d ∧
        x = ((root.resolve dir).extend (rest ++ trail).reverse, d.isDirectory) := by
  obtain ⟨_, -, hstat⟩ := h.stat hdir Entry.directory_ne_link
  have hpath : ∀ rest : Trail,
      (root.resolve (ProjectPath.descend dir trail.reverse)).extend rest.reverse =
        (root.resolve dir).extend (rest ++ trail).reverse := by
    intro rest
    rw [h.resolve hdir, Path.extend_extend, List.reverse_append]
  rw [← h.resolve hdir, FileTree.walk,
    FileTree.mem_walkSkipping_iff (FileTree.isDirectory_iff.mpr ⟨_, hstat⟩)]
  constructor
  · rintro ⟨rest, d, hrest, -, rfl⟩
    exact ⟨rest, d, hrest.ne_nil, (FileTree.shows_append_iff h hdir hrest.ne_nil).mpr hrest,
      by rw [hpath]⟩
  · rintro ⟨rest, d, hrest, hd, rfl⟩
    exact ⟨rest, d, (FileTree.shows_append_iff h hdir hrest).mp hd, fun _ _ => rfl, by rw [hpath]⟩

end Below

namespace Pass

/-! ## What the scan classifies, in its order -/

/-- What the scan classifies, one after another. -/
def Terms.recovered (k : Terms) (t : FileTree) (known : List Text) :
    List Text → List (Path × Bool) → List (Path × Bool)
  | _, [] => []
  | covered, found :: rest =>
    if k.passesOver known covered found then recovered k t known covered rest
    else
      k.brought t found ++ recovered k t known
        (if found.2 then covered ++ [projectRelative k.root found.1] else covered) rest

variable {k : Terms} {t : FileTree} {p : Pass} {known : List Text}

/-- The scan classifies what it recovers, and does nothing else. -/
theorem foldl_supplementOne (hk : p.terms = k) (h : p.Sound) (covered : List Text)
    (l : List (Path × Bool)) : (l.foldl (supplementOne t known) (covered, p)).2 =
      (k.recovered t known covered l).foldl (addFound t) p := by
  induction l generalizing covered p with
  | nil => rfl
  | cons found rest ih =>
    rw [List.foldl_cons, supplementOne_eq t hk, Terms.recovered]
    split
    · exact ih hk h covered
    · have hone := foldl_brought_joins t hk h found
      rw [List.foldl_append, ih (hone.terms.trans hk) hone.sound]

theorem supplement_eq_foldl (hk : p.terms = k) (h : p.Sound) {primary : Path}
    (hprimary : t.isDirectory primary = true) : p.supplement t primary known =
      (k.recovered t known [] (t.walk primary)).foldl (addFound t) p := by
  rw [supplement, if_pos hprimary, foldl_supplementOne hk h]

namespace Terms

/-! ## What that is -/

/-- What is classified comes with an entry that is left out and that nothing taken before
covers. -/
theorem mem_recovered {covered : List Text} {l : List (Path × Bool)} {x : Path × Bool}
    (h : x ∈ k.recovered t known covered l) : ∃ found ∈ l, k.leftOut known found = true ∧
      ¬ k.Covered covered found ∧ x ∈ k.brought t found := by
  induction l generalizing covered with
  | nil => cases h
  | cons found rest ih =>
    rw [recovered] at h
    split at h
    · obtain ⟨other, hother, hmore⟩ := ih h
      exact ⟨other, List.mem_cons_of_mem _ hother, hmore⟩
    · next hpass =>
      rcases List.mem_append.mp h with h | h
      · rw [passesOver_iff, not_or, Bool.not_eq_false] at hpass
        exact ⟨found, List.mem_cons_self, hpass.1, hpass.2, h⟩
      · obtain ⟨other, hother, hleft, hcovered, hx⟩ := ih h
        rw [covered_taken_iff, not_or] at hcovered
        exact ⟨other, List.mem_cons_of_mem _ hother, hleft, hcovered.1, hx⟩

/-- An entry that is left out is taken, or it lies below a directory that is. -/
theorem recovered_of_leftOut {covered : List Text} {l : List (Path × Bool)} {found : Path × Bool}
    (hfound : found ∈ l) (hleft : k.leftOut known found = true)
    (hcovered : ¬ k.Covered covered found) :
    ∃ taken ∈ l, (taken = found ∨ k.Covers taken found) ∧
      ∀ x ∈ k.brought t taken, x ∈ k.recovered t known covered l := by
  induction l generalizing covered with
  | nil => cases hfound
  | cons first rest ih =>
    rw [recovered]
    split
    · next hpass =>
      have hne : found ≠ first := by
        rintro rfl
        rw [passesOver_iff, hleft] at hpass
        exact hcovered (hpass.resolve_left Bool.true_eq_false.mp)
      obtain ⟨taken, htaken, hmore⟩ := ih ((List.mem_cons.mp hfound).resolve_left hne) hcovered
      exact ⟨taken, List.mem_cons_of_mem _ htaken, hmore⟩
    · by_cases hfirst : first = found ∨ k.Covers first found
      · exact ⟨first, List.mem_cons_self, hfirst, fun x hx => List.mem_append_left _ hx⟩
      · -- the first entry has nothing to do with the one in question
        obtain ⟨hne, hcovers⟩ := not_or.mp hfirst
        have hrest := (List.mem_cons.mp hfound).resolve_left (Ne.symm hne)
        have hstill := mt (k.covered_taken_iff covered first found).mp
          (not_or.mpr ⟨hcovered, hcovers⟩)
        obtain ⟨taken, htaken, hor, hbrought⟩ := ih hrest hstill
        exact ⟨taken, List.mem_cons_of_mem _ htaken, hor, fun x hx =>
          List.mem_append_right _ (hbrought x hx)⟩

/-- Nothing is classified twice, if entries that the scan may both take bring along different
things. -/
theorem nodup_recovered {covered : List Text} {l : List (Path × Bool)}
    (hone : ∀ found ∈ l, (k.brought t found).Nodup)
    (hapart : l.Pairwise fun found other =>
      ¬ k.Covers found other → (k.brought t found).Disjoint (k.brought t other)) :
    (k.recovered t known covered l).Nodup := by
  induction l generalizing covered with
  | nil => exact List.nodup_nil
  | cons found rest ih =>
    obtain ⟨hfirst, hrest⟩ := List.pairwise_cons.mp hapart
    have hrestOne : ∀ other ∈ rest, (k.brought t other).Nodup :=
      fun other hother => hone other (List.mem_cons_of_mem _ hother)
    rw [recovered]
    split
    · exact ih hrestOne hrest
    · refine (hone found List.mem_cons_self).append (ih hrestOne hrest) fun x hx hx' => ?_
      obtain ⟨other, hother, -, hcovered, hbrought⟩ := mem_recovered hx'
      rw [covered_taken_iff, not_or] at hcovered
      exact hfirst other hother hcovered.2 hx hbrought

/-! ## Entries of a project -/

variable {dir : Text} {trail inner : Trail} {e d : Entry}

theorem leftOut_iff (h : t.Shows k.root dir trail e) :
    k.leftOut known ((k.root.resolve dir).extend trail.reverse, e.isDirectory) = true ↔
      LeftOut k.root dir known trail := by
  obtain ⟨name, outer, rfl⟩ := List.exists_cons_of_ne_nil h.ne_nil
  rw [leftOut, h.name_extend]
  simp [LeftOut, knownAs]

theorem covers_iff (hback : t.NoBackslash) (hdir : Path.anchorOf dir = .relative)
    (houter : t.Shows k.root dir trail e) (hinner : t.Shows k.root dir inner d) :
    k.Covers ((k.root.resolve dir).extend trail.reverse, e.isDirectory)
        ((k.root.resolve dir).extend inner.reverse, d.isDirectory) ↔
      ∃ rest, rest ≠ [] ∧ inner = rest ++ trail := by
  refine (and_congr_right fun _ => startsWith_knownAs_iff hback hdir hinner houter).trans
    (and_iff_right_of_imp ?_)
  rintro ⟨rest, hrest, rfl⟩
  rw [houter.unique (hinner.outer hrest houter.ne_nil)]
  rfl

/-- An entry that is taken brings along what lies below it, and itself unless it is a sidecar. -/
theorem mem_brought_iff (hdir : Path.anchorOf dir = .relative) (h : t.Shows k.root dir trail e)
    {x : Path × Bool} :
    x ∈ k.brought t ((k.root.resolve dir).extend trail.reverse, e.isDirectory) ↔
      ∃ inner d, t.Shows k.root dir inner d ∧
        x = ((k.root.resolve dir).extend inner.reverse, d.isDirectory) ∧
          ((∃ rest, rest ≠ [] ∧ inner = rest ++ trail) ∨ inner = trail ∧ (d.isDirectory = true ∨
            Text.endsWith (knownAs k.root dir inner) k.suffix = false)) := by
  cases hkind : e.isDirectory with
  | true =>
    obtain rfl := FileTree.eq_directory hkind
    show x ∈ (_, true) :: t.walk ((k.root.resolve dir).extend trail.reverse) ↔ _
    rw [List.mem_cons, h.mem_walk_iff hdir]
    constructor
    · rintro (rfl | ⟨rest, d, hrest, hd, rfl⟩)
      · exact ⟨trail, .directory, h, rfl, .inr ⟨rfl, .inl rfl⟩⟩
      · exact ⟨rest ++ trail, d, hd, rfl, .inl ⟨rest, hrest, rfl⟩⟩
    · rintro ⟨_, d, hd, rfl, ⟨rest, hrest, rfl⟩ | ⟨rfl, -⟩⟩
      · exact .inr ⟨rest, d, hrest, hd, rfl⟩
      · rw [← h.unique hd]
        exact .inl rfl
  | false =>
    show x ∈ (if Text.endsWith (knownAs k.root dir trail) k.suffix then [] else [(_, false)]) ↔ _
    constructor
    · intro hx
      split at hx
      · cases hx
      · next hends =>
        refine ⟨trail, e, h, ?_, .inr ⟨rfl, .inr (Bool.eq_false_iff.mpr hends)⟩⟩
        rw [List.mem_singleton.mp hx, hkind]
    · rintro ⟨_, d, hd, rfl, ⟨rest, hrest, rfl⟩ | ⟨rfl, hkept⟩⟩
      · -- nothing lies below what is no directory
        rw [h.unique (hd.outer hrest h.ne_nil)] at hkind
        cases hkind
      · obtain rfl := h.unique hd
        have hends := hkept.resolve_left (Bool.eq_false_iff.mp hkind)
        rw [if_neg (Bool.eq_false_iff.mp hends), hkind]
        exact List.mem_singleton_self _

/-- What an entry brings along that is left out is classified, whether with the entry itself or with
a directory above it. -/
theorem recovered_of_brought (hback : t.NoBackslash) (hdir : Path.anchorOf dir = .relative)
    (h : t.Shows k.root dir trail e) (hleft : LeftOut k.root dir known trail) {x : Path × Bool}
    (hx : x ∈ k.brought t ((k.root.resolve dir).extend trail.reverse, e.isDirectory)) :
    x ∈ k.recovered t known [] (t.walk (k.root.resolve dir)) := by
  have hnone : ¬ k.Covered [] ((k.root.resolve dir).extend trail.reverse, e.isDirectory) := by
    rintro ⟨_, hc, -⟩
    exact List.not_mem_nil hc
  obtain ⟨taken, htaken, hor, hbrought⟩ :=
    recovered_of_leftOut h.mem_walk ((leftOut_iff h).mpr hleft) hnone
  rcases hor with rfl | hcovers
  · exact hbrought x hx
  · obtain ⟨outer, c, houter, -, rfl⟩ := (FileTree.mem_walkSkipping_iff h.isDirectory).mp htaken
    obtain ⟨between, hbetween, rfl⟩ := (covers_iff hback hdir houter h).mp hcovers
    -- what lies below the entry lies below the directory above it
    refine hbrought x ((mem_brought_iff hdir houter).mpr ?_)
    obtain ⟨_, d, hd, rfl, ⟨rest, hrest, rfl⟩ | ⟨rfl, -⟩⟩ := (mem_brought_iff hdir h).mp hx
    · refine ⟨_, d, hd, rfl, .inl ⟨rest ++ between, ?_, (List.append_assoc _ _ _).symm⟩⟩
      exact List.append_ne_nil_of_left_ne_nil hrest between
    · exact ⟨_, d, hd, rfl, .inl ⟨between, hbetween, rfl⟩⟩

/-- The scan classifies what lies below a directory that is left out, and what is left out itself
and is no sidecar. -/
theorem mem_recovered_iff (hback : t.NoBackslash) (hdir : Path.anchorOf dir = .relative)
    (hdirectory : t.isDirectory (k.root.resolve dir) = true) {x : Path × Bool} :
    x ∈ k.recovered t known [] (t.walk (k.root.resolve dir)) ↔ ∃ trail e,
      t.Shows k.root dir trail e ∧
        x = ((k.root.resolve dir).extend trail.reverse, e.isDirectory) ∧
          ((∃ outer, outer <:+ trail ∧ outer ≠ trail ∧ LeftOut k.root dir known outer) ∨
            LeftOut k.root dir known trail ∧ (e.isDirectory = true ∨
              Text.endsWith (knownAs k.root dir trail) k.suffix = false)) := by
  constructor
  · intro hx
    obtain ⟨found, hfound, hleft, -, hbrought⟩ := mem_recovered hx
    obtain ⟨trail, e, h, -, rfl⟩ := (FileTree.mem_walkSkipping_iff hdirectory).mp hfound
    rw [leftOut_iff h] at hleft
    obtain ⟨_, d, hd, rfl, ⟨rest, hrest, rfl⟩ | ⟨rfl, hkept⟩⟩ := (mem_brought_iff hdir h).mp hbrought
    · refine ⟨_, d, hd, rfl, .inl ⟨trail, List.suffix_append rest trail, fun heq => ?_, hleft⟩⟩
      exact hrest (List.self_eq_append_left.mp heq)
    · exact ⟨_, d, hd, rfl, .inr ⟨hleft, hkept⟩⟩
  · rintro ⟨trail, e, h, rfl, ⟨outer, ⟨rest, rfl⟩, hne, hleft⟩ | ⟨hleft, hkept⟩⟩
    · have hrest : rest ≠ [] := fun hnil => hne (by rw [hnil, List.nil_append])
      have houter : outer ≠ [] := by
        rintro rfl
        exact hleft
      refine recovered_of_brought hback hdir (h.outer hrest houter) hleft ?_
      exact (mem_brought_iff hdir (h.outer hrest houter)).mpr
        ⟨_, e, h, rfl, .inl ⟨rest, hrest, rfl⟩⟩
    · exact recovered_of_brought hback hdir h hleft
        ((mem_brought_iff hdir h).mpr ⟨_, e, h, rfl, .inr ⟨rfl, hkept⟩⟩)

/-- An entry does not bring along anything twice. -/
theorem nodup_brought (hdir : Path.anchorOf dir = .relative) (h : t.Shows k.root dir trail e) :
    (k.brought t ((k.root.resolve dir).extend trail.reverse, e.isDirectory)).Nodup := by
  rw [brought]
  split
  · next hkind =>
    obtain rfl := FileTree.eq_directory hkind
    obtain ⟨_, -, hstat⟩ := h.stat hdir Entry.directory_ne_link
    rw [h.resolve hdir] at hstat
    refine List.nodup_cons.mpr ⟨fun hself => ?_,
      List.Nodup.of_map Prod.fst (FileTree.nodup_walkSkipping _ hstat)⟩
    obtain ⟨rest, d, hrest, hd, heq⟩ := (h.mem_walk_iff hdir).mp hself
    have hsame := h.extend_inj hd (Prod.mk.inj heq).1
    exact hrest (List.self_eq_append_left.mp hsame)
  · split
    · exact List.nodup_nil
    · exact List.nodup_singleton _

/-- Entries of which neither lies below the other bring along different things. -/
theorem disjoint_brought (hdir : Path.anchorOf dir = .relative) (h : t.Shows k.root dir trail e)
    (h' : t.Shows k.root dir inner d) (hout : ¬ trail <:+ inner) (hin : ¬ inner <:+ trail) :
    (k.brought t ((k.root.resolve dir).extend trail.reverse, e.isDirectory)).Disjoint
      (k.brought t ((k.root.resolve dir).extend inner.reverse, d.isDirectory)) := by
  have hway : ∀ {way c} {x : Path × Bool}, t.Shows k.root dir way c →
      x ∈ k.brought t ((k.root.resolve dir).extend way.reverse, c.isDirectory) →
        ∃ below b, t.Shows k.root dir below b ∧
          x.1 = (k.root.resolve dir).extend below.reverse ∧ way <:+ below := by
    intro way c x hc hx
    obtain ⟨_, b, hb, rfl, ⟨rest, -, rfl⟩ | ⟨rfl, -⟩⟩ := (mem_brought_iff hdir hc).mp hx
    · exact ⟨_, b, hb, rfl, List.suffix_append rest way⟩
    · exact ⟨_, b, hb, rfl, List.suffix_rfl⟩
  intro x hx hx'
  obtain ⟨below, b, hb, hpath, hsuffix⟩ := hway h hx
  obtain ⟨below', b', hb', hpath', hsuffix'⟩ := hway h' hx'
  obtain rfl := hb.extend_inj hb' (hpath.symm.trans hpath')
  exact (List.suffix_or_suffix_of_suffix hsuffix hsuffix').elim hout hin

/-- The scan classifies nothing twice. -/
theorem nodup_recovered_walk (hback : t.NoBackslash) (hdir : Path.anchorOf dir = .relative)
    (hdirectory : t.isDirectory (k.root.resolve dir) = true) :
    (k.recovered t known [] (t.walk (k.root.resolve dir))).Nodup := by
  obtain ⟨l, hl⟩ := FileTree.isDirectory_iff.mp hdirectory
  refine nodup_recovered (fun found hfound => ?_) ?_
  · obtain ⟨trail, e, h, -, rfl⟩ := (FileTree.mem_walkSkipping_iff hdirectory).mp hfound
    exact nodup_brought hdir h
  · rw [FileTree.walk, FileTree.walkSkipping_eq_descendants _ hl, List.pairwise_map]
    have hshows : ∀ {p}, p ∈ t.descendants (fun _ => false) l [] → ∃ e, t.Shows k.root dir p.1 e ∧
        p.2 = e.isDirectory := by
      intro p hp
      obtain ⟨rest, e, rfl, hvisible, -⟩ := FileTree.mem_descendants.mp hp
      exact ⟨e, ⟨l, hl, (List.append_nil rest).symm ▸ hvisible⟩, rfl⟩
    refine (t.pairwise_descendants _ l []).imp_of_mem fun {p q} hp hq hlate hcovers => ?_
    obtain ⟨e, h, hkind⟩ := hshows hp
    obtain ⟨d, h', hkind'⟩ := hshows hq
    rw [hkind, hkind'] at hcovers ⊢
    rw [covers_iff hback hdir h h'] at hcovers
    refine disjoint_brought hdir h h' ?_ hlate
    rintro ⟨rest, hrest⟩
    refine hcovers ⟨rest, fun hnil => hlate ?_, hrest.symm⟩
    rw [← hrest, hnil]
    exact List.suffix_rfl

end Terms

end Pass

/-- **What the supplemental scan recovers.** Take any file tree without backslashes in names, with
links and locked directories or not, and any pass over any rules, whatever it was used for before.
The scan below a directory of the project classifies some entries and does nothing else. These are,
each once, the entries visible there that lie below a directory left out by an index and unknown,
and those that are left out and unknown themselves and are directories or no sidecars. -/
theorem supplement_recovers (t : FileTree) (lines : List Text) (root : Path) (suffix : Text)
    (files dirs : TextSet) (uses : List Pass.Use) (dir : Text) (known : List Text)
    (hback : t.NoBackslash) (hdir : Path.anchorOf dir = .relative) :
    let p := Pass.startFrom t lines root suffix files dirs uses
    ∃ entries : List (Path × Bool), entries.Nodup ∧
      p.supplement t (root.resolve dir) known = entries.foldl (Pass.addFound t) p ∧
      ∀ found, found ∈ entries ↔ ∃ trail e, t.Shows root dir trail e ∧
        found = ((root.resolve dir).extend trail.reverse, e.isDirectory) ∧
          ((∃ outer, outer <:+ trail ∧ outer ≠ trail ∧ LeftOut root dir known outer) ∨
            LeftOut root dir known trail ∧ (e.isDirectory = true ∨
              Text.endsWith (knownAs root dir trail) suffix = false)) := by
  intro p
  obtain ⟨hterms, hsound⟩ := Pass.startFrom_steady t lines root suffix files dirs uses
  by_cases hdirectory : t.isDirectory (root.resolve dir) = true
  · let k : Pass.Terms := ⟨Rule.ofLines lines, root, suffix⟩
    exact ⟨k.recovered t known [] (t.walk (root.resolve dir)),
      Pass.Terms.nodup_recovered_walk (k := k) hback hdir hdirectory,
      Pass.supplement_eq_foldl hterms hsound hdirectory,
      fun _ => Pass.Terms.mem_recovered_iff (k := k) hback hdir hdirectory⟩
  · refine ⟨[], List.nodup_nil, if_neg hdirectory, fun found => ?_⟩
    refine iff_of_false List.not_mem_nil ?_
    rintro ⟨_, _, hshows, -⟩
    exact hdirectory hshows.isDirectory

/-- A directory with a special name that holds two files, of which one has a special name too. -/
def hiddenSpare : FileTree :=
  hiddenNotes.insert [".b".toList, defaultPrimaryRoot] "~b.txt".toList (.file .empty 0)

/-- Below a known directory, the scan classifies what has a special name and nothing else. -/
theorem hiddenSpare_recovered :
    let t := hiddenSpare
    let root := Path.ofText ['/']
    let dir := defaultPrimaryRoot
    let p := Pass.startFrom t ["*.txt".toList] root defaultSidecarSuffix ∅ ∅ [.askPass dir]
    t.NoBackslash ∧ Path.anchorOf dir = .relative ∧ ∃ entries : List (Path × Bool),
      p.supplement t (root.resolve dir) ["Assets/.b".toList] = entries.foldl (Pass.addFound t) p ∧
        ((root.resolve dir).extend [".b".toList, "~b.txt".toList], false) ∈ entries ∧
        ((root.resolve dir).extend [".b".toList, "a.txt".toList], false) ∉ entries := by
  intro t root dir p
  have hback : t.NoBackslash := FileTree.noBackslash_of_entries (by decide)
  have hdir : Path.anchorOf dir = .relative := by decide
  refine ⟨hback, hdir, ?_⟩
  obtain ⟨entries, -, hscan, hmem⟩ := supplement_recovers t ["*.txt".toList] root
    defaultSidecarSuffix ∅ ∅ [.askPass dir] dir ["Assets/.b".toList] hback hdir
  have hstat : t.stat (root.resolve dir) = .ok ([defaultPrimaryRoot], .directory) := by decide
  have hshows : ∀ name, t.get? [name, ".b".toList, defaultPrimaryRoot] = some (.file .empty 0) →
      t.Shows root dir [name, ".b".toList] (.file .empty 0) := by
    refine fun name hget => ⟨_, hstat, (FileTree.visible_append_iff (List.cons_ne_nil name [])
      (List.cons_ne_nil ".b".toList [])).mpr ⟨?_, ?_⟩⟩
    · exact FileTree.visible_singleton.mpr (by decide)
    · exact FileTree.visible_singleton.mpr ⟨by decide, hget⟩
  have hspare := hshows "~b.txt".toList (by decide)
  have hnotes := hshows "a.txt".toList (by decide)
  refine ⟨entries, hscan, (hmem _).mpr ⟨_, _, hspare, rfl, .inr ⟨by decide, .inr (by decide)⟩⟩, ?_⟩
  intro hm
  obtain ⟨trail, e, h, heq, hleft⟩ := (hmem _).mp hm
  obtain rfl := hnotes.extend_inj h (Prod.mk.inj heq).1
  rcases hleft with ⟨outer, houter, hne, hleft⟩ | ⟨hleft, -⟩
  · -- the directory above is known
    rcases List.suffix_cons_iff.mp houter with rfl | houter
    · exact hne rfl
    · rcases List.suffix_cons_iff.mp houter with rfl | houter
      · exact hleft.2 (by decide)
      · rw [List.suffix_nil.mp houter] at hleft
        exact hleft
  · exact absurd hleft.1 (by decide)

end IgnoredPaths
