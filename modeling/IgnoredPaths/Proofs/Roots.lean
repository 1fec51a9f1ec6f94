import IgnoredPaths.Collect
import IgnoredPaths.Proofs.Resolve
import Mathlib.Data.List.Forall2

/-!
# Names of extra roots

Raw names are cleaned before they are checked, so the check sees what is joined to the project. The
list of roots grows at its end only, and so does the list of warnings; what they hold is proved of
one raw name and carried over all of them from the end.

Names are compared without regard to case by their lower-case forms. The name `.` is accepted, and
leads to the project itself.

- `addExtraRoot_cases`: what becomes of one raw name.
- `mem_extraRoots_iff`: the extra roots are the raw names, cleaned, that are accepted; neither their
  order nor repetitions matter.
- `pairwise_extraRoots`, `warnings_extraRoots`: in which order they stand, and which names are
  refused with a warning.
- `IsConfinedRoot`: what the cleaning and the check make sure of.
- `staysInside_of_mem_acceptedExtraRoots`: the extra roots of a project lie inside it.
- `extraRoots_confined`: all of this for any raw names.
-/

namespace IgnoredPaths

/-- Whether a cleaned name can be an extra root beside a primary root. -/
def AcceptsRoot (primary name : Text) : Prop :=
  name ≠ [] ∧ Text.lower name ≠ Text.lower primary ∧ checkRootName name = .ok ()

/-! ## One raw name -/

/-- What becomes of a raw name: it is passed over, it is refused with a warning, or it is added. -/
theorem addExtraRoot_cases (primary : Text) (sofar : List Text × List Message)
    (raw : Option Text) :
    (addExtraRoot primary sofar raw = sofar ∧ ∀ r, raw = some r →
        cleanRootName r = [] ∨ Text.lower (cleanRootName r) = Text.lower primary ∨
          AcceptsRoot primary (cleanRootName r) ∧ cleanRootName r ∈ sofar.1) ∨
      (∃ r e, raw = some r ∧ cleanRootName r ≠ [] ∧
        Text.lower (cleanRootName r) ≠ Text.lower primary ∧
        checkRootName (cleanRootName r) = .error e ∧
        addExtraRoot primary sofar raw = (sofar.1, sofar.2 ++ [.warning e.message])) ∨
      ∃ r, raw = some r ∧ AcceptsRoot primary (cleanRootName r) ∧ cleanRootName r ∉ sofar.1 ∧
        addExtraRoot primary sofar raw = (sofar.1 ++ [cleanRootName r], sofar.2) := by
  cases raw with
  | none => exact .inl ⟨rfl, fun r h => absurd h.symm (Option.some_ne_none r)⟩
  | some r =>
    simp only [addExtraRoot]
    split
    · next hskipped =>
      simp only [Bool.or_eq_true, decide_eq_true_eq] at hskipped
      refine .inl ⟨rfl, fun r' hr => ?_⟩
      obtain rfl := Option.some.inj hr
      exact hskipped.imp_right .inl
    · next hnew =>
      simp only [Bool.or_eq_true, decide_eq_true_eq, not_or] at hnew
      split
      · next e hcheck => exact .inr (.inl ⟨r, e, rfl, hnew.1, hnew.2, hcheck, rfl⟩)
      · next hcheck =>
        have haccepts : AcceptsRoot primary (cleanRootName r) := ⟨hnew.1, hnew.2, hcheck⟩
        split
        · next hthere =>
          refine .inl ⟨rfl, fun r' hr => ?_⟩
          obtain rfl := Option.some.inj hr
          exact .inr (.inr ⟨haccepts, List.contains_iff_mem.mp hthere⟩)
        · next hthere =>
          exact .inr (.inr ⟨r, rfl, haccepts, fun h => hthere (List.contains_iff_mem.mpr h), rfl⟩)

/-- A raw name adds itself, cleaned, if it is accepted. -/
theorem mem_addExtraRoot {primary name : Text} {raw : Option Text}
    {sofar : List Text × List Message} :
    name ∈ (addExtraRoot primary sofar raw).1 ↔
      name ∈ sofar.1 ∨ ∃ r, raw = some r ∧ name = cleanRootName r ∧ AcceptsRoot primary name := by
  rcases addExtraRoot_cases primary sofar raw with
    ⟨hsame, hold⟩ | ⟨r, e, rfl, -, -, hcheck, hsame⟩ | ⟨r, rfl, haccepts, -, hadded⟩
  · rw [hsame]
    refine (or_iff_left_of_imp ?_).symm
    rintro ⟨r, hr, rfl, haccepts⟩
    rcases hold r hr with hempty | hprimary | ⟨-, hthere⟩
    · exact absurd hempty haccepts.1
    · exact absurd hprimary haccepts.2.1
    · exact hthere
  · rw [hsame]
    refine (or_iff_left_of_imp ?_).symm
    rintro ⟨r', hr, rfl, haccepts⟩
    obtain rfl := Option.some.inj hr
    cases hcheck.symm.trans haccepts.2.2
  · rw [hadded, List.mem_append, List.mem_singleton]
    refine or_congr_right ⟨?_, ?_⟩
    · rintro rfl
      exact ⟨r, rfl, rfl, haccepts⟩
    · rintro ⟨r', hr, rfl, -⟩
      rw [Option.some.inj hr]

/-! ## All raw names -/

/-- Each extra root is a raw name, cleaned, that is accepted, and each such name is one. -/
theorem mem_extraRoots_iff {primary name : Text} {raw : List (Option Text)} :
    name ∈ (extraRoots raw primary).1 ↔
      ∃ r, some r ∈ raw ∧ name = cleanRootName r ∧ AcceptsRoot primary name := by
  have hfold : ∀ sofar : List Text × List Message,
      name ∈ (raw.foldl (addExtraRoot primary) sofar).1 ↔ name ∈ sofar.1 ∨
        ∃ r, some r ∈ raw ∧ name = cleanRootName r ∧ AcceptsRoot primary name := by
    induction raw with
    | nil => simp
    | cons first rest ih =>
      intro sofar
      rw [List.foldl_cons, ih, mem_addExtraRoot, or_assoc]
      refine or_congr_right ?_
      simp only [List.mem_cons, or_and_right, exists_or, eq_comm]
  rw [extraRoots, hfold]
  exact or_iff_right List.not_mem_nil

/-! ## Order and warnings -/

/-- The raw names, cleaned, in their order. -/
def cleanedNames (raw : List (Option Text)) : List Text := raw.filterMap (·.map cleanRootName)

theorem extraRoots_concat (raw : List (Option Text)) (last : Option Text) (primary : Text) :
    extraRoots (raw ++ [last]) primary = addExtraRoot primary (extraRoots raw primary) last := by
  rw [extraRoots, List.foldl_append]
  rfl

theorem cleanedNames_concat (raw : List (Option Text)) (last : Option Text) :
    cleanedNames (raw ++ [last]) = cleanedNames raw ++ (last.map cleanRootName).toList := by
  rw [cleanedNames, List.filterMap_append]
  cases last <;> rfl

theorem mem_cleanedNames {raw : List (Option Text)} {name : Text} :
    name ∈ cleanedNames raw ↔ ∃ r, some r ∈ raw ∧ name = cleanRootName r := by
  rw [cleanedNames, List.mem_filterMap]
  constructor
  · rintro ⟨last, hmem, hclean⟩
    obtain ⟨r, rfl, rfl⟩ := Option.map_eq_some_iff.mp hclean
    exact ⟨r, hmem, rfl⟩
  · rintro ⟨r, hmem, rfl⟩
    exact ⟨some r, hmem, rfl⟩

theorem mem_extraRoots_iff_cleaned {raw : List (Option Text)} {primary name : Text} :
    name ∈ (extraRoots raw primary).1 ↔ name ∈ cleanedNames raw ∧ AcceptsRoot primary name := by
  rw [mem_extraRoots_iff, mem_cleanedNames]
  constructor
  · rintro ⟨r, hmem, hclean, haccepts⟩
    exact ⟨⟨r, hmem, hclean⟩, haccepts⟩
  · rintro ⟨⟨r, hmem, hclean⟩, haccepts⟩
    exact ⟨r, hmem, hclean, haccepts⟩

/-- The extra roots stand in the order in which their names first occur. -/
theorem pairwise_extraRoots (raw : List (Option Text)) (primary : Text) :
    (extraRoots raw primary).1.Pairwise fun a b =>
      (cleanedNames raw).idxOf a < (cleanedNames raw).idxOf b := by
  induction raw using List.reverseRecOn with
  | nil => exact .nil
  | append_singleton raw last ih =>
    -- later names do not change where earlier ones first occur
    have hold : (extraRoots raw primary).1.Pairwise fun a b =>
        (cleanedNames (raw ++ [last])).idxOf a < (cleanedNames (raw ++ [last])).idxOf b := by
      refine ih.imp_of_mem fun ha hb hlt => ?_
      rw [cleanedNames_concat, List.idxOf_append_of_mem (mem_extraRoots_iff_cleaned.mp ha).1,
        List.idxOf_append_of_mem (mem_extraRoots_iff_cleaned.mp hb).1]
      exact hlt
    rw [extraRoots_concat]
    rcases addExtraRoot_cases primary (extraRoots raw primary) last with
      ⟨hsame, -⟩ | ⟨_, _, -, -, -, -, hsame⟩ | ⟨r, rfl, haccepts, hnew, hadded⟩
    · rw [hsame]
      exact hold
    · rw [hsame]
      exact hold
    · rw [hadded, List.pairwise_append]
      refine ⟨hold, List.pairwise_singleton _ _, fun a ha b hb => ?_⟩
      have ha := (mem_extraRoots_iff_cleaned.mp ha).1
      -- an accepted name that was there before would be a root already
      have hfirst : cleanRootName r ∉ cleanedNames raw :=
        fun h => hnew (mem_extraRoots_iff_cleaned.mpr ⟨h, haccepts⟩)
      rw [List.mem_singleton.mp hb, cleanedNames_concat, List.idxOf_append_of_mem ha,
        List.idxOf_append_of_notMem hfirst]
      exact Nat.lt_add_right _ (List.idxOf_lt_length_of_mem ha)

/-- A name is refused if nothing but the check is against it. -/
def RefusesRoot (primary name : Text) : Prop :=
  name ≠ [] ∧ Text.lower name ≠ Text.lower primary ∧ checkRootName name ≠ .ok ()

instance (primary name : Text) : Decidable (RefusesRoot primary name) :=
  inferInstanceAs (Decidable (_ ∧ _ ∧ _))

theorem refusesRoot_iff {primary name : Text} : RefusesRoot primary name ↔
    name ≠ [] ∧ Text.lower name ≠ Text.lower primary ∧ ¬ AcceptsRoot primary name := by
  refine and_congr_right fun hne => and_congr_right fun hprimary => not_congr ?_
  exact ⟨fun hcheck => ⟨hne, hprimary, hcheck⟩, fun haccepts => haccepts.2.2⟩

/-- A warning says what is wrong with a name. -/
def WarnsOf (name : Text) (m : Message) : Prop :=
  ∃ e, checkRootName name = .error e ∧ m = .warning e.message

/-- A raw name brings a warning if it is refused, cleaned, and else none. -/
theorem warnings_addExtraRoot (primary : Text) (sofar : List Text × List Message)
    (raw : Option Text) : ∃ new, (addExtraRoot primary sofar raw).2 = sofar.2 ++ new ∧
      List.Forall₂ WarnsOf
        ((raw.map cleanRootName).toList.filter fun name => RefusesRoot primary name) new := by
  -- nothing is said of a name that is passed over or added, as neither is refused
  have hpassed : (∀ r, raw = some r → ¬ RefusesRoot primary (cleanRootName r)) →
      (raw.map cleanRootName).toList.filter (fun name => RefusesRoot primary name) = [] := by
    intro h
    cases raw with
    | none => rfl
    | some r => simp [h r rfl]
  rcases addExtraRoot_cases primary sofar raw with
    ⟨hsame, hold⟩ | ⟨r, e, rfl, hne, hprimary, hcheck, hsame⟩ | ⟨r, rfl, haccepts, -, hadded⟩
  · refine ⟨[], by rw [hsame, List.append_nil], ?_⟩
    rw [hpassed fun r hr hrefused => ?_]
    · exact .nil
    · rcases hold r hr with hempty | hprimary | ⟨haccepts, -⟩
      · exact hrefused.1 hempty
      · exact hrefused.2.1 hprimary
      · exact hrefused.2.2 haccepts.2.2
  · have hrefused : RefusesRoot primary (cleanRootName r) :=
      ⟨hne, hprimary, by rw [hcheck]; exact nofun⟩
    refine ⟨[.warning e.message], by rw [hsame], ?_⟩
    simp only [Option.map_some, Option.toList_some, List.filter_cons, hrefused, decide_true, if_true,
      List.filter_nil]
    exact .cons ⟨e, hcheck, rfl⟩ .nil
  · refine ⟨[], by rw [hadded, List.append_nil], ?_⟩
    rw [hpassed fun r' hr hrefused => ?_]
    · exact .nil
    · exact hrefused.2.2 (Option.some.inj hr ▸ haccepts.2.2)

/-- There is one warning for each refused name, in the order of the names. -/
theorem warnings_extraRoots (raw : List (Option Text)) (primary : Text) :
    List.Forall₂ WarnsOf ((cleanedNames raw).filter fun name => RefusesRoot primary name)
      (extraRoots raw primary).2 := by
  induction raw using List.reverseRecOn with
  | nil => exact .nil
  | append_singleton raw last ih =>
    obtain ⟨new, hnew, hwarns⟩ := warnings_addExtraRoot primary (extraRoots raw primary) last
    rw [extraRoots_concat, cleanedNames_concat, List.filter_append, hnew]
    exact List.rel_append ih hwarns

/-! ## Confinement -/

theorem checkRootName_eq_ok_iff {name : Text} : checkRootName name = .ok () ↔
    upSegment ∉ Text.split '/' (Text.swap '\\' '/' name) ∧ name.head? ≠ some '/' ∧
      hasDrive name = false := by
  simp only [checkRootName]
  split
  · next hup =>
    exact iff_of_false nofun fun h => h.1 (List.contains_iff_mem.mp hup)
  · next hup =>
    rw [List.contains_iff_mem] at hup
    split
    · next hplace =>
      refine iff_of_false nofun fun h => ?_
      rcases Bool.or_eq_true_iff.mp hplace with hslash | hdrive
      · exact h.2.1 (Text.startsWith_singleton_iff.mp hslash)
      · cases h.2.2.symm.trans hdrive
    · next hplace =>
      rw [Bool.or_eq_true_iff, not_or, Text.startsWith_singleton_iff, Bool.not_eq_true] at hplace
      exact iff_of_true rfl ⟨hup, hplace⟩

theorem backslash_not_mem_cleanRootName (raw : Text) : '\\' ∉ cleanRootName raw :=
  Text.not_mem_swap (by decide) _

/-- What ends a cleaned name was no slash of either kind before. -/
theorem getLast?_cleanRootName_ne (raw : Text) : (cleanRootName raw).getLast? ≠ some '/' := by
  intro hslash
  rw [cleanRootName, Text.swap, List.getLast?_map, Option.map_eq_some_iff] at hslash
  obtain ⟨c, hlast, heq⟩ := hslash
  have hkept := Text.getLast?_trimRight hlast
  simp only [Bool.or_eq_false_iff, decide_eq_false_iff_not] at hkept
  rw [if_neg hkept.2] at heq
  exact hkept.1 heq

/-- A name that does not lead out of a project, written without slashes around it and without
backslashes, and that is not the name of the primary root. -/
structure IsConfinedRoot (primary name : Text) : Prop where
  ne_nil : name ≠ []
  relative : (Path.ofText name).isAbsolute = false
  no_backslash : '\\' ∉ name
  head_ne : name.head? ≠ some '/'
  last_ne : name.getLast? ≠ some '/'
  no_up : upSegment ∉ Text.split '/' name
  no_drive : hasDrive name = false
  not_primary : Text.lower name ≠ Text.lower primary

theorem IsConfinedRoot.staysInside {primary name : Text} (h : IsConfinedRoot primary name) :
    ProjectPath.StaysInside name :=
  ⟨not_not.mp (of_decide_eq_false h.relative), fun hup => h.no_up (List.mem_filter.mp hup).1⟩

theorem isConfinedRoot_of_mem_extraRoots {raw : List (Option Text)} {primary name : Text}
    (h : name ∈ (extraRoots raw primary).1) : IsConfinedRoot primary name := by
  obtain ⟨r, -, rfl, hne, hprimary, hcheck⟩ := mem_extraRoots_iff.mp h
  obtain ⟨hup, hhead, hdrive⟩ := checkRootName_eq_ok_iff.mp hcheck
  -- the check looks for slashes of both kinds, but the cleaned name has only one
  have hback := backslash_not_mem_cleanRootName r
  have hrelative : Path.anchorOf (cleanRootName r) = .relative :=
    Path.anchorOf_eq_relative fun c hc => by rintro rfl; exact hhead hc
  exact {
    ne_nil := hne
    relative := decide_eq_false (not_not.mpr hrelative)
    no_backslash := hback
    head_ne := hhead
    last_ne := getLast?_cleanRootName_ne r
    no_up := Text.swap_eq_self '/' hback ▸ hup
    no_drive := hdrive
    not_primary := hprimary }

/-- The extra roots of a project stay inside it. -/
theorem staysInside_of_mem_acceptedExtraRoots {settings : Settings} {name : Text}
    (h : name ∈ settings.acceptedExtraRoots.1) : ProjectPath.StaysInside name :=
  (isConfinedRoot_of_mem_extraRoots h).staysInside

theorem anchorOf_of_mem_acceptedExtraRoots {settings : Settings} {name : Text}
    (h : name ∈ settings.acceptedExtraRoots.1) : Path.anchorOf name = .relative :=
  (staysInside_of_mem_acceptedExtraRoots h).1

/-- A path lies inside a directory if it goes on from there only through segments that lead
down. -/
def Path.LiesIn (p dir : Path) : Prop :=
  p.anchor = dir.anchor ∧ ∃ down, (∀ s ∈ down, LeadsDown s) ∧ p.segments = dir.segments ++ down

theorem ProjectPath.StaysInside.liesIn {path : Text} (h : StaysInside path) (dir : Path) :
    (dir.resolve path).LiesIn dir :=
  ⟨(dir.segments_resolve h.1).1, Path.segmentsOf path, h.leadsDown, (dir.segments_resolve h.1).2⟩

/-- The names that raw names stand for beside a primary root, for any raw names: each leads from
any directory to a place inside it and is there once, in the order in which the cleaned names first
occur. A raw name that is cleaned to something but the empty text and the primary root is one of
them or brings one warning, and no other brings any. -/
theorem extraRoots_confined (raw : List (Option Text)) (primary : Text) :
    (∀ name ∈ (extraRoots raw primary).1, IsConfinedRoot primary name ∧
      ∀ dir : Path, (dir.resolve name).LiesIn dir) ∧
    (extraRoots raw primary).1.Nodup ∧
    (extraRoots raw primary).1 ⊆ cleanedNames raw ∧
    ((extraRoots raw primary).1.Pairwise fun a b =>
      (cleanedNames raw).idxOf a < (cleanedNames raw).idxOf b) ∧
    List.Forall₂ WarnsOf
      ((cleanedNames raw).filter fun name => name ≠ [] ∧
        Text.lower name ≠ Text.lower primary ∧ name ∉ (extraRoots raw primary).1)
      (extraRoots raw primary).2 := by
  have hordered := pairwise_extraRoots raw primary
  refine ⟨fun name hname => ?_, ?_, fun name hname => ?_, hordered, ?_⟩
  · have hconfined := isConfinedRoot_of_mem_extraRoots hname
    exact ⟨hconfined, hconfined.staysInside.liesIn⟩
  · exact hordered.imp fun hlt heq => absurd (heq ▸ hlt) (Nat.lt_irrefl _)
  · exact (mem_extraRoots_iff_cleaned.mp hname).1
  · -- among the cleaned names, what is not accepted is no extra root
    have hrefused : ∀ name ∈ cleanedNames raw, decide (name ≠ [] ∧
        Text.lower name ≠ Text.lower primary ∧ name ∉ (extraRoots raw primary).1) =
          decide (RefusesRoot primary name) := by
      intro name hname
      rw [decide_eq_decide, refusesRoot_iff, mem_extraRoots_iff_cleaned,
        and_iff_right hname]
    rw [List.filter_congr hrefused]
    exact warnings_extraRoots raw primary

/-- Raw names with blanks and slashes around them, with a primary root and a repetition among
them, and with one that leads out of the project. -/
def mixedNames : List (Option Text) :=
  [some " Packages/ ".toList, none, some "../shared".toList, some "\\Tools\\Build\\".toList,
    some "ASSETS/".toList, some "Packages".toList, some "packages".toList]

theorem extraRoots_mixedNames :
    extraRoots mixedNames "Assets".toList =
      (["Packages".toList, "Tools/Build".toList, "packages".toList],
        [.warning "Root name cannot contain '..': ../shared".toList]) ∧
    "Tools/Build".toList ∈ (extraRoots mixedNames "Assets".toList).1 ∧
    IsConfinedRoot "Assets".toList "Tools/Build".toList ∧
    ∀ dir : Path, (dir.resolve "Tools/Build".toList).LiesIn dir := by
  have hroots : extraRoots mixedNames "Assets".toList =
      (["Packages".toList, "Tools/Build".toList, "packages".toList],
        [.warning "Root name cannot contain '..': ../shared".toList]) := by decide +kernel
  have hmem : "Tools/Build".toList ∈ (extraRoots mixedNames "Assets".toList).1 := by
    rw [hroots]
    decide
  exact ⟨hroots, hmem, (extraRoots_confined mixedNames "Assets".toList).1 _ hmem⟩

end IgnoredPaths
