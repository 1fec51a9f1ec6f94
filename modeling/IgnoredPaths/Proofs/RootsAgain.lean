import IgnoredPaths.Proofs.Roots
import Mathlib.Algebra.Order.BigOperators.Group.List
import Mathlib.Algebra.Order.Group.Nat

/-!
# Cleaning the names of extra roots again

A name is cleaned of the blanks around it and then of the slashes around what is left, once. Blanks
that stood behind slashes are at an end of the name now, and stay there. To clean such a name again
makes it shorter, and may make it equal to another name, to the primary root or to a name that is
refused. Names without such blanks are kept as they are.

- `cleanRootName_eq_self_iff`: which cleaned names are kept.
- `extraRoots_of_kept`: a list of such names is kept, without a warning.
- `size_rootsAgain_lt`: any other list becomes smaller.
- `extraRoots_again`: how often a list is to be cleaned before nothing changes any more.
- `extraRoots_blankBehindSlash`: a list that is not kept.
-/

namespace IgnoredPaths

/-! ## One name -/

theorem length_cleanRootName_le_strip (name : Text) :
    (cleanRootName name).length ≤ (Text.strip name).length := by
  rw [cleanRootName, Text.swap, List.length_map]
  exact (Text.trim_sublist _ _).length_le

theorem length_cleanRootName_le (name : Text) : (cleanRootName name).length ≤ name.length :=
  (length_cleanRootName_le_strip name).trans (Text.trim_sublist _ _).length_le

/-- No slash of either kind is at an end of an extra root. -/
theorem ends_of_mem_extraRoots {raw : List (Option Text)} {primary name : Text}
    (h : name ∈ (extraRoots raw primary).1) {c : Char} (hc : c = '/' ∨ c = '\\') :
    name.head? ≠ some c ∧ name.getLast? ≠ some c := by
  have hconfined := isConfinedRoot_of_mem_extraRoots h
  rcases hc with rfl | rfl
  · exact ⟨hconfined.head_ne, hconfined.last_ne⟩
  · exact ⟨fun hhead => hconfined.no_backslash (List.mem_of_mem_head? hhead),
      fun hlast => hconfined.no_backslash (List.mem_of_getLast? hlast)⟩

/-- A cleaned name is kept exactly if it has no blanks around it. -/
theorem cleanRootName_eq_self_iff {raw : List (Option Text)} {primary name : Text}
    (h : name ∈ (extraRoots raw primary).1) : cleanRootName name = name ↔ Text.strip name = name := by
  constructor
  · intro hclean
    have hle := length_cleanRootName_le_strip name
    rw [hclean] at hle
    exact (Text.trim_sublist _ _).eq_of_length_le hle
  · intro hstrip
    have hslash : ∀ c, name.head? = some c ∨ name.getLast? = some c →
        (decide (c = '/') || decide (c = '\\')) = false := by
      intro c hend
      rw [← Bool.not_eq_true, Bool.or_eq_true, decide_eq_true_eq, decide_eq_true_eq]
      intro hc
      have hne := ends_of_mem_extraRoots h hc
      exact hend.elim hne.1 hne.2
    rw [cleanRootName, hstrip,
      Text.trim_eq_self (fun c hc => hslash c (.inl hc)) fun c hc => hslash c (.inr hc)]
    exact Text.swap_eq_self '/' (isConfinedRoot_of_mem_extraRoots h).no_backslash

/-! ## All names -/

/-- The extra roots that a list of names stands for. -/
def rootsAgain (primary : Text) (names : List Text) : List Text :=
  (extraRoots (names.map some) primary).1

/-- How many characters a list of names has. -/
def sizeOfNames (names : List Text) : Nat := names.flatten.length

theorem cleanedNames_map_some (names : List Text) :
    cleanedNames (names.map some) = names.map cleanRootName := by
  rw [cleanedNames, List.filterMap_map]
  exact congrFun List.filterMap_eq_map names

/-- Accepted names that cleaning keeps, each once, are kept in their order and without a warning. -/
theorem extraRoots_of_kept {primary : Text} {names : List Text} (hnodup : names.Nodup)
    (haccepts : ∀ name ∈ names, AcceptsRoot primary name)
    (hkept : ∀ name ∈ names, cleanRootName name = name) :
    extraRoots (names.map some) primary = (names, []) := by
  induction names using List.reverseRecOn with
  | nil => rfl
  | append_singleton names last ih =>
    rw [List.nodup_append] at hnodup
    have hmem : last ∈ names ++ [last] := List.mem_append_right _ List.mem_cons_self
    have hnew : last ∉ names := fun hthere => hnodup.2.2 last hthere last List.mem_cons_self rfl
    have hrest := ih hnodup.1 (fun name hname => haccepts name (List.mem_append_left _ hname))
      fun name hname => hkept name (List.mem_append_left _ hname)
    rw [List.map_append, List.map_singleton, extraRoots_concat, hrest]
    rcases addExtraRoot_cases primary (names, []) (some last) with
      ⟨-, hold⟩ | ⟨r, e, hr, -, -, hcheck, -⟩ | ⟨r, hr, -, -, hadded⟩
    · have hpassed := hold last rfl
      rw [hkept last hmem] at hpassed
      obtain ⟨hne, hprimary, -⟩ := haccepts last hmem
      rcases hpassed with hempty | hsame | ⟨-, hthere⟩
      · exact absurd hempty hne
      · exact absurd hsame hprimary
      · exact absurd hthere hnew
    · obtain rfl := Option.some.inj hr
      rw [hkept last hmem, (haccepts last hmem).2.2] at hcheck
      cases hcheck
    · obtain rfl := Option.some.inj hr
      rw [hadded, hkept last hmem]

theorem nodup_extraRoots (raw : List (Option Text)) (primary : Text) :
    (extraRoots raw primary).1.Nodup :=
  (pairwise_extraRoots raw primary).imp fun hlt heq => absurd (heq ▸ hlt) (Nat.lt_irrefl _)

/-- The extra roots are among the cleaned names, in their order. -/
theorem extraRoots_sublist (raw : List (Option Text)) (primary : Text) :
    (extraRoots raw primary).1.Sublist (cleanedNames raw) := by
  induction raw using List.reverseRecOn with
  | nil => exact .slnil
  | append_singleton raw last ih =>
    rw [extraRoots_concat, cleanedNames_concat]
    rcases addExtraRoot_cases primary (extraRoots raw primary) last with
      ⟨hsame, -⟩ | ⟨_, _, -, -, -, -, hsame⟩ | ⟨r, rfl, -, -, hadded⟩
    · rw [hsame]
      exact ih.trans (List.sublist_append_left _ _)
    · rw [hsame]
      exact ih.trans (List.sublist_append_left _ _)
    · rw [hadded]
      exact ih.append_right _

/-- Where a name has blanks around it, the names together become shorter. -/
theorem size_rootsAgain_lt {primary : Text} {names : List Text}
    (h : ∃ name ∈ names, Text.strip name ≠ name) :
    sizeOfNames (rootsAgain primary names) < sizeOfNames names := by
  obtain ⟨name, hname, hstrip⟩ := h
  have hsublist : (rootsAgain primary names).Sublist (names.map cleanRootName) :=
    cleanedNames_map_some names ▸ extraRoots_sublist (names.map some) primary
  have hshorter : (cleanRootName name).length < name.length := by
    refine (length_cleanRootName_le_strip name).trans_lt ?_
    refine (Text.trim_sublist _ _).length_le.lt_of_ne fun hlength => hstrip ?_
    exact (Text.trim_sublist _ _).eq_of_length hlength
  calc sizeOfNames (rootsAgain primary names)
      = ((rootsAgain primary names).map List.length).sum := List.length_flatten
    _ ≤ ((names.map cleanRootName).map List.length).sum :=
        (hsublist.map List.length).sum_le_sum fun _ _ => Nat.zero_le _
    _ = (names.map fun name => (cleanRootName name).length).sum := by
        rw [List.map_map]
        rfl
    _ < (names.map List.length).sum :=
        List.sum_lt_sum _ _ (fun name _ => length_cleanRootName_le name) ⟨name, hname, hshorter⟩
    _ = sizeOfNames names := List.length_flatten.symm

/-- A list of extra roots is kept exactly if there are no blanks around the names. -/
theorem extraRoots_kept_iff (raw : List (Option Text)) (primary : Text) :
    extraRoots ((extraRoots raw primary).1.map some) primary = ((extraRoots raw primary).1, []) ↔
      ∀ name ∈ (extraRoots raw primary).1, Text.strip name = name := by
  constructor
  · intro hsame
    by_contra hblank
    simp only [not_forall] at hblank
    obtain ⟨name, hname, hstrip⟩ := hblank
    have hlt := @size_rootsAgain_lt primary _ ⟨name, hname, hstrip⟩
    rw [rootsAgain, hsame] at hlt
    exact absurd hlt (Nat.lt_irrefl _)
  · intro hstrip
    exact extraRoots_of_kept (nodup_extraRoots raw primary)
      (fun name hname => (mem_extraRoots_iff_cleaned.mp hname).2)
      fun name hname => (cleanRootName_eq_self_iff hname).mpr (hstrip name hname)

/-- Whatever list of roots there is at first, cleaning it often enough leaves a list that is kept. -/
theorem exists_iterate_kept (raw : List (Option Text)) (primary : Text) :
    ∃ n ≤ sizeOfNames (extraRoots raw primary).1,
      ∀ name ∈ (rootsAgain primary)^[n] (extraRoots raw primary).1, Text.strip name = name := by
  induction hsize : sizeOfNames (extraRoots raw primary).1 using Nat.strong_induction_on
    generalizing raw with
  | _ size ih =>
    by_cases hkept : ∀ name ∈ (extraRoots raw primary).1, Text.strip name = name
    · exact ⟨0, Nat.zero_le _, hkept⟩
    · simp only [not_forall] at hkept
      obtain ⟨name, hname, hstrip⟩ := hkept
      have hlt := @size_rootsAgain_lt primary _ ⟨name, hname, hstrip⟩
      rw [hsize] at hlt
      obtain ⟨n, hn, hrest⟩ := ih _ hlt ((extraRoots raw primary).1.map some) rfl
      exact ⟨n + 1, Nat.lt_of_le_of_lt hn hlt, hrest⟩

/-- **Normalizing a list of extra roots again**, for any raw names and any primary root.

- No root begins or ends with a slash of either kind.
- The list is kept, without a warning, exactly if no root begins or ends with a blank. Its roots
  then differ when they are cleaned again.
- A list in which one does becomes shorter when it is normalized again, and after at most as many
  times as it has characters there is a list that is kept. -/
theorem extraRoots_again (raw : List (Option Text)) (primary : Text) :
    let roots := (extraRoots raw primary).1
    (∀ name ∈ roots, ∀ c, c = '/' ∨ c = '\\' → name.head? ≠ some c ∧ name.getLast? ≠ some c) ∧
    (extraRoots (roots.map some) primary = (roots, []) ↔ ∀ name ∈ roots, Text.strip name = name) ∧
    ((∀ name ∈ roots, Text.strip name = name) → (roots.map cleanRootName).Nodup) ∧
    ((∃ name ∈ roots, Text.strip name ≠ name) →
      sizeOfNames (rootsAgain primary roots) < sizeOfNames roots) ∧
    ∃ n ≤ sizeOfNames roots,
      extraRoots (((rootsAgain primary)^[n] roots).map some) primary =
        ((rootsAgain primary)^[n] roots, []) := by
  intro roots
  refine ⟨fun name hname c hc => ends_of_mem_extraRoots hname hc, extraRoots_kept_iff raw primary,
    fun hstrip => ?_, size_rootsAgain_lt, ?_⟩
  · have hsame : roots.map cleanRootName = roots := by
      refine (List.map_congr_left fun name hname => ?_).trans (List.map_id roots)
      exact (cleanRootName_eq_self_iff hname).mpr (hstrip name hname)
    rw [hsame]
    exact nodup_extraRoots raw primary
  · obtain ⟨n, hn, hkept⟩ := exists_iterate_kept raw primary
    refine ⟨n, hn, ?_⟩
    cases n with
    | zero => exact (extraRoots_kept_iff raw primary).mpr hkept
    | succ n =>
      -- after the first time, what there is are the extra roots of a list of names
      rw [Function.iterate_succ_apply'] at hkept ⊢
      exact (extraRoots_kept_iff _ primary).mpr hkept

/-- A blank behind a slash: the root begins with a blank, and becomes equal to the other root when
the list is normalized again. -/
theorem extraRoots_blankBehindSlash :
    ¬ ∀ (raw : List (Option Text)) (primary : Text),
      extraRoots ((extraRoots raw primary).1.map some) primary = ((extraRoots raw primary).1, []) ∧
      ∀ name ∈ (extraRoots raw primary).1, Text.strip name = name := by
  intro hkept
  have hfirst : (extraRoots [some "/ a".toList, some "a".toList] "Assets".toList).1 =
      [" a".toList, "a".toList] := by decide +kernel
  have hsecond : extraRoots ([" a".toList, "a".toList].map some) "Assets".toList =
      (["a".toList], []) := by decide +kernel
  have hsame := (hkept [some "/ a".toList, some "a".toList] "Assets".toList).1
  rw [hfirst, hsecond] at hsame
  revert hsame
  decide

end IgnoredPaths
