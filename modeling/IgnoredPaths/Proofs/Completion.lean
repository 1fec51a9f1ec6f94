import IgnoredPaths.Proofs.Pass

/-!
# Completing a pass

The completion adds the ignored directories above what was found, and then the sidecars of all
directories above what was found by then.

- `ProjectPath.mem_ancestors`: the directories above a path, and
  `ProjectPath.mem_ancestors_or_of_append`: what is above a directory above a path, or above its
  sidecar.
- `Findings.completed`: the completed findings; `Findings.completed_eq` says them with the
  directories above the findings alone, as added directories have nothing new above them.
- `Findings.mem_above_or_of_completed`: what is above completed findings.
- `Pass.complete_spec`: the completion of a pass completes what it found.
-/

namespace IgnoredPaths

namespace ProjectPath

/-- The directories above a path end before its slashes, those at its ends apart. -/
theorem mem_ancestors {path a : Text} :
    a ∈ ancestors path ↔ a ≠ [] ∧ ∃ r, Text.trim (· = '/') path = a ++ '/' :: r := by
  rw [ancestors, List.mem_reverse, List.mem_filter, Text.mem_beforeEach, and_comm,
    decide_eq_true_iff]

/-- A directory above a path begins like the trimmed path, so with no slash. -/
theorem head?_ne_of_mem_ancestors {path a : Text} (h : a ∈ ancestors path) {c : Char}
    (hc : a.head? = some c) : c ≠ '/' := by
  obtain ⟨-, r, hr⟩ := mem_ancestors.mp h
  have hhead : (Text.trim (· = '/') path).head? = some c := by
    rw [hr, List.head?_append, hc]
    rfl
  obtain ⟨back, hback, -⟩ :=
    Text.exists_trimRight_append (· = '/') (Text.trimLeft (· = '/') path)
  have hleft : (Text.trimLeft (· = '/') path).head? = some c := by
    rw [hback, List.head?_append, ← Text.trim, hhead]
    rfl
  exact of_decide_eq_false (Text.head?_trimLeft hleft)

/-- What is above a directory above a path is above the path, and it is the same with an ending
behind the directory, unless that ending leads through slashes to what is above. -/
theorem mem_ancestors_or_of_append {path a b ending : Text} (ha : a ∈ ancestors path)
    (hb : b ∈ ancestors (a ++ ending)) :
    b ∈ ancestors path ∨ '/' ∈ ending ∧ a <+: b ∧ a ≠ b := by
  obtain ⟨hane, r, hr⟩ := mem_ancestors.mp ha
  obtain ⟨hbne, s, hs⟩ := mem_ancestors.mp hb
  have hfront : Text.trimLeft (· = '/') (a ++ ending) = a ++ ending := by
    refine Text.trimLeft_eq_self fun c hc => decide_eq_false ?_
    rw [List.head?_append_of_ne_nil a hane] at hc
    exact head?_ne_of_mem_ancestors ha hc
  obtain ⟨back, hback, -⟩ := Text.exists_trimRight_append (· = '/') (a ++ ending)
  rw [Text.trim, hfront] at hs
  have hall : a ++ ending = b ++ '/' :: (s ++ back) := by
    rw [hback, hs]
    simp
  by_cases hab : a = b
  · exact .inl (hab ▸ ha)
  · rcases List.append_eq_append_iff.mp hall with ⟨c, rfl, hrest⟩ | ⟨c, rfl, hrest⟩
    · -- the slash behind `b` stands in the ending
      exact .inr ⟨hrest ▸ List.mem_append_right c List.mem_cons_self, List.prefix_append a c, hab⟩
    · -- the slash behind `b` stands in the directory
      cases c with
      | nil => exact absurd (List.append_nil b) hab
      | cons d between =>
        obtain ⟨rfl, -⟩ := List.cons.inj hrest
        refine .inl (mem_ancestors.mpr ⟨hbne, between ++ '/' :: r, ?_⟩)
        rw [hr, List.append_assoc, List.cons_append]

/-- What is above a directory above a path is above the path. -/
theorem ancestors_trans {path a b : Text} (hb : b ∈ ancestors path) (ha : a ∈ ancestors b) :
    a ∈ ancestors path := by
  rw [← List.append_nil b] at ha
  exact (mem_ancestors_or_of_append hb ha).resolve_right fun h => List.not_mem_nil h.1

end ProjectPath

/-- The directories above what was found. -/
def Findings.above (c : Findings) : Set Text :=
  {a | ∃ x, (x ∈ c.1 ∨ x ∈ c.2) ∧ a ∈ ProjectPath.ancestors x}

/-- The directories above more findings are more. -/
theorem Findings.above_mono {c d : Findings} (h : c ≤ d) : c.above ⊆ d.above := by
  rintro a ⟨x, hx, ha⟩
  exact ⟨x, hx.imp (fun hx => h.1 hx) fun hx => h.2 hx, ha⟩

/-- Findings with the ignored directories above them and then the sidecars of all directories
above them. -/
def Findings.completed (k : Pass.Terms) (t : FileTree) (c : Findings) : Findings :=
  let c := c ⊔ (∅, {a | a ∈ c.above ∧ Rule.ignoresDirectory k.rules a = true})
  c ⊔ ({x | ∃ a ∈ c.above, k.Keeps t a ∧ x = a ++ k.suffix}, ∅)

/-- Directories above findings have nothing new above them. -/
theorem Findings.above_sup_above (c : Findings) (P : Text → Prop) :
    (c ⊔ ((∅, {a | a ∈ c.above ∧ P a}) : Findings)).above = c.above := by
  refine Set.ext fun a => ⟨?_, ?_⟩
  · rintro ⟨x, (hx | hx) | (hx | ⟨⟨y, hy, hxy⟩, -⟩), ha⟩
    · exact ⟨x, .inl hx, ha⟩
    · exact absurd hx (Set.notMem_empty x)
    · exact ⟨x, .inr hx, ha⟩
    · exact ⟨y, hy, ProjectPath.ancestors_trans hxy ha⟩
  · rintro ⟨x, hx | hx, ha⟩
    · exact ⟨x, .inl (.inl hx), ha⟩
    · exact ⟨x, .inr (.inl hx), ha⟩

/-- The completed findings, said with the directories above the findings alone. -/
theorem Findings.completed_eq (k : Pass.Terms) (t : FileTree) (c : Findings) :
    c.completed k t = (c.1 ∪ {x | ∃ a ∈ c.above, k.Keeps t a ∧ x = a ++ k.suffix},
      c.2 ∪ {a | a ∈ c.above ∧ Rule.ignoresDirectory k.rules a = true}) := by
  simp only [completed, above_sup_above]
  refine Findings.ext (fun x => ?_) (fun x => ?_)
  · simp
  · simp

/-- What is above completed findings is above the findings, but for what is above a sidecar whose
ending holds slashes. -/
theorem Findings.mem_above_or_of_completed {k : Pass.Terms} {t : FileTree} {c : Findings}
    {x dir : Text} (hx : x ∈ (c.completed k t).1 ∨ x ∈ (c.completed k t).2)
    (hdir : dir ∈ ProjectPath.ancestors x) :
    dir ∈ c.above ∨ '/' ∈ k.suffix ∧ ∃ a, a <+: dir ∧ a ≠ dir ∧ x = a ++ k.suffix := by
  rw [completed_eq] at hx
  rcases hx with (hx | ⟨a, ⟨y, hy, ha⟩, -, rfl⟩) | (hx | ⟨⟨y, hy, ha⟩, -⟩)
  · exact .inl ⟨x, .inl hx, hdir⟩
  · rcases ProjectPath.mem_ancestors_or_of_append ha hdir with h | ⟨hslash, hstart, hne⟩
    · exact .inl ⟨y, hy, h⟩
    · exact .inr ⟨hslash, a, hstart, hne, rfl⟩
  · exact .inl ⟨x, .inr hx, hdir⟩
  · exact .inl ⟨y, hy, ProjectPath.ancestors_trans ha hdir⟩

namespace Pass

variable {p : Pass} (t : FileTree)

theorem mem_allAncestors {p : Pass} {a : Text} : a ∈ p.allAncestors ↔ a ∈ p.found.above := by
  rw [allAncestors, List.mem_flatMap]
  simp only [TextSet.mem_toList, collected, TextSet.mem_union]
  exact Iff.rfl

/-- The ignored ones of some directories are found without anything being joined. -/
theorem ignoredDirs_spec (k : Terms) : ∀ (l : List Text) {p : Pass}, p.terms = k → p.Sound →
    (∀ a, a ∈ (ignoredDirs l p).1 ↔ a ∈ l ∧ Rule.ignoresDirectory k.rules a = true) ∧
      Joins p (ignoredDirs l p).2 ⊥
  | [], p, _, h => ⟨fun a => by simp [ignoredDirs], Joins.refl h⟩
  | dir :: rest, p, hk, h => by
    obtain ⟨hanswer, hj⟩ := isDirectoryIgnored_spec h dir
    obtain ⟨answer, q, hq⟩ : ∃ answer q, p.isDirectoryIgnored dir = (answer, q) := ⟨_, _, rfl⟩
    rw [hq] at hanswer hj
    rw [hk] at hanswer
    obtain ⟨ih, ihj⟩ := ignoredDirs_spec k rest (hj.terms.trans hk) hj.sound
    have hall := hj.trans_bot ihj
    rw [ignoredDirs, hq]
    cases answer with
    | true =>
      refine ⟨fun a => ?_, hall⟩
      rw [List.mem_cons, List.mem_cons, ih]
      constructor
      · rintro (rfl | ⟨ha, hig⟩)
        · exact ⟨.inl rfl, hanswer.symm⟩
        · exact ⟨.inr ha, hig⟩
      · rintro ⟨rfl | ha, hig⟩
        · exact .inl rfl
        · exact .inr ⟨ha, hig⟩
    | false =>
      refine ⟨fun a => ?_, hall⟩
      show a ∈ (ignoredDirs rest q).1 ↔ _
      rw [ih, List.mem_cons]
      refine and_congr_left fun hig => (or_iff_right ?_).symm
      rintro rfl
      exact Bool.false_ne_true (hanswer.trans hig)

theorem ensureAncestors_joins (h : p.Sound) :
    Joins p p.ensureAncestors
      (∅, {a | a ∈ p.found.above ∧ Rule.ignoresDirectory p.terms.rules a = true}) := by
  obtain ⟨hmem, hj⟩ := ignoredDirs_spec p.terms p.allAncestors rfl h
  have hdirs : (ignoredDirs p.allAncestors p).2.found = p.found := by
    rw [hj.found, sup_bot_eq]
  refine ⟨hj.terms, ⟨hj.sound.matcher, hj.sound.right⟩,
    Findings.ext (fun x => ?_) (fun x => ?_)⟩
  · show x ∈ (ignoredDirs p.allAncestors p).2.found.1 ↔ _
    rw [hdirs]
    exact (or_iff_left (Set.notMem_empty x)).symm
  · refine TextSet.mem_union.trans (or_congr ?_ ?_)
    · rw [← hdirs]
      exact Iff.rfl
    · rw [TextSet.mem_ofList, hmem, mem_allAncestors]
      exact Iff.rfl

theorem addAncestorSidecars_joins (h : p.Sound) :
    Joins p (p.addAncestorSidecars t)
      ({x | ∃ a ∈ p.found.above, p.terms.Keeps t a ∧ x = a ++ p.terms.suffix}, ∅) := by
  refine ⟨rfl, ⟨h.matcher, h.right⟩, Findings.ext (fun x => ?_) (fun x => ?_)⟩
  · refine TextSet.mem_union.trans (or_congr_right ?_)
    rw [TextSet.mem_ofList, List.mem_map]
    refine exists_congr fun a => ?_
    rw [List.mem_filter, keepsSidecar_iff, mem_allAncestors, and_assoc]
    exact and_congr_right fun _ => and_congr_right fun _ => eq_comm
  · exact (or_iff_left (Set.notMem_empty x)).symm

theorem complete_spec (h : p.Sound) :
    (p.complete t).terms = p.terms ∧ (p.complete t).Sound ∧
      (p.complete t).found = p.found.completed p.terms t := by
  have hdirs := ensureAncestors_joins h
  have hfiles := addAncestorSidecars_joins t hdirs.sound
  rw [hdirs.terms, hdirs.found] at hfiles
  refine ⟨hfiles.terms.trans hdirs.terms, hfiles.sound, ?_⟩
  rw [complete, hfiles.found, hdirs.found]
  rfl

/-- What a pass collected is what it found, in ascending order. -/
theorem result_spec {p : Pass} {c : Findings} (h : p.found = c) :
    (p.result.dirs.Pairwise (· < ·) ∧ ∀ d, d ∈ p.result.dirs ↔ d ∈ c.2) ∧
      (p.result.files.Pairwise (· < ·) ∧ ∀ f, f ∈ p.result.files ↔ f ∈ c.1) := by
  subst h
  exact ⟨⟨p.dirs.ascending, fun _ => Iff.rfl⟩, ⟨p.files.ascending, fun _ => Iff.rfl⟩⟩

end Pass

end IgnoredPaths
