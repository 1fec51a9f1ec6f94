import IgnoredPaths.Proofs.OrderFree

/-!
# The completion as a closure

The completion looks above what was found before it, and yet nothing is left to do after it: the
directories that it adds, and the sidecars, have nothing new above them. So completed findings are
the least ones above the given ones that hold what the completion asks for, and completing again,
or any part of it in any order, changes nothing. Paths need not be normal for this; an ancestor may
end in a slash, and a sidecar is looked for behind it all the same.

- `Findings.Closed`: what the completion asks for.
- `Findings.isLeast_completed`: completed findings are the least closed ones.
- `Pass.Call.found_run_of_closed`: no operation of the completion changes closed findings.
- `completion_least_closure`: the same for the completion of a pass.
-/

namespace IgnoredPaths

namespace Findings

/-- Findings that hold the ignored ones of the directories above them, and the sidecars of the
directories above them, unless these are taken back. -/
structure Closed (k : Pass.Terms) (t : FileTree) (c : Findings) : Prop where
  dirs : ∀ a ∈ c.above, Rule.ignoresDirectory k.rules a = true → a ∈ c.2
  sidecars : ∀ a ∈ c.above, k.Keeps t a → a ++ k.suffix ∈ c.1

variable {k : Pass.Terms} {t : FileTree} {c d : Findings}

theorem le_completed (k : Pass.Terms) (t : FileTree) (c : Findings) : c ≤ c.completed k t := by
  rw [completed_eq]
  exact ⟨Set.subset_union_left, Set.subset_union_left⟩

/-- What the completion adds has nothing new above it. -/
theorem above_completed (hsuffix : '/' ∉ k.suffix) : (c.completed k t).above = c.above := by
  refine Set.Subset.antisymm ?_ (above_mono (le_completed k t c))
  rintro a ⟨x, hx, ha⟩
  exact (mem_above_or_of_completed hx ha).resolve_right fun h => hsuffix h.1

theorem closed_completed (hsuffix : '/' ∉ k.suffix) : Closed k t (c.completed k t) := by
  constructor
  · intro a ha hignored
    rw [above_completed hsuffix] at ha
    rw [completed_eq]
    exact .inr ⟨ha, hignored⟩
  · intro a ha hkeeps
    rw [above_completed hsuffix] at ha
    rw [completed_eq]
    exact .inr ⟨a, ha, hkeeps, rfl⟩

/-- Closed findings hold the completion of what they hold. -/
theorem completed_le (hle : c ≤ d) (hd : Closed k t d) : c.completed k t ≤ d := by
  rw [completed_eq]
  constructor
  · rintro x (hx | ⟨a, ha, hkeeps, rfl⟩)
    · exact hle.1 hx
    · exact hd.sidecars a (above_mono hle ha) hkeeps
  · rintro x (hx | ⟨ha, hignored⟩)
    · exact hle.2 hx
    · exact hd.dirs x (above_mono hle ha) hignored

/-- Completed findings are the least closed ones. -/
theorem isLeast_completed (hsuffix : '/' ∉ k.suffix) (t : FileTree) (c : Findings) :
    IsLeast {d | c ≤ d ∧ Closed k t d} (c.completed k t) :=
  ⟨⟨le_completed k t c, closed_completed hsuffix⟩, fun _ hd => completed_le hd.1 hd.2⟩

end Findings

namespace Pass

/-- Whether an operation belongs to the completion. -/
def Call.Completes : Call → Prop
  | .ensureAncestors | .addAncestorSidecars | .complete => True
  | .addFile _ | .addDirectory _ | .addIndexEntry _ | .addBelow _ | .supplement _ _ => False

variable {k : Terms} {t : FileTree} {p : Pass}

/-- What a pass holds already, it does not find anew. -/
theorem Joins.found_eq {p q : Pass} {c : Findings} (h : Joins p q c) (hc : c ≤ p.found) :
    q.found = p.found := by
  rw [h.found, sup_eq_left.mpr hc]

/-- No operation of the completion changes closed findings. -/
theorem Call.found_run_of_closed (hk : p.terms = k) (h : p.Sound) (hclosed : p.found.Closed k t)
    {call : Call} (hcall : call.Completes) : (call.run t p).found = p.found := by
  subst hk
  cases call with
  | ensureAncestors =>
    refine (ensureAncestors_joins h).found_eq ⟨Set.empty_subset _, ?_⟩
    rintro a ⟨ha, hignored⟩
    exact hclosed.dirs a ha hignored
  | addAncestorSidecars =>
    refine (addAncestorSidecars_joins t h).found_eq ⟨?_, Set.empty_subset _⟩
    rintro _ ⟨a, ha, hkeeps, rfl⟩
    exact hclosed.sidecars a ha hkeeps
  | complete =>
    show (p.complete t).found = p.found
    rw [(complete_spec t h).2.2]
    exact le_antisymm (Findings.completed_le le_rfl hclosed) (Findings.le_completed _ t _)
  | addFile | addDirectory | addIndexEntry | addBelow | supplement => exact hcall.elim

/-- Nor do any number of them. -/
theorem found_foldl_of_closed (hk : p.terms = k) (h : p.Sound) (hclosed : p.found.Closed k t)
    {calls : List Call} (hcalls : ∀ call ∈ calls, call.Completes) :
    (calls.foldl (Call.run t) p).found = p.found := by
  induction calls generalizing p with
  | nil => rfl
  | cons call rest ih =>
    have hcall := Call.found_run_of_closed hk h hclosed (hcalls call List.mem_cons_self)
    obtain ⟨hterms, hsound⟩ := Use.run_steady (t := t) hk h (.operate call)
    rw [List.foldl_cons, ← hcall]
    rw [← hcall] at hclosed
    exact ih hterms hsound hclosed fun c hc => hcalls c (List.mem_cons_of_mem call hc)

end Pass

/-- **The completion is the least closure.** Take any file tree, any rules, an ending without
slashes and a pass with any files and directories as the ignored ones so far, whatever it was used
for before. The completion adds the directories above these that are ignored, and the sidecars of
the directories above these that no negation takes back. The outcome is the least one above the
given findings that holds all such directories and sidecars above it; and the completion or either
part of it changes nothing when it is made again, in any order and however often. -/
theorem completion_least_closure (t : FileTree) (lines : List Text) (root : Path) (suffix : Text)
    (files dirs : TextSet) (uses : List Pass.Use) (hsuffix : '/' ∉ suffix) :
    let p := Pass.startFrom t lines root suffix files dirs uses
    let q := p.complete t
    (∀ d, d ∈ q.dirs ↔ d ∈ dirs ∨ ∃ x, (x ∈ files ∨ x ∈ dirs) ∧ d ∈ ProjectPath.ancestors x ∧
      (p.isDirectoryIgnored d).1 = true) ∧
    (∀ f, f ∈ q.files ↔ f ∈ files ∨ ∃ x a, (x ∈ files ∨ x ∈ dirs) ∧ a ∈ ProjectPath.ancestors x ∧
      f = a ++ suffix ∧ t.isFile (root.resolve f) = true ∧ p.matcher.verdict f ≠ .negated) ∧
    IsLeast {c | p.found ≤ c ∧ c.Closed p.terms t} q.found ∧
    ∀ calls : List Pass.Call, (∀ call ∈ calls, call.Completes) →
      (calls.foldl (Pass.Call.run t) q).files = q.files ∧
        (calls.foldl (Pass.Call.run t) q).dirs = q.dirs := by
  intro p q
  obtain ⟨hterms, hsound⟩ := Pass.startFrom_steady t lines root suffix files dirs uses
  obtain ⟨hterms', hsound', hfound⟩ := Pass.complete_spec t hsound
  have hfree : '/' ∉ p.terms.suffix := by
    rw [hterms]
    exact hsuffix
  have hleast : IsLeast {c | p.found ≤ c ∧ c.Closed p.terms t} q.found := by
    rw [hfound]
    exact Findings.isLeast_completed hfree t p.found
  refine ⟨fun d => ?_, fun f => ?_, hleast, fun calls hcalls => ?_⟩
  · show d ∈ q.found.2 ↔ _
    rw [hfound, Findings.completed_eq, (Pass.isDirectoryIgnored_spec hsound d).1]
    refine or_congr_right ?_
    constructor
    · rintro ⟨⟨x, hx, hd⟩, hignored⟩
      exact ⟨x, hx, hd, hignored⟩
    · rintro ⟨x, hx, hd, hignored⟩
      exact ⟨⟨x, hx, hd⟩, hignored⟩
  · have hroot : p.terms.root = root := congrArg Pass.Terms.root hterms
    have hending : p.terms.suffix = suffix := congrArg Pass.Terms.suffix hterms
    have hkept : ∀ a, p.terms.Keeps t a ∧ f = a ++ p.terms.suffix ↔ f = a ++ suffix ∧
        t.isFile (root.resolve f) = true ∧ p.matcher.verdict f ≠ .negated := by
      intro a
      rw [Pass.Terms.Keeps, Pass.Terms.IsFile, hroot, hending, and_comm]
      refine and_congr_right ?_
      rintro rfl
      exact Iff.rfl
    show f ∈ q.found.1 ↔ _
    rw [hfound, Findings.completed_eq]
    refine or_congr_right ?_
    constructor
    · rintro ⟨a, ⟨x, hx, ha⟩, hkeeps⟩
      exact ⟨x, a, hx, ha, (hkept a).mp hkeeps⟩
    · rintro ⟨x, a, hx, ha, hf⟩
      exact ⟨a, ⟨x, hx, ha⟩, (hkept a).mpr hf⟩
  · exact Pass.sets_congr (Pass.found_foldl_of_closed hterms' hsound' hleast.1.2 hcalls)

/-- A log file in a directory with a sidecar. -/
def sidecarLogs : FileTree :=
  (scatteredLogs.insert [] "Assets.meta".toList (.file .empty 0))

/-- The completion of a path that is not normal, and of what it has come to. -/
theorem sidecarLogs_completed :
    let t := sidecarLogs
    let p := Pass.startFrom t ["Assets/".toList] (.ofText ['/']) defaultSidecarSuffix
      (.ofList ["/Assets//x.log/".toList]) ∅ [.askPass "Assets".toList]
    '/' ∉ defaultSidecarSuffix ∧
      ([Pass.Call.addAncestorSidecars, .complete, .ensureAncestors].foldl (Pass.Call.run t)
        (p.complete t)).result =
          ⟨["/Assets//x.log/".toList, "Assets.meta".toList],
            ["Assets".toList, "Assets/".toList]⟩ := by
  intro t p
  have hsuffix : '/' ∉ defaultSidecarSuffix := by decide
  obtain ⟨-, -, -, hcalls⟩ := completion_least_closure t ["Assets/".toList] (.ofText ['/'])
    defaultSidecarSuffix (.ofList ["/Assets//x.log/".toList]) ∅ [.askPass "Assets".toList] hsuffix
  obtain ⟨hfiles, hdirs⟩ := hcalls [.addAncestorSidecars, .complete, .ensureAncestors]
    (by simp [Pass.Call.Completes])
  refine ⟨hsuffix, ?_⟩
  rw [Pass.result, hfiles, hdirs]
  decide +kernel

end IgnoredPaths
