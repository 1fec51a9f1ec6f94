import IgnoredPaths.Glob.Basic

/-!
# What a glob describes

The set of paths that a glob describes, said without an algorithm: a path is described if it
can be cut into parts, one for each piece, such that every piece covers its part.

- `Piece.Covers`: the texts that a piece stands for.
- `Glob.Describes`: the paths that a glob stands for.
-/

namespace IgnoredPaths

/-- The texts that a piece stands for. -/
def Piece.Covers : Piece → Text → Prop
  | .literal c, s => s = [c]
  | .one, s => ∃ c, c ≠ '/' ∧ s = [c]
  | .segment, s => '/' ∉ s
  | .anything, s => '\n' ∉ s
  | .directories, s => s = [] ∨ ∃ w, '\n' ∉ w ∧ s = w ++ ['/']

/-- The paths that a glob stands for. -/
def Glob.Describes : Glob → Text → Prop
  | [], path => path = []
  | piece :: glob, path =>
    ∃ part rest, path = part ++ rest ∧ piece.Covers part ∧ Describes glob rest

end IgnoredPaths
