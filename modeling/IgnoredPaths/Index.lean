import IgnoredPaths.FileTree.Walk
import IgnoredPaths.ProjectPath

/-!
# The index of the primary root

An index reports the paths below the primary root that it knows of. It leaves out what has a
special name, with everything below it, and sidecar files.

- `projectRelative`: the text of a path as the project knows it.
- `scanPrimaryRoot`: the index that a walk over the primary root gives.
-/

namespace IgnoredPaths

/-- The text of a path as seen from the project root. -/
def projectRelative (root path : Path) : Text := ProjectPath.relative root.toText path.toText

/-- Whether an entry found by a walk is reported by an index. -/
def isIndexed (suffix : Text) (found : Path × Bool) : Bool :=
  found.2 || !(ProjectPath.isSpecialName found.1.name || Text.endsWith found.1.name suffix)

/-- The primary root and what an index reports below it, in ascending order. -/
def scanPrimaryRoot (t : FileTree) (root : Path) (primary suffix : Text) : List Text :=
  let top := root.resolve primary
  if t.isDirectory top then
    let found := (t.walkSkipping ProjectPath.isSpecialName top).filter (isIndexed suffix)
    (projectRelative root top :: found.map fun p => projectRelative root p.1).mergeSort Text.le
  else []

end IgnoredPaths
