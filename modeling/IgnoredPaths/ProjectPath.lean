import IgnoredPaths.Path

/-!
# Paths inside a project

Rules and results speak of paths as texts relative to the project root, with slashes between
the segments. Such a text is not read as a path before it meets the file tree, because rules
see it as it is, doubled slashes included.

- `ProjectPath.canonical`: the form in which rules see a path.
- `ProjectPath.relative`: the text of a path inside the project, seen from its root.
- `ProjectPath.hasExtension`: whether the name looks like that of a file.
- `ProjectPath.ancestors`: the directories above a path, the nearest first.
- `ProjectPath.isSpecialName`: names that an index leaves out.
-/

namespace IgnoredPaths

namespace ProjectPath

/-- The text with slashes only, and none in front. -/
def canonical (path : Text) : Text := Text.trimLeft (· = '/') (Text.swap '\\' '/' path)

/-- The canonical text without slashes at the end, as directories and index entries are known. -/
def directoryForm (path : Text) : Text := Text.trimRight (· = '/') (canonical path)

/-- What follows the root in the text of a path inside it; the text of any other path stays. -/
def relative (root path : Text) : Text :=
  let path := Text.swap '\\' '/' path
  let base := Text.trimRight (· = '/') (Text.swap '\\' '/' root) ++ ['/']
  if Text.startsWith path base then path.drop base.length else path

/-- Whether the last segment has a dot that is not its last character. -/
def hasExtension (path : Text) : Bool :=
  let name := Text.afterLast '/' (Text.trimRight (· = '/') path)
  name.contains '.' && name.getLast? ≠ some '.'

/-- The directories above a path, the nearest first and without the project root. -/
def ancestors (path : Text) : List Text :=
  ((Text.beforeEach '/' (Text.trim (· = '/') path)).filter fun a => a ≠ []).reverse

/-- Whether an index leaves a name out: it begins with a dot or holds a tilde. -/
def isSpecialName (name : Text) : Bool := Text.startsWith name ['.'] || name.contains '~'

end ProjectPath

end IgnoredPaths
