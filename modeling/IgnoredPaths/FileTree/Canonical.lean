import IgnoredPaths.FileTree.Resolve

/-!
# Canonical paths

The canonical path of an entry has no `..` segment and leads through no link. A path whose end
is missing has one too: what is missing is taken as it is written.

- `FileTree.real`: follows steps through links; links that are being followed must not come
  up again.
- `FileTree.canonical`: the canonical path, unless links lead round in a circle.
-/

namespace IgnoredPaths

/-- Why a path has no canonical form. -/
inductive Unresolvable where
  /-- Its links lead back to themselves. -/
  | circle (p : Path)
  /-- It holds a barred character. -/
  | barredCharacter
  deriving DecidableEq

namespace Step

/-- Takes steps without regard to what is there. -/
def blindly : Location → List Step → Location
  | l, [] => l
  | l, .here :: rest => blindly l rest
  | l, .up :: rest => blindly l.tail rest
  | l, .name n :: rest => blindly (n :: l) rest

end Step

/-- The absolute path of a location. -/
def Location.toPath (l : Location) : Path := (Path.ofText ['/']).extend l.reverse

namespace FileTree

/-- Follows steps through links. `busy` are the links that are being followed and `enter`
follows a further one; steps that meet a busy link end there, with the rest taken blindly. -/
def realFrom (t : FileTree)
    (enter : List Location → Location → List Step → Except Location Location)
    (busy : List Location) : Location → List Step → Except Location Location
  | l, [] => .ok l
  | l, .here :: rest => realFrom t enter busy l rest
  | l, .up :: rest => realFrom t enter busy l.tail rest
  | l, .name n :: rest =>
    match t.get? (n :: l) with
    | some (.link target) =>
      if n :: l ∈ busy then .error (Step.blindly (n :: l) rest)
      else
        match enter ((n :: l) :: busy) (linkBase target l) (Step.ofTarget target) with
        | .ok l => realFrom t enter busy l rest
        | .error l => .error (Step.blindly l rest)
    | _ => realFrom t enter busy (n :: l) rest

/-- Follows steps through links nested at most so deep. -/
def real (t : FileTree) : Nat → List Location → Location → List Step → Except Location Location
  | 0, _, l, steps => .error (Step.blindly l steps)
  | n + 1, busy, l, steps => t.realFrom (t.real n) busy l steps

/-- The canonical form of a path that starts at the root directory. No more links can be
followed at a time than there are entries. -/
def canonical (t : FileTree) (p : Path) : Except Unresolvable Path :=
  if p.holdsBarred then .error .barredCharacter
  else
    match t.real (t.entries.length + 1) [] [] (Step.ofPath p) with
    | .ok l => .ok (Location.toPath l)
    | .error l =>
      let q := Location.toPath l
      match t.stat q with
      | .error .tooManyLinks => .error (.circle q)
      | _ => .ok q

end FileTree

end IgnoredPaths
