import IgnoredPaths.Text.Surrogate

/-!
# Paths

A path names a place by the segments that lead to it, either from the root directory or from
a directory given elsewhere. Empty and `.` segments mean nothing and are dropped when a path
is read; `..` stays, since what it leads to depends on symbolic links. A path may begin with
exactly two slashes, which is kept apart from one slash in its text but leads to the same root.

- `isBarred`: the characters that no name can hold.
- `Path.ofText`, `Path.toText`: reading and writing.
- `Path.join`: a path seen from another one; an absolute path stays as it is.
- `Path.extend`, `Path.parent`, `Path.withName`: longer, shorter and neighbouring paths.
-/

namespace IgnoredPaths

/-- The directory that the text names by `..`. -/
def upSegment : Text := ['.', '.']

/-- The directory that the text names by `.`. -/
def hereSegment : Text := ['.']

/-- A segment is a piece between slashes that says something. -/
def IsSegment (s : Text) : Prop := s ≠ [] ∧ s ≠ hereSegment ∧ '/' ∉ s

instance (s : Text) : Decidable (IsSegment s) := inferInstanceAs (Decidable (_ ∧ _ ∧ _))

/-- Whether a character is barred, so that no name can hold it. The NUL character ends a path, and
surrogates have no code, but for those that are bytes. -/
def isBarred (c : Char) : Bool := c = '\x00' || isStandIn c && !isByte c

/-- Whether a text holds a barred character. -/
def Text.holdsBarred (s : Text) : Bool := s.any isBarred

/-- Where a path starts. -/
inductive Anchor where
  /-- At a directory that the path does not name. -/
  | relative
  /-- At the root directory. -/
  | root
  /-- At the root directory, written with two slashes. -/
  | doubleRoot
  deriving DecidableEq, Repr

/-- A path. -/
structure Path where
  anchor : Anchor
  segments : List Text
  meaningful : ∀ s ∈ segments, IsSegment s
  deriving DecidableEq

namespace Path

/-- The anchor that a text begins with. -/
def anchorOf (s : Text) : Anchor :=
  match (s.takeWhile (· = '/')).length with
  | 0 => .relative
  | 2 => .doubleRoot
  | _ => .root

/-- The segments of a text. -/
def segmentsOf (s : Text) : List Text :=
  (Text.split '/' s).filter fun piece => piece ≠ [] ∧ piece ≠ hereSegment

theorem isSegment_of_mem_segmentsOf {s piece : Text} (h : piece ∈ segmentsOf s) :
    IsSegment piece := by
  obtain ⟨hsplit, hne⟩ := List.mem_filter.mp h
  have := of_decide_eq_true hne
  exact ⟨this.1, this.2, Text.not_mem_of_mem_split hsplit⟩

/-- The path that a text names. -/
def ofText (s : Text) : Path :=
  ⟨anchorOf s, segmentsOf s, fun _ => isSegment_of_mem_segmentsOf⟩

/-- The text of a path. -/
def toText (p : Path) : Text :=
  let body := Text.joinWith '/' p.segments
  match p.anchor with
  | .relative => if p.segments = [] then hereSegment else body
  | .root => '/' :: body
  | .doubleRoot => '/' :: '/' :: body

/-- Whether a path starts at the root directory. -/
def isAbsolute (p : Path) : Bool := p.anchor ≠ .relative

/-- The path `q` as seen from the directory `p`. -/
def join (p q : Path) : Path :=
  if q.isAbsolute then q
  else
    ⟨p.anchor, p.segments ++ q.segments, fun s hs =>
      (List.mem_append.mp hs).elim (p.meaningful s) (q.meaningful s)⟩

/-- The path that a text names, seen from the directory `p`. -/
def resolve (p : Path) (s : Text) : Path := p.join (ofText s)

/-- The path that leads on from `p` through some names; names that are no segments lead nowhere
and are left out. -/
def extend (p : Path) (names : List Text) : Path :=
  ⟨p.anchor, p.segments ++ names.filter fun n => IsSegment n, fun s hs =>
    (List.mem_append.mp hs).elim (p.meaningful s) fun hs =>
      of_decide_eq_true (List.mem_filter.mp hs).2⟩

/-- The path without its last segment; a path without segments is its own parent. -/
def parent (p : Path) : Path :=
  ⟨p.anchor, p.segments.dropLast, fun s hs => p.meaningful s (List.dropLast_subset _ hs)⟩

/-- The last segment, empty if there is none. -/
def name (p : Path) : Text := p.segments.getLast?.getD []

/-- Whether a path holds a barred character. -/
def holdsBarred (p : Path) : Bool := p.segments.any Text.holdsBarred

/-- The path with another last segment. -/
def withName (p : Path) (name : Text) : Path := p.parent.extend [name]

end Path

end IgnoredPaths
