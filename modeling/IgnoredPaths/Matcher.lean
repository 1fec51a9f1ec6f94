import IgnoredPaths.Rule
import IgnoredPaths.ProjectPath

/-!
# Deciding paths

The last rule that describes a path decides it. A matcher answers questions about paths and
keeps the answers to `isIgnored`; asking again, under whatever spelling, costs nothing.

- `Rule.deciding?`, `Rule.verdict`, `Rule.ignores`: the decision itself.
- `Matcher.isIgnored`: the decision with answers kept in `Matcher.known`.
-/

namespace IgnoredPaths

/-- What rules say about a path. -/
inductive Verdict where
  /-- No rule describes it. -/
  | unmatched
  /-- The last rule that describes it is no negation. -/
  | ignored
  /-- The last rule that describes it is a negation. -/
  | negated
  deriving DecidableEq, Repr

namespace Rule

/-- The last rule that describes a path in its canonical form. -/
def deciding? (rules : List Rule) (path : Text) : Option Rule :=
  rules.reverse.find? (·.accepts (ProjectPath.canonical path))

/-- What the deciding rule says. -/
def verdict (rules : List Rule) (path : Text) : Verdict :=
  match deciding? rules path with
  | none => .unmatched
  | some rule => if rule.negation then .negated else .ignored

/-- Whether rules ignore a path. -/
def ignores (rules : List Rule) (path : Text) : Bool := verdict rules path = .ignored

end Rule

/-- Rules with the answers given so far, keyed by canonical path. -/
structure Matcher where
  rules : List Rule
  known : List (Text × Bool)

namespace Matcher

/-- A matcher over the rules of some lines. -/
def ofLines (lines : List Text) : Matcher := ⟨Rule.ofLines lines, []⟩

/-- Whether a path is ignored; the answer is kept. -/
def isIgnored (m : Matcher) (path : Text) : Bool × Matcher :=
  let key := ProjectPath.canonical path
  match m.known.lookup key with
  | some answer => (answer, m)
  | none =>
    let answer := Rule.ignores m.rules key
    (answer, { m with known := (key, answer) :: m.known })

/-- How many answers are kept. -/
def knownCount (m : Matcher) : Nat := m.known.length

/-- The matcher with no answer kept. -/
def forget (m : Matcher) : Matcher := { m with known := [] }

/-- The rule that decides a path. -/
def deciding? (m : Matcher) (path : Text) : Option Rule := Rule.deciding? m.rules path

/-- What the rules say about a path. -/
def verdict (m : Matcher) (path : Text) : Verdict := Rule.verdict m.rules path

end Matcher

end IgnoredPaths
