import IgnoredPaths.Pass
import IgnoredPaths.Roots
import IgnoredPaths.Settings

/-!
# Collecting

A collection is the result of a whole pass: over what the index reports below the primary
root, over the extra roots, and over what the index leaves out. Without rules nothing is
collected, and the index is not even asked.

- `startPass`: a pass with the reported entries classified.
- `finishPass`: the rest of the pass, with the warnings about extra roots.
- `collectListing`: the whole pass over a given listing.
- `collect`: the whole pass over the listing of the default index.
-/

namespace IgnoredPaths

/-- A pass with those reported entries classified that lie below the primary root. -/
def startPass (t : FileTree) (settings : Settings) (m : Matcher) (listing : List Text) : Pass :=
  let below := (listing.map ProjectPath.directoryForm).filter fun path =>
    Text.startsWith path (settings.primaryRoot ++ ['/'])
  below.foldl (fun p path => p.addIndexEntry t path)
    (Pass.new m settings.projectRoot settings.sidecarSuffix)

/-- A pass after everything below an extra root is classified, if it is a directory. -/
def addExtraRootEntries (t : FileTree) (root : Path) (p : Pass) (name : Text) : Pass :=
  let dir := root.resolve name
  if t.isDirectory dir then p.addBelow t dir else p

/-- The extra roots of a project, with the warnings about those that are refused. -/
def Settings.acceptedExtraRoots (settings : Settings) : List Text × List Message :=
  IgnoredPaths.extraRoots (settings.extraRoots.map some) settings.primaryRoot

/-- A pass after the extra roots, what the index left out, and the completion. -/
def finishPass (t : FileTree) (settings : Settings) (listing : List Text) (p : Pass) : Pass :=
  let p := settings.acceptedExtraRoots.1.foldl (addExtraRootEntries t settings.projectRoot) p
  let p := p.supplement t settings.primaryRootPath (listing.map ProjectPath.directoryForm)
  p.complete t

/-- The whole pass over a listing of the primary root. -/
def collectListing (t : FileTree) (settings : Settings) (m : Matcher) (listing : List Text) :
    Pass :=
  finishPass t settings listing (startPass t settings m listing)

/-- The listing that the default index gives. -/
def defaultListing (t : FileTree) (settings : Settings) : List Text :=
  scanPrimaryRoot t settings.projectRoot settings.primaryRoot settings.sidecarSuffix

/-- The collection of a project over its default index. -/
def collect (t : FileTree) (settings : Settings) (m : Option Matcher) : Collection :=
  match m with
  | none => .empty
  | some m => (collectListing t settings m (defaultListing t settings)).result

end IgnoredPaths
