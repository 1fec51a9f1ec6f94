import IgnoredPaths.CommandLine.Commands
import IgnoredPaths.Decimal.Layout
import IgnoredPaths.Export
import IgnoredPaths.Glob.Language
import IgnoredPaths.Host
import IgnoredPaths.Main
import IgnoredPaths.ProgramHost
import IgnoredPaths.Session
import IgnoredPaths.Proofs.GlobLanguage
import IgnoredPaths.Proofs.Matcher
import IgnoredPaths.Proofs.Pass
import IgnoredPaths.Proofs.Completion
import IgnoredPaths.Proofs.Collect
import IgnoredPaths.Proofs.Session
import IgnoredPaths.Proofs.Path
import IgnoredPaths.Proofs.Resolve
import IgnoredPaths.Proofs.Walk
import IgnoredPaths.Proofs.Project
import IgnoredPaths.Proofs.Supplement
import IgnoredPaths.Proofs.Index
import IgnoredPaths.Proofs.Roots
import IgnoredPaths.Proofs.ClosedForm
import IgnoredPaths.Proofs.Write
import IgnoredPaths.Proofs.FreeFolder
import IgnoredPaths.Proofs.ExportFrame
import IgnoredPaths.Proofs.Justification
import IgnoredPaths.Proofs.Ordinary
import IgnoredPaths.Proofs.ConfiguredExport
import IgnoredPaths.Proofs.Gains
import IgnoredPaths.Proofs.Present
import IgnoredPaths.Proofs.Reproduction
import IgnoredPaths.Proofs.Appending
import IgnoredPaths.Proofs.OrderFree
import IgnoredPaths.Proofs.Routes
import IgnoredPaths.Proofs.Watch
import IgnoredPaths.Proofs.Overlap
import IgnoredPaths.Proofs.DryRun
import IgnoredPaths.Proofs.Streams
import IgnoredPaths.Proofs.Commands
import IgnoredPaths.Proofs.Printing
import IgnoredPaths.Proofs.Faults
import IgnoredPaths.Proofs.Setup
import IgnoredPaths.Proofs.Unbarred
import IgnoredPaths.Proofs.Unforeseen
import IgnoredPaths.Proofs.Outcome
import IgnoredPaths.Proofs.Presentation
import IgnoredPaths.Proofs.Recovery
import IgnoredPaths.Proofs.Closure
import IgnoredPaths.Proofs.Spelling
import IgnoredPaths.Proofs.WalkOrder
import IgnoredPaths.Proofs.Slashes
import IgnoredPaths.Proofs.Editing
import IgnoredPaths.Proofs.PrimaryRoot
import IgnoredPaths.Proofs.RuleFile
import IgnoredPaths.Proofs.TakenNames
import IgnoredPaths.Proofs.RootsAgain
import IgnoredPaths.Proofs.Canonical
import IgnoredPaths.Proofs.ConfigSearch
import IgnoredPaths.Proofs.CheckedConfig
import IgnoredPaths.Proofs.Detours
import IgnoredPaths.Proofs.EntryTexts
