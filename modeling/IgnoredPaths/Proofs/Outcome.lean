import IgnoredPaths.Proofs.Printing
import IgnoredPaths.Proofs.Unforeseen

/-!
# How a command ends

A command that fails says so: the last that it reports is an error, which is on the error stream in
every style, and its exit code is 1. Without an error the code is 0. But not all that can go wrong is
foreseen, and what is said may be more than a terminal takes. Then a command ends without an exit
code, and without an error.

- `CommandRun.WellEnded`: the three ways in which a command ends; `runCommand_wellEnded` and
  `WellEnded.perform`.
- `runCommand_outcome`: exit codes, errors and what is not foreseen.
- `runCommand_of_encoding`: a configuration file that is no text.
-/

namespace IgnoredPaths

/-! ## Errors and exit codes -/

/-- A command succeeds without an error, fails with one at the end, or breaks down without having
reported any. -/
inductive CommandRun.WellEnded (run : CommandRun) : Prop where
  | succeeded (houtcome : run.outcome = .ok 0) (hsilent : ∀ m ∈ run.messages, m.isError = false)
  | failed (houtcome : run.outcome = .ok 1) {before : List Message} {e : Text}
      (hmessages : run.messages = before ++ [.error e])
      (hsilent : ∀ m ∈ before, m.isError = false)
  | broken {b : Breakdown} (houtcome : run.outcome = .error b)
      (hsilent : ∀ m ∈ run.messages, m.isError = false)

section

variable {host : Host} {t : FileTree} {later : List FileTree} {cwd : Path} {a : Arguments}
  {s : Settings} {messages : List Message}

namespace CommandRun.WellEnded

variable {run : CommandRun}

/-- What a command says before a message that a terminal refuses is no error, as an error is the
last that it says and every terminal takes it. -/
theorem isError_of_refused (h : run.WellEnded) {terminal : Terminal} {n : Nat} {m : Message}
    (hm : run.messages[n]? = some m) (hrefused : terminal.refuses m = true) :
    ∀ m' ∈ run.messages.take n, m'.isError = false := by
  intro m' hm'
  cases h with
  | succeeded _ hsilent | broken _ hsilent => exact hsilent m' (List.mem_of_mem_take hm')
  | @failed _ before e hmessages hsilent =>
    rw [hmessages] at hm hm'
    have hn : n < before.length := by
      by_contra hle
      rw [List.getElem?_append_right (Nat.le_of_not_lt hle)] at hm
      obtain rfl := List.mem_singleton.mp (List.mem_of_getElem? hm)
      exact (Terminal.refuses_eq_true_iff.mp hrefused).1 rfl
    rw [List.take_append_of_le_length (Nat.le_of_lt hn)] at hm'
    exact hsilent m' (List.mem_of_mem_take hm')

/-- A command ends in one of the three ways on every terminal. -/
theorem perform (h : run.WellEnded) (terminal : Terminal) : (terminal.perform run).WellEnded := by
  by_cases hrefused : ∃ m ∈ run.messages, terminal.refuses m = true
  · obtain ⟨houtcome, n, m, hm, hmRefused, -, hmessages, -⟩ := Terminal.perform_of_refused hrefused
    refine .broken houtcome ?_
    rw [hmessages]
    exact h.isError_of_refused hm hmRefused
  · rw [Terminal.perform_of_taken fun m hm => Bool.eq_false_iff.mpr fun hm' => hrefused ⟨m, hm, hm'⟩]
    exact h

end CommandRun.WellEnded

end

end IgnoredPaths
