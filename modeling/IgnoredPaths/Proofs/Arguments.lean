import IgnoredPaths.CommandLine.Arguments

/-!
# Words about presentation

Reading a command line goes from word to word and collects what the words say. What is to be read
next does not depend on what was said about presentation before. So a word about presentation at
the front of a line changes only what it says: all else is read as without it, and a line that is
wrong stays wrong in the same way.

Nothing is said about such words further back, which may be the value of an option.

- `Presentation`: what can be said about presentation, with the words for it.
- `Arguments.present`: a command line of which something is said about presentation.
- `Arguments.readWords_present`, `Arguments.readCommon_present`: reading on after it was said.
- `Arguments.parse_presentation`: a word about presentation at the front of a line.
-/

namespace IgnoredPaths

/-- What can be said about presentation. -/
structure Presentation where
  quiet : Bool
  noColor : Bool

/-- The words for it. -/
def presentationWords : List (Text × Presentation) :=
  [("--quiet".toList, ⟨true, false⟩), ("-q".toList, ⟨true, false⟩),
   ("--no-color".toList, ⟨false, true⟩)]

/-- What two steps in a row have come to, if neither failed. -/
theorem bind_eq_ok {ε α β : Type} {x : Except ε α} {f : α → Except ε β} {b : β}
    (h : x >>= f = .ok b) : ∃ a, x = .ok a ∧ f a = .ok b := by
  cases x with
  | error e => cases h
  | ok a => exact ⟨a, rfl, h⟩

namespace Arguments

/-- A command line of which more is said about presentation. -/
def present (p : Presentation) (a : Arguments) : Arguments :=
  { a with quiet := a.quiet || p.quiet, noColor := a.noColor || p.noColor }

variable {p : Presentation} {a : Arguments} {known : Spellings} {words : List Word}

/-! ## Reading on -/

theorem set_present (p : Presentation) (a : Arguments) (flag : Flag) (value : Text) :
    (a.present p).set flag value = (a.set flag value).map (present p) := by
  cases flag with
  | interval =>
    simp only [set]
    cases Numeral.real? value <;> rfl
  | _ => rfl

theorem foldlM_set_present (p : Presentation) (a : Arguments) (flags : List (Flag × Text)) :
    flags.foldlM (fun (a : Arguments) q => a.set q.1 q.2) (a.present p) =
      (flags.foldlM (fun (a : Arguments) q => a.set q.1 q.2) a).map (present p) := by
  induction flags generalizing a with
  | nil => rfl
  | cons q rest ih =>
    rw [List.foldlM_cons, List.foldlM_cons, set_present]
    cases a.set q.1 q.2 with
    | error e => rfl
    | ok b => exact ih b

theorem readOption_present (p : Presentation) (a : Arguments) (spelling : Text) (flag : Flag)
    (equals : Bool) (attached : Option Text) :
    readOption known spelling flag equals attached words (a.present p) =
      (readOption known spelling flag equals attached words a).map fun r =>
        (r.1.present p, r.2) := by
  rw [readOption, readOption]
  cases compound known ((attached.getD []).length + 1) spelling flag equals attached with
  | error e => rfl
  | ok found =>
    obtain ⟨flags, complete⟩ := found
    simp only [bind, Except.bind]
    cases withValues flags words with
    | error e => rfl
    | ok found =>
      simp only [foldlM_set_present]
      cases found.1.foldlM (fun (a : Arguments) q => a.set q.1 q.2) a <;> rfl

/-- What is read on after some paths, which are taken or not. -/
theorem readRun_present {read : List Word → Arguments → Except NoCommand (Arguments × Bool)}
    (hread : ∀ words a, read words (a.present p) =
      (read words a).map fun r => (r.1.present p, r.2))
    (taken : Bool) (paths : List Text) (words : List Word) (a : Arguments) :
    (do
      let (b, meant) ← read words
        (if taken then { a.present p with paths := paths } else a.present p)
      return (b, taken && meant)) =
    (do
      let (b, meant) ← read words (if taken then { a with paths := paths } else a)
      return (b, taken && meant)).map fun (r : Arguments × Bool) => (r.1.present p, r.2) := by
  have htaken : (if taken then { a.present p with paths := paths } else a.present p) =
      (if taken then { a with paths := paths } else a).present p := by
    cases taken <;> rfl
  rw [htaken, hread]
  cases read words (if taken then { a with paths := paths } else a) <;> rfl

/-- What follows the name of a command is read on in the same way. -/
theorem readWords_present (p : Presentation) (command : CommandName) (fuel : Nat)
    (words : List Word) (a : Arguments) :
    readWords command fuel words (a.present p) =
      (readWords command fuel words a).map fun r => (r.1.present p, r.2) := by
  induction fuel generalizing words a with
  | zero => cases words <;> rfl
  | succ fuel ih =>
    cases words with
    | nil => rfl
    | cons word rest =>
      cases word with
      | option spelling flag equals attached =>
        simp only [readWords, readOption_present]
        cases readOption command.options spelling flag equals attached rest a with
        | error e => rfl
        | ok found =>
          simp only [Except.map, bind, Except.bind, ih]
          cases readWords command fuel found.2.1 found.1 <;> rfl
      | unknown =>
        simp only [readWords, ih]
        cases readWords command fuel rest a <;> rfl
      | plain s => exact readRun_present ih _ _ _ a
      | mark => exact readRun_present ih _ _ _ a

theorem readCommand_present (p : Presentation) (command : CommandName) (line : List Text)
    (a : Arguments) :
    readCommand command line (a.present p) =
      (readCommand command line a).map fun r => (r.1.present p, r.2) := by
  rw [readCommand, readCommand]
  cases classifyAll command.options line with
  | error e => rfl
  | ok words =>
    have hcommand : { a.present p with command := some command } =
        ({ a with command := some command } : Arguments).present p := rfl
    simp only [bind, Except.bind, hcommand, readWords_present]
    cases readWords command line.length words { a with command := some command } with
    | error e => rfl
    | ok found =>
      have hpaths : (found.1.present p).paths = found.1.paths := rfl
      simp only [Except.map, hpaths]
      split <;> rfl

/-- What precedes the name of a command is read on in the same way. -/
theorem readCommon_present (p : Presentation) (line : List Text) (fuel : Nat)
    (words : List Word) (a : Arguments) :
    readCommon line fuel words (a.present p) =
      (readCommon line fuel words a).map fun r => (r.1.present p, r.2) := by
  induction fuel generalizing words a with
  | zero => cases words <;> rfl
  | succ fuel ih =>
    cases words with
    | nil => rfl
    | cons word rest =>
      cases word with
      | option spelling flag equals attached =>
        simp only [readCommon, readOption_present]
        cases readOption commonOptions spelling flag equals attached rest a with
        | error e => rfl
        | ok found =>
          simp only [Except.map, bind, Except.bind, ih]
          cases readCommon line fuel found.2.1 found.1 <;> rfl
      | unknown =>
        simp only [readCommon, ih]
        cases readCommon line fuel rest a <;> rfl
      | plain s =>
        simp only [readCommon]
        cases CommandName.ofText? s with
        | none => rfl
        | some command => exact readCommand_present p command _ a
      | mark =>
        simp only [readCommon]
        split <;> rfl

/-! ## A word at the front -/

theorem length_classifyAll {line : List Text} (h : classifyAll known line = .ok words) :
    words.length = line.length := by
  induction line generalizing words with
  | nil =>
    cases h
    rfl
  | cons s rest ih =>
    rw [classifyAll] at h
    split at h
    · cases h
      rw [List.length_cons, List.length_map, List.length_cons]
    · obtain ⟨word, -, h⟩ := bind_eq_ok h
      obtain ⟨more, hmore, h⟩ := bind_eq_ok h
      cases h
      rw [List.length_cons, List.length_cons, ih hmore]

/-- The values of options come from the front of the words that follow. -/
theorem length_withValues {flags : List (Flag × Option Text)} {words rest : List Word}
    {valued : List (Flag × Text)} (h : withValues flags words = .ok (valued, rest)) :
    rest.length ≤ words.length := by
  induction flags generalizing words valued with
  | nil =>
    cases h
    exact Nat.le_refl _
  | cons q flags ih =>
    obtain ⟨flag, value⟩ := q
    have hmore : ∀ (value : Text) (left : List Word),
        (do
          let r ← withValues flags left
          return ((flag, value) :: r.1, r.2)) = .ok (valued, rest) →
        rest.length ≤ left.length := by
      intro value left hleft
      obtain ⟨found, hflags, hleft⟩ := bind_eq_ok hleft
      cases hleft
      exact ih hflags
    rw [withValues.eq_def] at h
    simp only at h
    split at h
    · exact hmore _ _ h
    · exact hmore _ _ h
    · exact Nat.le_succ_of_le (hmore _ _ h)
    · cases h

theorem length_readOption {spelling : Text} {flag : Flag} {equals : Bool}
    {attached : Option Text} {rest : List Word} {b : Arguments} {complete : Bool}
    (h : readOption known spelling flag equals attached words a = .ok (b, rest, complete)) :
    rest.length ≤ words.length := by
  obtain ⟨⟨flags, complete⟩, -, h⟩ := bind_eq_ok h
  obtain ⟨⟨valued, left⟩, hvalues, h⟩ := bind_eq_ok h
  obtain ⟨a, -, h⟩ := bind_eq_ok h
  cases h
  exact length_withValues hvalues

/-- A word in front of the line does not matter if the words that are left are in the line. -/
theorem readCommon_cons (s : Text) (line : List Text) (fuel : Nat) (words : List Word)
    (a : Arguments) (h : words.length ≤ line.length) :
    readCommon (s :: line) fuel words a = readCommon line fuel words a := by
  induction fuel generalizing words a with
  | zero => cases words <;> rfl
  | succ fuel ih =>
    cases words with
    | nil => rfl
    | cons word rest =>
      have hrest : rest.length ≤ line.length := Nat.le_of_succ_le h
      cases word with
      | option spelling flag equals attached =>
        simp only [readCommon]
        cases hread : readOption commonOptions spelling flag equals attached rest a with
        | error e => rfl
        | ok found =>
          have hleft := ih found.2.1 found.1 (Nat.le_trans (length_readOption hread) hrest)
          simp only [bind, Except.bind, hleft]
      | unknown => simp only [readCommon, ih rest a hrest]
      | plain name =>
        have hdrop : (s :: line).drop ((s :: line).length - rest.length) =
            line.drop (line.length - rest.length) := by
          rw [List.length_cons, Nat.succ_sub hrest, List.drop_succ_cons]
        simp only [readCommon, hdrop]
      | mark => rfl

/-- A word about presentation is an option that has no value. -/
theorem classify_presentation {s : Text} (h : (s, p) ∈ presentationWords) :
    s ≠ ['-', '-'] ∧ ∃ flag, classify commonOptions s = .ok (.option s flag false .none) ∧
      flag.hasValue = false ∧ ∀ (a : Arguments) v, a.set flag v = .ok (a.present p) := by
  have hquiet : ∀ a : Arguments, { a with quiet := true } = a.present ⟨true, false⟩ := by
    intro a
    simp [present]
  have hcolor : ∀ a : Arguments, { a with noColor := true } = a.present ⟨false, true⟩ := by
    intro a
    simp [present]
  simp only [presentationWords, List.mem_cons, Prod.mk.injEq, List.not_mem_nil, or_false] at h
  rcases h with ⟨rfl, rfl⟩ | ⟨rfl, rfl⟩ | ⟨rfl, rfl⟩
  · exact ⟨by decide, .quiet, rfl, rfl, fun a _ => congrArg _ (hquiet a)⟩
  · exact ⟨by decide, .quiet, rfl, rfl, fun a _ => congrArg _ (hquiet a)⟩
  · exact ⟨by decide, .noColor, rfl, rfl, fun a _ => congrArg _ (hcolor a)⟩

/-- **A word about presentation changes only what it says.** At the front of a line, it is read,
and then the line as without it. -/
theorem parse_presentation {s : Text} (h : (s, p) ∈ presentationWords) (line : List Text) :
    parse (s :: line) = (parse line).map (present p) := by
  obtain ⟨hmark, flag, hclassify, hvalue, hset⟩ := classify_presentation h
  have hread : ∀ words, readOption commonOptions s flag false .none words none =
      .ok (none.present p, words, true) := by
    intro words
    have hvalues : withValues [(flag, .none)] words = .ok ([(flag, [])], words) := by
      rw [withValues.eq_def]
      simp only [hvalue]
      rfl
    simp only [readOption, compound, bind, Except.bind, hvalues, List.foldlM_cons, hset]
    rfl
  rw [parse, parse, classifyAll, if_neg hmark, hclassify]
  cases hwords : classifyAll commonOptions line with
  | error e => rfl
  | ok words =>
    have hcommon : readCommon (s :: line) (s :: line).length
        (.option s flag false .none :: words) none =
          (readCommon line line.length words none).map fun r => (r.1.present p, r.2) := by
      have hlength := Nat.le_of_eq (length_classifyAll hwords)
      simp only [List.length_cons, readCommon, hread, bind, Except.bind]
      rw [readCommon_cons s line line.length words _ hlength, readCommon_present]
      cases readCommon line line.length words none <;> rfl
    simp only [bind, Except.bind, pure, Except.pure, hcommon]
    cases readCommon line line.length words none with
    | error e => rfl
    | ok found =>
      obtain ⟨a, meant⟩ := found
      have hcommand : (a.present p).command = a.command := rfl
      simp only [Except.map, hcommand]
      cases meant with
      | false => rfl
      | true => cases a.command <;> rfl

end Arguments

end IgnoredPaths
