import IgnoredPaths.Session
import IgnoredPaths.Text.Numeral

/-!
# Arguments of the command line

Options that concern every command come before its name, and its own options and paths after
it. A long option may be shortened as long as only one is meant, and its value may follow an
equals sign; short options may be written together, the last one with its value attached. After
`--` nothing is an option, and neither are negative numbers and words with a blank in them.

- `Arguments`: what a command line says.
- `Arguments.parse`: reading it.
-/

namespace IgnoredPaths

/-- What an option is about. -/
inductive Flag where
  | help
  | version
  | noColor
  | quiet
  | projectRoot
  | rules
  | extraRoot
  | outputParent
  | name
  | dryRun
  | interval
  deriving DecidableEq

/-- Whether an option has a value. -/
def Flag.hasValue : Flag → Bool
  | .projectRoot | .rules | .extraRoot | .outputParent | .name | .interval => true
  | _ => false

/-- The commands. -/
inductive CommandName where
  | preview
  | check
  | export
  | watch
  deriving DecidableEq

/-- The command of a word. -/
def CommandName.ofText? (s : Text) : Option CommandName :=
  [("preview".toList, CommandName.preview), ("check".toList, .check), ("export".toList, .export),
    ("watch".toList, .watch)].lookup s

/-- What a command line says. -/
structure Arguments where
  noColor : Bool
  quiet : Bool
  projectRoot : Option Text
  rules : Option Text
  extraRoots : List Text
  command : Option CommandName
  paths : List Text
  outputParent : Option Text
  folderName : Option Text
  dryRun : Bool
  interval : Float

namespace Arguments

/-- A command line that says nothing. -/
def none : Arguments where
  noColor := false
  quiet := false
  projectRoot := .none
  rules := .none
  extraRoots := []
  command := .none
  paths := []
  outputParent := .none
  folderName := .none
  dryRun := false
  interval := defaultRefreshInterval

end Arguments

/-- Why no command is run. -/
inductive NoCommand where
  /-- An explanation was asked for. -/
  | help
  /-- The version was asked for. -/
  | version
  /-- The command line is wrong. -/
  | misuse
  deriving DecidableEq

/-! ## Words of a command line -/

/-- The spellings of the options at one place of a command line. -/
abbrev Spellings := List (Text × Flag)

/-- The options before the name of a command. -/
def commonOptions : Spellings :=
  [("-h".toList, .help), ("--help".toList, .help), ("--version".toList, .version),
   ("--no-color".toList, .noColor), ("--quiet".toList, .quiet), ("-q".toList, .quiet),
   ("--project-root".toList, .projectRoot), ("-C".toList, .projectRoot),
   ("--rules".toList, .rules), ("--extra-root".toList, .extraRoot)]

/-- The options of a command. -/
def CommandName.options : CommandName → Spellings
  | .preview | .check => [("-h".toList, .help), ("--help".toList, .help)]
  | .export =>
    [("-h".toList, .help), ("--help".toList, .help), ("--output-parent".toList, .outputParent),
     ("-o".toList, .outputParent), ("--name".toList, .name), ("--dry-run".toList, .dryRun),
     ("-n".toList, .dryRun)]
  | .watch => [("-h".toList, .help), ("--help".toList, .help), ("--interval".toList, .interval)]

/-- A word of a command line. -/
inductive Word where
  /-- A word that is no option. -/
  | plain (s : Text)
  /-- The mark after which nothing is an option. -/
  | mark
  /-- An option in some spelling, with whether an equals sign follows and what is attached. -/
  | option (spelling : Text) (flag : Flag) (equals : Bool) (attached : Option Text)
  /-- An option that does not exist. -/
  | unknown

/-- Whether a text is a negative number without an exponent. A line feed may end it. -/
def isNegativeNumber (s : Text) : Bool :=
  match s with
  | '-' :: r =>
    let r := if r.getLast? = some '\n' then r.dropLast else r
    let isDigit (c : Char) : Bool := (digitValue? c).isSome
    let whole := r.takeWhile isDigit
    match r.drop whole.length with
    | [] => whole ≠ []
    | '.' :: places => places ≠ [] && places.all isDigit
    | _ => false
  | _ => false

/-- The text up to an equals sign, and the text after it if there is one. -/
def atEquals (s : Text) : Text × Option Text :=
  match s.dropWhile (· ≠ '=') with
  | [] => (s, none)
  | _ :: r => (s.takeWhile (· ≠ '='), some r)

/-- The options that a shortened or compound word can mean. -/
def candidates (known : Spellings) (s : Text) : List Word :=
  if Text.startsWith s ['-', '-'] then
    let (start, value) := atEquals s
    (known.filter fun p => Text.startsWith p.1 start).map fun p =>
      .option p.1 p.2 value.isSome value
  else
    known.filterMap fun p =>
      if p.1 = s.take 2 then some (.option p.1 p.2 false (some (s.drop 2)))
      else if Text.startsWith p.1 s then some (.option p.1 p.2 false none)
      else none

/-- The option that a word with a dash in front means. -/
def classifyDashed (known : Spellings) (s : Text) : Except NoCommand Word :=
  let (start, value) := atEquals s
  match known.lookup s, value, known.lookup start with
  | some flag, _, _ => .ok (.option s flag false none)
  | none, some value, some flag => .ok (.option start flag true (some value))
  | none, _, _ =>
    match candidates known s with
    | [word] => .ok word
    | _ :: _ :: _ => .error .misuse
    | [] => .ok (if isNegativeNumber s || s.contains ' ' then .plain s else .unknown)

/-- What a word is, unless it is ambiguous. -/
def classify (known : Spellings) (s : Text) : Except NoCommand Word :=
  match s with
  | '-' :: _ :: _ => classifyDashed known s
  | _ => .ok (.plain s)

/-- What the words of a command line are. -/
def classifyAll (known : Spellings) : List Text → Except NoCommand (List Word)
  | [] => .ok []
  | s :: rest =>
    if s = ['-', '-'] then .ok (.mark :: rest.map .plain)
    else do
      let word ← classify known s
      return word :: (← classifyAll known rest)

/-! ## Reading options -/

namespace Arguments

/-- The command line with what an option says. -/
def set (a : Arguments) (flag : Flag) (value : Text) : Except NoCommand Arguments :=
  match flag with
  | .help => .error .help
  | .version => .error .version
  | .noColor => .ok { a with noColor := true }
  | .quiet => .ok { a with quiet := true }
  | .projectRoot => .ok { a with projectRoot := some value }
  | .rules => .ok { a with rules := some value }
  | .extraRoot => .ok { a with extraRoots := a.extraRoots ++ [value] }
  | .outputParent => .ok { a with outputParent := some value }
  | .name => .ok { a with folderName := some value }
  | .dryRun => .ok { a with dryRun := true }
  | .interval =>
    match Numeral.real? value with
    | some f => .ok { a with interval := f }
    | Option.none => .error .misuse

/-- The options written in one word: those that are to be set, and the last one if its value is
the next word; `false` says that a letter among them is no option. -/
def compound (known : Spellings) :
    Nat → Text → Flag → Bool → Option Text → Except NoCommand (List (Flag × Option Text) × Bool)
  | 0, _, _, _, _ => .error .misuse
  | fuel + 1, spelling, flag, equals, attached =>
    match attached with
    | .none => .ok ([(flag, .none)], true)
    | some value =>
      if flag.hasValue then .ok ([(flag, some value)], true)
      else
        match value with
        | [] => .error .misuse
        | c :: rest =>
          if Text.startsWith spelling ['-', '-'] || equals || c = '-' then .error .misuse
          else
            match known.lookup ['-', c] with
            | .none => .ok ([(flag, some [])], false)
            | some next => do
              let (equals, attached) :=
                match rest with
                | [] => (false, .none)
                | '=' :: value => (true, some value)
                | value => (false, some value)
              let (more, complete) ← compound known fuel ['-', c] next equals attached
              return ((flag, some []) :: more, complete)

/-- The values of the options of one word; one that has a value but lacks it takes the next
word. -/
def withValues : List (Flag × Option Text) → List Word →
    Except NoCommand (List (Flag × Text) × List Word)
  | [], words => .ok ([], words)
  | (flag, value) :: rest, words => do
    let (value, words) ←
      match value, flag.hasValue, words with
      | some value, _, _ => pure (value, words)
      | .none, false, _ => pure ([], words)
      | .none, true, .plain next :: later => pure (next, later)
      | .none, true, _ => throw .misuse
    let (more, words) ← withValues rest words
    return ((flag, value) :: more, words)

/-- Reads one option and what belongs to it; `false` says that part of it is no option. -/
def readOption (known : Spellings) (spelling : Text) (flag : Flag) (equals : Bool)
    (attached : Option Text) (words : List Word) (a : Arguments) :
    Except NoCommand (Arguments × List Word × Bool) := do
  let (flags, complete) ←
    compound known ((attached.getD []).length + 1) spelling flag equals attached
  let (flags, words) ← withValues flags words
  let a ← flags.foldlM (fun a p => a.set p.1 p.2) a
  return (a, words, complete)

/-- The words up to the next option, and the rest. -/
def plainRun : List Word → List (Option Text) × List Word
  | .plain s :: rest => let (run, rest) := plainRun rest; (some s :: run, rest)
  | .mark :: rest => let (run, rest) := plainRun rest; (Option.none :: run, rest)
  | rest => ([], rest)

/-- Reads the words after the name of a command, with whether all of them have a meaning. The
first words that are no options are the paths of a command that has paths. -/
def readWords (command : CommandName) :
    Nat → List Word → Arguments → Except NoCommand (Arguments × Bool)
  | _, [], a => .ok (a, true)
  | 0, _, a => .ok (a, false)
  | fuel + 1, word :: rest, a =>
    match word with
    | .option spelling flag equals attached => do
      let (a, rest, complete) ← readOption command.options spelling flag equals attached rest a
      let (a, meant) ← readWords command fuel rest a
      return (a, complete && meant)
    | .unknown => do
      let (a, _) ← readWords command fuel rest a
      return (a, false)
    | word => do
      let (run, rest) := plainRun (word :: rest)
      let paths := run.filterMap id
      let taken := command = .check && a.paths.isEmpty && !paths.isEmpty
      let (a, meant) ← readWords command fuel rest (if taken then { a with paths := paths } else a)
      return (a, taken && meant)

/-- Reads what follows the name of a command. -/
def readCommand (command : CommandName) (words : List Text) (a : Arguments) :
    Except NoCommand (Arguments × Bool) := do
  let classified ← classifyAll command.options words
  let (a, meant) ← readWords command words.length classified { a with command := some command }
  if command = .check && a.paths.isEmpty then throw .misuse
  return (a, meant)

/-- Reads the words before the name of a command, and what follows it. The number of words left
tells where in the line the name stands. -/
def readCommon (line : List Text) :
    Nat → List Word → Arguments → Except NoCommand (Arguments × Bool)
  | _, [], a => .ok (a, true)
  | 0, _, a => .ok (a, false)
  | fuel + 1, word :: rest, a =>
    match word with
    | .option spelling flag equals attached => do
      let (a, rest, complete) ← readOption commonOptions spelling flag equals attached rest a
      let (a, meant) ← readCommon line fuel rest a
      return (a, complete && meant)
    | .unknown => do
      let (a, _) ← readCommon line fuel rest a
      return (a, false)
    | .mark => if rest.isEmpty then .ok (a, false) else .error .misuse
    | .plain s =>
      match CommandName.ofText? s with
      | some command => readCommand command (line.drop (line.length - rest.length)) a
      | .none => .error .misuse

/-- Reads a command line. -/
def parse (line : List Text) : Except NoCommand Arguments := do
  let words ← classifyAll commonOptions line
  let (a, meant) ← readCommon line line.length words .none
  if !meant then throw .misuse
  if a.command.isNone then throw .help
  return a

end Arguments

end IgnoredPaths
