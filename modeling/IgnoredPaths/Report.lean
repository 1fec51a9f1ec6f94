import IgnoredPaths.Text.Basic

/-!
# Reporting

What an operation has to say is a list of messages, which say nothing about their looks. A
message is a diagnosis, chatter or payload: diagnoses go to the error stream, the rest to the
payload stream, and a quiet style drops the chatter. Only a style with colour writes the
escape sequences of a terminal.

The streams are taken as texts. The payload stream does not take a line with a character that it has
no code for; the error stream puts an escape in its place, so it takes every line. Nothing is said
about a device that fails.

- `Message`, `Span`: what is said.
- `Style`: how it is written.
- `Message.render`: the written form of one message.
- `Terminal.refuses`: whether a line cannot be written.
- `transcript`: the two streams that a list of messages makes.
-/

namespace IgnoredPaths

/-- A piece of a line. -/
inductive Span where
  /-- Text as it is. -/
  | text (s : Text)
  /-- A path, to be set off from the text. -/
  | path (s : Text)
  /-- The mark of a line about what would be done. -/
  | dryRun
  deriving DecidableEq

/-- Something to report. -/
inductive Message where
  /-- A problem that the operation got over. -/
  | warning (s : Text)
  /-- A problem that ended the operation. -/
  | error (s : Text)
  /-- Progress. -/
  | info (parts : List Span)
  /-- The end of an operation that went well. -/
  | success (s : Text)
  /-- The title of what follows. -/
  | header (s : Text)
  /-- A file was copied. -/
  | copied (path : Text)
  /-- A file was left out, for a reason. -/
  | skipped (path reason : Text)
  /-- A collected path; that of a directory ends with a slash. -/
  | entry (path : Text)
  /-- A line of an answer. -/
  | line (parts : List Span)
  deriving DecidableEq

/-- What a message is for. -/
inductive Role where
  | diagnosis
  | chatter
  | payload
  deriving DecidableEq

/-- How messages are written. -/
structure Style where
  color : Bool
  quiet : Bool
  deriving DecidableEq

namespace Style

/-- Plain text with everything in it. -/
def plain : Style := ⟨false, false⟩

/-- The style for a payload stream: colour only on a terminal, and neither when it is declined
nor when the variable that declines it for all programs is set to something. -/
def choose (declined quiet terminal : Bool) (setting : Option Text) : Style :=
  ⟨!declined && terminal && (setting.getD []).isEmpty, quiet⟩

/-- The escape sequence that a terminal colour is switched on with. -/
def escape (code : String) : Text := "\x1b[".toList ++ code.toList ++ ['m']

/-- Text in a terminal colour. -/
def paint (style : Style) (code : String) (s : Text) : Text :=
  if style.color then escape code ++ s ++ escape "0" else s

/-- A path, in cyan. -/
def path (style : Style) (s : Text) : Text := style.paint "36" s

/-- The mark of a dry run, in yellow. -/
def dryRunMark (style : Style) : Text := style.paint "33" "[dry-run]".toList

/-- A piece of a line. -/
def span (style : Style) : Span → Text
  | .text s => s
  | .path s => style.path s
  | .dryRun => style.dryRunMark

/-- A line from its pieces. -/
def spans (style : Style) (line : List Span) : Text := line.flatMap style.span

end Style

namespace Message

/-- What a message is for. -/
def role : Message → Role
  | .warning _ | .error _ => .diagnosis
  | .info _ | .success _ | .header _ | .copied _ | .skipped _ _ => .chatter
  | .entry _ | .line _ => .payload

/-- The written form of a message without the line end. -/
def render (style : Style) : Message → Text
  | .warning s => style.paint "33" ("Warning: ".toList ++ s)
  | .error s => style.paint "31" ("Error: ".toList ++ s)
  | .info parts => style.spans parts
  | .success s => style.paint "32" s
  | .header s => style.paint "1" s
  | .copied path => "  ".toList ++ style.paint "32" ['+'] ++ ' ' :: style.path path
  | .skipped path reason =>
    style.paint "2" ("  - ".toList ++ path ++ " (".toList ++ reason ++ [')'])
  | .entry path => if Text.endsWith path ['/'] then style.path path else path
  | .line parts => style.spans parts

/-- Whether a style writes a message at all. -/
def isWritten (style : Style) (m : Message) : Bool := !(style.quiet && m.role = .chatter)

end Message

/-- The characters that a stream has codes for. Those of ASCII are among them in every encoding. -/
structure Charset where
  codes : Char → Bool
  ascii : ∀ c : Char, c.toNat < 128 → codes c = true

/-- Whether a stream has codes for all characters of a text. -/
def Charset.writes (charset : Charset) (s : Text) : Bool := s.all charset.codes

/-- Where messages go: how they are written, and what the payload stream has codes for. -/
structure Terminal where
  style : Style
  charset : Charset

/-- Whether a message would be written to the payload stream, which has no code for some of it. -/
def Terminal.refuses (terminal : Terminal) (m : Message) : Bool :=
  m.isWritten terminal.style && m.role ≠ .diagnosis
    && !terminal.charset.writes (m.render terminal.style)

/-- What a list of messages puts on the payload stream and on the error stream. -/
structure Transcript where
  payload : Text
  diagnostics : Text
  deriving DecidableEq

/-- The lines of those messages that are written and satisfy a condition. -/
def writtenLines (style : Style) (keep : Message → Bool) (messages : List Message) : Text :=
  (messages.filter fun m => m.isWritten style && keep m).flatMap fun m => m.render style ++ ['\n']

/-- The two streams that a list of messages makes. -/
def transcript (style : Style) (messages : List Message) : Transcript where
  payload := writtenLines style (fun m => m.role ≠ .diagnosis) messages
  diagnostics := writtenLines style (fun m => m.role = .diagnosis) messages

end IgnoredPaths
