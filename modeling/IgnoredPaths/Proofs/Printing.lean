import IgnoredPaths.Proofs.Commands
import IgnoredPaths.Proofs.Streams

/-!
# What a terminal takes

Colour adds nothing but ASCII to a line, for which every stream has codes. So whether a message is
refused does not depend on colour; it depends on quietness, as chatter that is not written is not
refused. A run breaks down at the first message that is refused, and has said the ones before.

- `Charset.writes_render`: whether a message can be written at all.
- `Terminal.refuses_congr`: terminals that refuse the same.
- `Terminal.perform_of_taken`, `Terminal.perform_of_refused`: a run on a terminal.
- `Terminal.perform_congr`: two terminals that refuse the same messages of a run.
- `messages_exportCollection_take`, `messages_watchViews_take`: what an export has said when it is
  done with some files, and a watch when it is done with some views.
-/

namespace IgnoredPaths

/-! ## Colour -/

namespace Charset

variable {charset : Charset} {s r : Text}

theorem writes_append : charset.writes (s ++ r) = (charset.writes s && charset.writes r) :=
  List.all_append

/-- Whether all characters of a text are ASCII. -/
def isAscii (s : Text) : Bool := s.all fun c => c.toNat < 128

theorem writes_of_isAscii (h : isAscii s = true) : charset.writes s = true :=
  List.all_eq_true.mpr fun c hc =>
    charset.ascii c (of_decide_eq_true (List.all_eq_true.mp h c hc))

/-- Paint needs no codes of its own. -/
theorem writes_paint (charset : Charset) (style : Style) {code : String}
    (hcode : isAscii (Style.escape code) = true) (s : Text) :
    charset.writes (style.paint code s) = charset.writes s := by
  have hreset : charset.writes (Style.escape "0") = true := writes_of_isAscii (by decide)
  rw [Style.paint]
  split
  · rw [writes_append, writes_append, writes_of_isAscii hcode, hreset, Bool.and_true, Bool.true_and]
  · rfl

theorem writes_spans (charset : Charset) (style : Style) (line : List Span) :
    charset.writes (style.spans line) = charset.writes (Style.plain.spans line) := by
  have hone : ∀ piece : Span,
      charset.writes (style.span piece) = charset.writes (Style.plain.span piece) := by
    intro piece
    cases piece with
    | text s => rfl
    | path s => exact charset.writes_paint style (by decide) s
    | dryRun => exact charset.writes_paint style (by decide) _
  induction line with
  | nil => rfl
  | cons piece line ih =>
    have hsplit : ∀ style : Style,
        style.spans (piece :: line) = style.span piece ++ style.spans line :=
      fun _ => List.flatMap_cons
    rw [hsplit, hsplit, writes_append, writes_append, hone, ih]

/-- A stream has codes for a message in every style or in none. -/
theorem writes_render (charset : Charset) (style : Style) (m : Message) :
    charset.writes (m.render style) = charset.writes (m.render .plain) := by
  cases m with
  | warning s => exact charset.writes_paint style (by decide) _
  | error s => exact charset.writes_paint style (by decide) _
  | info parts => exact charset.writes_spans style parts
  | success s => exact charset.writes_paint style (by decide) s
  | header s => exact charset.writes_paint style (by decide) s
  | copied path =>
    -- the sign and the path are painted apart
    have hsign : ∀ rest, charset.writes (' ' :: rest) = charset.writes rest := by
      intro rest
      rw [← List.singleton_append, writes_append, writes_of_isAscii (by decide), Bool.true_and]
    simp only [Message.render, List.append_assoc, writes_append, hsign, Style.path]
    rw [charset.writes_paint style (by decide), charset.writes_paint style (by decide)]
    rfl
  | skipped path reason => exact charset.writes_paint style (by decide) _
  | entry path =>
    simp only [Message.render]
    split
    · exact charset.writes_paint style (by decide) path
    · rfl
  | line parts => exact charset.writes_spans style parts

end Charset

/-! ## Messages that are refused -/

namespace Terminal

variable {terminal terminal' : Terminal} {m : Message} {run : CommandRun}

/-- What is refused is no diagnosis, is written, and has a character without a code. -/
theorem refuses_eq_true_iff : terminal.refuses m = true ↔
    m.role ≠ .diagnosis ∧ (terminal.style.quiet = true → m.role ≠ .chatter) ∧
      terminal.charset.writes (m.render .plain) = false := by
  rw [refuses, terminal.charset.writes_render, Message.isWritten]
  cases terminal.style.quiet <;> simp [and_assoc, and_left_comm]

/-- Two terminals with one character set refuse the same, if they are equally quiet or if chatter is
none of what cannot be written. -/
theorem refuses_congr (hcharset : terminal.charset = terminal'.charset)
    (h : terminal.style.quiet = terminal'.style.quiet ∨
      (m.role = .chatter → terminal.charset.writes (m.render .plain) = true)) :
    terminal.refuses m = terminal'.refuses m := by
  refine Bool.eq_iff_iff.mpr ?_
  rw [refuses_eq_true_iff, refuses_eq_true_iff, ← hcharset]
  rcases h with h | h
  · rw [h]
  · have hchatter : terminal.charset.writes (m.render .plain) = false → m.role ≠ .chatter := by
      intro hwrites hrole
      rw [h hrole] at hwrites
      cases hwrites
    refine and_congr_right fun _ => ?_
    exact ⟨fun h => ⟨fun _ => hchatter h.2, h.2⟩, fun h => ⟨fun _ => hchatter h.2, h.2⟩⟩

/-- A run of which all is taken goes as it is. -/
theorem perform_of_taken (h : ∀ m ∈ run.messages, terminal.refuses m = false) :
    terminal.perform run = run := by
  rw [perform, List.findIdx?_eq_none_iff.mpr h]

/-- A run of which a message is refused breaks down, and has said some of its messages before. -/
theorem perform_of_refused (h : ∃ m ∈ run.messages, terminal.refuses m = true) :
    (terminal.perform run).outcome = .error .printing ∧
      ∃ n m, run.messages[n]? = some m ∧ terminal.refuses m = true ∧
        (∀ m ∈ run.messages.take n, terminal.refuses m = false) ∧
        (terminal.perform run).messages = run.messages.take n ∧
        ((terminal.perform run).tree, (terminal.perform run).sleeps) = run.meanwhile n := by
  cases hfind : run.messages.findIdx? terminal.refuses with
  | none =>
    obtain ⟨m, hm, hrefused⟩ := h
    rw [List.findIdx?_eq_none_iff.mp hfind m hm] at hrefused
    cases hrefused
  | some n =>
    obtain ⟨hn, hrefused, hbefore⟩ := List.findIdx?_eq_some_iff_getElem.mp hfind
    have hperform : terminal.perform run =
        { run with
          outcome := .error .printing
          tree := (run.meanwhile n).1
          messages := run.messages.take n
          sleeps := (run.meanwhile n).2 } := by
      rw [perform, hfind]
    rw [hperform]
    refine ⟨rfl, n, run.messages[n], List.getElem?_eq_getElem hn, hrefused, fun m hm => ?_, rfl, rfl⟩
    obtain ⟨i, hi, rfl⟩ := List.mem_take_iff_getElem.mp hm
    exact Bool.eq_false_iff.mpr (hbefore i (by omega))

/-- A run with an exit code on a terminal is taken as a whole. -/
theorem perform_eq_of_outcome {code : Nat} (h : (terminal.perform run).outcome = .ok code) :
    terminal.perform run = run := by
  refine perform_of_taken fun m hm => Bool.eq_false_iff.mpr fun hrefused => ?_
  rw [(perform_of_refused ⟨m, hm, hrefused⟩).1] at h
  cases h

/-- A run goes in the same way on two terminals that refuse the same of its messages. -/
theorem perform_congr (h : ∀ m ∈ run.messages, terminal.refuses m = terminal'.refuses m) :
    terminal.perform run = terminal'.perform run := by
  have hfind : run.messages.findIdx? terminal.refuses = run.messages.findIdx? terminal'.refuses := by
    generalize run.messages = messages at h
    induction messages with
    | nil => rfl
    | cons m rest ih =>
      rw [List.findIdx?_cons, List.findIdx?_cons, h m List.mem_cons_self,
        ih fun m hm => h m (List.mem_cons_of_mem _ hm)]
  rw [perform, perform, hfind]

end Terminal

/-! ## What has been said by then -/

theorem exists_messages_exportFiles (root destination : Path) (files : List Text) (s : ExportState) :
    ∃ more, (exportFiles root destination files s).1.messages = s.messages ++ more := by
  induction files generalizing s with
  | nil => exact ⟨[], (List.append_nil _).symm⟩
  | cons file rest ih =>
    have hlater : ∀ (s' : ExportState) (m : Message), s'.messages = s.messages ++ [m] →
        ∃ more, (exportFiles root destination rest s').1.messages = s.messages ++ more := by
      intro s' m hs'
      obtain ⟨more, hmore⟩ := ih s'
      exact ⟨m :: more, by rw [hmore, hs', List.append_assoc, List.singleton_append]⟩
    rw [exportFiles]
    split
    · split
      · exact ⟨[], (List.append_nil _).symm⟩
      · exact hlater _ _ rfl
    · exact hlater _ _ rfl

/-- With each file that is done one message is said. -/
theorem messages_exportFiles_take (root destination : Path) (files : List Text) (k : Nat)
    (s : ExportState) : (exportFiles root destination (files.take k) s).1.messages =
      (exportFiles root destination files s).1.messages.take (s.messages.length + k) := by
  induction files generalizing k s with
  | nil =>
    rw [List.take_nil]
    exact (List.take_of_length_le (Nat.le_add_right _ k)).symm
  | cons file rest ih =>
    cases k with
    | zero =>
      obtain ⟨more, hmore⟩ := exists_messages_exportFiles root destination (file :: rest) s
      rw [hmore, Nat.add_zero, List.take_left]
      rfl
    | succ k =>
      have hlater : ∀ (s' : ExportState) (m : Message), s'.messages = s.messages ++ [m] →
          (exportFiles root destination (rest.take k) s').1.messages =
            (exportFiles root destination rest s').1.messages.take
              (s.messages.length + (k + 1)) := by
        intro s' m hs'
        rw [ih k s', hs', List.length_append, List.length_singleton, Nat.add_assoc,
          Nat.add_comm 1 k]
      rw [List.take_succ_cons, exportFiles, exportFiles]
      split
      · split
        · exact (List.take_of_length_le (Nat.le_add_right _ _)).symm
        · exact hlater _ _ rfl
      · exact hlater _ _ rfl

/-- An export that has said so much is one of the first files, whether it goes on or fails. -/
theorem messages_exportCollection_take (t : FileTree) (c : Collection) (root parent : Path)
    (name : Text) (k : Nat) :
    (exportCollection t { c with files := c.files.take k } root parent name false).messages =
      (exportCollection t c root parent name false).messages.take k := by
  have hfill : ∀ destination,
      (fillFolder t { c with files := c.files.take k } root destination).1.messages =
        (fillFolder t c root destination).1.messages.take k := by
    intro destination
    rw [fillFolder, fillFolder]
    split
    · exact List.take_nil.symm
    · next made _ =>
      have hsilent := (exportDirs_kept destination c.dirs ⟨made, 0, 0, []⟩).2
      simp only
      cases hdirs : exportDirs destination c.dirs ⟨made, 0, 0, []⟩ with
      | mk s failure =>
        rw [hdirs] at hsilent
        cases failure with
        | some f => exact hsilent.symm ▸ List.take_nil.symm
        | none =>
          have hfiles := messages_exportFiles_take root destination c.files k s
          rwa [hsilent, List.length_nil, Nat.zero_add] at hfiles
  rw [exportCollection, exportCollection]
  split
  · exact List.take_nil.symm
  · next destination _ =>
    have hfilled := hfill destination
    simp only [Bool.false_eq_true, if_false]
    revert hfilled
    rcases fillFolder t { c with files := c.files.take k } root destination with ⟨s, _ | f⟩ <;>
      rcases fillFolder t c root destination with ⟨s', _ | f'⟩ <;> exact id

/-- What a watch says of the first views it says first. -/
theorem messages_watchViews_take (views : List FileTree) (k : Nat) (a : Arguments) (s : Settings) :
    (watchViews (views.take k) a s).messages <+: (watchViews views a s).messages := by
  have hevery : ∀ previous (session : Session) k,
      (watchEvery a.interval previewMessages previous (views.take k) session).messages <+:
        (watchEvery a.interval previewMessages previous views session).messages := by
    induction views with
    | nil =>
      intro previous session k
      simp only [List.take_nil, List.prefix_rfl]
    | cons t later ih =>
      intro previous session k
      cases k with
      | zero => exact List.nil_prefix
      | succ k =>
        rw [List.take_succ_cons, watchEvery, watchEvery]
        split
        · exact List.prefix_rfl
        · exact (List.prefix_append_right_inj _).mpr (ih _ _ k)
  exact hevery none (Session.new s none) k

end IgnoredPaths
