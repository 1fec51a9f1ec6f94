import IgnoredPaths.ProgramHost
import IgnoredPaths.Proofs.Arguments
import IgnoredPaths.Proofs.Commands
import IgnoredPaths.Proofs.Printing

/-!
# Presentation

A command line may ask for quietness and decline colour. What a command does does not depend on
this, and neither does what it has to say, as messages do not know their looks. So two runs that
differ only in their presentation do the same, and their streams differ only in colour sequences
and in the chatter. But what is said is also written, and a run breaks down at a line that the
payload stream has no code for. A quiet run does not write its chatter, so that it may go on where
the other one breaks down.

Nothing is said about escape characters in paths or messages, from which a terminal may read other
colours than were written.

- `Arguments.unstyled`, `SameCommand`: command lines that differ in their presentation;
  `SameCommand.presentation`.
- `runCommand_unstyled`: what a command does and has to say without it.
- `preview_messages`: what a preview says.
- `runCommand_presentation`: two runs and their streams.
- `runCommand_of_surrogate`: two runs that end differently.
-/

namespace IgnoredPaths

/-- A command line but for what it says about presentation. -/
def Arguments.unstyled (a : Arguments) : Arguments := { a with noColor := false, quiet := false }

/-- Two lines that are accepted and differ in presentation only. -/
structure SameCommand (line line' : List Text) (a b : Arguments) : Prop where
  first : Arguments.parse line = .ok a
  second : Arguments.parse line' = .ok b
  unstyled : a.unstyled = b.unstyled

variable {host : Host} {t : FileTree} {later : List FileTree} {cwd : Path} {a b : Arguments}
  {s : Settings} {line line' : List Text}

/-- A word about presentation at the front of a line leaves the command as it is. -/
theorem SameCommand.presentation (h : SameCommand line line' a b) {word : Text} {p : Presentation}
    (hword : (word, p) ∈ presentationWords) :
    SameCommand (word :: line) line' (a.present p) b where
  first := by
    rw [Arguments.parse_presentation hword, h.first]
    rfl
  second := h.second
  unstyled := h.unstyled

/-- What a command does and has to say does not depend on the presentation. -/
theorem runCommand_unstyled (host : Host) (t : FileTree) (later : List FileTree) (cwd : Path)
    (a : Arguments) : runCommand host t later cwd a.unstyled = runCommand host t later cwd a := rfl

theorem runCommand_congr (h : a.unstyled = b.unstyled) (host : Host) (t : FileTree)
    (later : List FileTree) (cwd : Path) :
    runCommand host t later cwd a = runCommand host t later cwd b := by
  rw [← runCommand_unstyled, h, runCommand_unstyled]

/-! ## Previews -/

/-- A preview with rules warns and shows its collection. -/
theorem preview_messages (h : (preview t s).outcome = .ok 0) :
    (preview t s).messages =
      collectionWarnings t s ++ previewMessages (collect t s (loadMatcher t s.rulesFile).1) := by
  rw [preview, withCollection_eq] at h ⊢
  split
  · next hbarred =>
    rw [if_pos hbarred] at h
    cases h
  · next hbarred =>
    rw [if_neg hbarred] at h
    cases hrules : (loadMatcher t s.rulesFile).1 with
    | none =>
      rw [hrules] at h
      cases h
    | some m => rfl

/-- The payload of a preview is the lines of its collection. -/
theorem filter_previewMessages (c : Collection) :
    (previewMessages c).filter (fun m => m.role = .payload) = c.previewLines.map .entry := by
  have hentries : ∀ lines : List Text,
      (lines.map Message.entry).filter (fun m => m.role = .payload) = lines.map .entry :=
    fun lines => List.filter_eq_self.mpr fun m hm => by
      obtain ⟨line, -, rfl⟩ := List.mem_map.mp hm
      rfl
  rw [previewMessages, List.filter_cons_of_neg (by simp [Message.role])]
  split
  · next hempty =>
    have hlines : c.previewLines = [] := by
      simp only [Collection.isEmpty, Bool.and_eq_true, List.isEmpty_iff] at hempty
      rw [Collection.previewLines, hempty.1, hempty.2]
      rfl
    rw [hlines]
    rfl
  · exact hentries c.previewLines

/-- A quiet preview writes the lines of its collection, and nothing else, to the payload stream. -/
theorem deleteColors_preview_payload {style : Style} (hquiet : style.quiet = true)
    (hfree : ∀ m ∈ (preview t s).messages, m.IsEscapeFree) (h : (preview t s).outcome = .ok 0) :
    deleteColors (transcript style (preview t s).messages).payload =
      (collect t s (loadMatcher t s.rulesFile).1).previewLines.flatMap (· ++ ['\n']) := by
  have hwarnings : (collectionWarnings t s).filter (fun m => m.role = .payload) = [] := by
    refine List.filter_eq_nil_iff.mpr fun m hm => ?_
    simp [Message.role_of_isWarning (collectionWarnings_warns t s m hm)]
  have hentry : ∀ path : Text, (Message.entry path).render .plain = path := by
    intro path
    rw [Message.render]
    split <;> rfl
  rw [deleteColors_payload hfree hquiet, preview_messages h, List.filter_append, hwarnings,
    List.nil_append, filter_previewMessages, List.flatMap_map]
  simp only [hentry]

/-! ## Two runs -/

/-- What a quiet run writes of some messages, beside what another run writes of them, when colour
sequences are deleted. -/
theorem deleteColors_streams {messages : List Message} (h : ∀ m ∈ messages, m.IsEscapeFree)
    (style style' : Style) :
    deleteColors (transcript style messages).diagnostics =
        deleteColors (transcript style' messages).diagnostics ∧
      (style.quiet = true → deleteColors (transcript style messages).payload =
        deleteColors (((payloadLines style' messages).filter (·.1 ≠ .chatter)).flatMap
          Prod.snd)) :=
  ⟨deleteColors_diagnostics h style style', fun hquiet =>
    deleteColors_payload_of_quiet h hquiet style'⟩

/-- A quiet preview that succeeds writes the lines of what was collected. -/
theorem deleteColors_runCommand_preview {style : Style} (hquiet : style.quiet = true)
    (hcommand : a.command = some .preview)
    (hfree : ∀ m ∈ (runCommand host t later cwd a).messages, m.IsEscapeFree)
    (houtcome : (runCommand host t later cwd a).outcome = .ok 0) :
    ∃ s, commandSettings host t cwd a = .ok s ∧
      deleteColors (transcript style (runCommand host t later cwd a).messages).payload =
        (collect t s (loadMatcher t s.rulesFile).1).previewLines.flatMap (· ++ ['\n']) := by
  have hpreview : runCommand host t later cwd a = withSettings host t cwd a (preview t) := by
    rw [runCommand, hcommand]
  cases hsettings : commandSettings host t cwd a with
  | error e =>
    rw [hpreview, withSettings, hsettings] at houtcome
    cases e <;> cases houtcome
  | ok s =>
    have hrun : runCommand host t later cwd a = preview t s := by
      rw [hpreview, withSettings, hsettings]
    rw [hrun] at hfree houtcome ⊢
    exact ⟨s, rfl, deleteColors_preview_payload hquiet hfree houtcome⟩

/-- **Presentation changes nothing else, unless chatter cannot be written.** Take two command lines
that are accepted and differ only in quietness and in declined colour, such as lines with words
about presentation in front. Take any host and file tree, with any later views of it for a watch, and
any working directory, and run each line with standard output a terminal or not, with any setting of
the variable that declines colour, and with whatever characters the payload stream has codes for.

- If both are equally quiet, or if there are codes for all chatter, both runs have the same outcome,
  the same file tree in the end and the same sleeps. If no message holds an escape character, then,
  when colour sequences are deleted: both write the same to the error stream, a quiet run writes to
  the payload stream the lines of the other one but for the chatter, and a quiet preview that
  succeeds writes the lines of what was collected.
- If there is no code for some of the chatter, a run that is not quiet breaks down. -/
theorem runCommand_presentation (h : SameCommand line line' a b) (host : Host) (t : FileTree)
    (later : List FileTree) (cwd : Path) (charset : Charset) (isTerminal isTerminal' : Bool)
    (setting setting' : Option Text) :
    let terminal := a.terminal isTerminal setting charset
    let terminal' := b.terminal isTerminal' setting' charset
    let said := (runCommand host t later cwd a).messages
    let run := terminal.perform (runCommand host t later cwd a)
    let run' := terminal'.perform (runCommand host t later cwd b)
    (∀ word p, (word, p) ∈ presentationWords →
      SameCommand (word :: line) line' (a.present p) b) ∧
    ((a.quiet = b.quiet ∨
        ∀ m ∈ said, m.role = .chatter → charset.writes (m.render .plain) = true) →
      (run.outcome = run'.outcome ∧ run.tree = run'.tree ∧ run.sleeps = run'.sleeps ∧
        a.interval = b.interval) ∧
      (transcript terminal'.style run'.messages).payload =
        (payloadLines terminal'.style run'.messages).flatMap Prod.snd ∧
      ((∀ m ∈ run.messages, m.IsEscapeFree) →
        deleteColors (transcript terminal.style run.messages).diagnostics =
            deleteColors (transcript terminal'.style run'.messages).diagnostics ∧
        (a.quiet = true →
          deleteColors (transcript terminal.style run.messages).payload =
            deleteColors (((payloadLines terminal'.style run'.messages).filter
              (·.1 ≠ .chatter)).flatMap Prod.snd) ∧
          (a.command = some .preview → run.outcome = .ok 0 →
            ∃ s, commandSettings host t cwd a = .ok s ∧
              deleteColors (transcript terminal.style run.messages).payload =
                (collect t s (loadMatcher t s.rulesFile).1).previewLines.flatMap
                  (· ++ ['\n']))))) ∧
    ((∃ m ∈ said, m.role = .chatter ∧ charset.writes (m.render .plain) = false) →
      b.quiet = false → run'.outcome = .error .printing) := by
  intro terminal terminal' said run run'
  have hcommand : runCommand host t later cwd a = runCommand host t later cwd b :=
    runCommand_congr h.unstyled host t later cwd
  have hinterval : a.unstyled.interval = b.unstyled.interval :=
    congrArg Arguments.interval h.unstyled
  refine ⟨fun word p hword => h.presentation hword, fun htaken => ?same, ?broken⟩
  case same =>
    have hrefuses : ∀ m ∈ said, terminal.refuses m = terminal'.refuses m := fun m hm =>
      Terminal.refuses_congr rfl (htaken.imp_right fun hwrites => hwrites m hm)
    have hrun : run' = run := by
      show terminal'.perform _ = terminal.perform _
      rw [← hcommand]
      exact (Terminal.perform_congr hrefuses).symm
    rw [hrun]
    refine ⟨⟨rfl, rfl, rfl, hinterval⟩, payload_eq_flatMap terminal'.style run.messages, ?_⟩
    intro hfree
    obtain ⟨hdiagnostics, hpayload⟩ := deleteColors_streams hfree terminal.style terminal'.style
    refine ⟨hdiagnostics, fun hquiet => ⟨hpayload hquiet, fun hpreview houtcome => ?_⟩⟩
    have hall : run = runCommand host t later cwd a := Terminal.perform_eq_of_outcome houtcome
    rw [hall] at hfree houtcome ⊢
    exact deleteColors_runCommand_preview hquiet hpreview hfree houtcome
  case broken =>
    rintro ⟨m, hm, hchatter, hwrites⟩ hloud
    have hrefused : terminal'.refuses m = true := by
      refine Terminal.refuses_eq_true_iff.mpr ⟨by rw [hchatter]; nofun, fun hquiet => ?_, hwrites⟩
      have hstyle : terminal'.style.quiet = b.quiet := rfl
      rw [hstyle, hloud] at hquiet
      cases hquiet
    refine (Terminal.perform_of_refused ⟨m, ?_, hrefused⟩).1
    rw [← hcommand]
    exact hm

/-- A quiet preview without colour and a coloured one, each with an extra root that is refused. The
second one has a title in bold and a remark that nothing is ignored, the first one has no payload,
and both end alike and warn alike. -/
theorem onlyRules_presentation :
    ∃ a b : Arguments, SameCommand
      ["-q".toList, "--no-color".toList, "--extra-root".toList, "../x".toList, "preview".toList]
      ["--extra-root".toList, "../x".toList, "preview".toList] a b ∧
    let terminal := a.terminal true none Program.charset
    let terminal' := b.terminal true none Program.charset
    let said := (runCommand Program.host (Session.onlyRules "b.txt" 1) [] (.ofText ['/']) a).messages
    let run := terminal.perform
      (runCommand Program.host (Session.onlyRules "b.txt" 1) [] (.ofText ['/']) a)
    let run' := terminal'.perform
      (runCommand Program.host (Session.onlyRules "b.txt" 1) [] (.ofText ['/']) b)
    (∀ m ∈ said, m.role = .chatter → Program.charset.writes (m.render .plain) = true) ∧
      (∀ m ∈ run.messages, m.IsEscapeFree) ∧
      run.outcome.toOption = some 0 ∧ run.outcome = run'.outcome ∧
      (transcript terminal'.style run'.messages).payload =
        "\x1b[1mIgnored paths: 0 directories, 0 files\x1b[0m\n(No ignored paths)\n".toList ∧
      deleteColors (transcript terminal.style run.messages).payload =
        deleteColors (((payloadLines terminal'.style run'.messages).filter
          (·.1 ≠ .chatter)).flatMap Prod.snd) ∧
      (transcript terminal'.style run'.messages).diagnostics =
        "\x1b[33mWarning: Root name cannot contain '..': ../x\x1b[0m\n".toList ∧
      deleteColors (transcript terminal.style run.messages).diagnostics =
        deleteColors (transcript terminal'.style run'.messages).diagnostics := by
  obtain ⟨b, hb⟩ : ∃ b : Arguments, b =
      { Arguments.none with command := some .preview, extraRoots := ["../x".toList] } := ⟨_, rfl⟩
  obtain ⟨a, ha⟩ : ∃ a : Arguments, a = { b with quiet := true, noColor := true } := ⟨_, rfl⟩
  have hsame : SameCommand
      ["-q".toList, "--no-color".toList, "--extra-root".toList, "../x".toList, "preview".toList]
      ["--extra-root".toList, "../x".toList, "preview".toList] a b := by
    subst ha hb
    exact ⟨rfl, rfl, rfl⟩
  refine ⟨a, b, hsame, ?_⟩
  intro terminal terminal' said run run'
  have hwrites : ∀ m ∈ said, m.role = .chatter →
      Program.charset.writes (m.render .plain) = true := by
    subst ha hb
    decide +kernel
  have hfree : ∀ m ∈ run.messages, m.IsEscapeFree := by
    subst ha hb
    decide +kernel
  obtain ⟨-, hequal, -⟩ := runCommand_presentation hsame Program.host
    (Session.onlyRules "b.txt" 1) [] (.ofText ['/']) Program.charset true true none none
  obtain ⟨⟨houtcome, -⟩, -, hstreams⟩ := hequal (.inr hwrites)
  obtain ⟨hdiagnostics, hquiet⟩ := hstreams hfree
  refine ⟨hwrites, hfree, ?code, houtcome, ?title, (hquiet (by rw [ha])).1, ?warning, hdiagnostics⟩
  all_goals
    subst ha hb
    decide +kernel

/-- A project whose configuration names the folder of an export by a surrogate without its other
half, which UTF-8 has no code for. -/
def surrogateProject : FileTree :=
  ((FileTree.empty.insert [] ['p'] .directory).insert [['p']] configFileName
    (.file "version: 1\nexport:\n  output_name: \"\\ud800\"\n".toUTF8 1)).insert
      [['p']] ".gitignore".toList (.file "*.log\n".toUTF8 1)

/-- A dry run of the export of such a project ends well if it is quiet. If it is not, it is to say
where it would export to, and ends without an exit code. -/
theorem runCommand_of_surrogate :
    ∃ a b : Arguments,
      SameCommand ["-q".toList, "export".toList, "-n".toList] ["export".toList, "-n".toList] a b ∧
      let run := (a.terminal false none Program.charset).perform
        (runCommand Program.host surrogateProject [] (.ofText "/p".toList) a)
      let run' := (b.terminal false none Program.charset).perform
        (runCommand Program.host surrogateProject [] (.ofText "/p".toList) b)
      run.outcome = .ok 0 ∧ run'.outcome = .error .printing ∧ run.outcome ≠ run'.outcome := by
  obtain ⟨b, hb⟩ : ∃ b : Arguments, b =
      { Arguments.none with command := some .export, dryRun := true } := ⟨_, rfl⟩
  obtain ⟨a, ha⟩ : ∃ a : Arguments, a = { b with quiet := true } := ⟨_, rfl⟩
  have hsame : SameCommand ["-q".toList, "export".toList, "-n".toList]
      ["export".toList, "-n".toList] a b := by
    subst ha hb
    exact ⟨rfl, rfl, rfl⟩
  refine ⟨a, b, hsame, ?_⟩
  intro run run'
  have hquiet : run.outcome = .ok 0 := by
    have hcode : run.outcome.toOption = some 0 := by
      subst ha hb
      decide +kernel
    cases houtcome : run.outcome with
    | ok code =>
      rw [houtcome] at hcode
      exact congrArg _ (Option.some.inj hcode)
    | error e =>
      rw [houtcome] at hcode
      cases hcode
  have hloud : run'.outcome = .error .printing := by
    refine (Terminal.perform_of_refused ?_).1
    subst ha hb
    decide +kernel
  exact ⟨hquiet, hloud, by rw [hquiet, hloud]; nofun⟩

end IgnoredPaths
