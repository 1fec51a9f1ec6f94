import IgnoredPaths.CommandLine.Commands
import IgnoredPaths.Proofs.Matcher

/-!
# Reading a rule file back

A rule file is a text of lines, each with an end of its own. Reading the file unifies the ends and
cuts the text, and it cuts at more characters than those that end the lines. So a line is read back
as it was written exactly if it holds none of the others; a line that does is read as several.

Nothing is said about a file whose lines end in different ways, nor about a last line without an
end.

- `decodeMarked?_encodeUtf8`: the text of a file, with or without a byte-order mark.
- `Text.unifyBreaks_ended`: all three ways to end lines are the same to a reader.
- `Text.pieces`: what one line is read as; `Text.flatMap_pieces_eq_self_iff` says when all lines are
  read as they are.
- `readRuleLines_ruleFile`: what is read from a rule file, and which rules it makes.
-/

namespace IgnoredPaths

/-- The ways to end a line of a file. -/
inductive LineEnding where
  | lf
  | crlf
  | cr
  deriving DecidableEq

/-- The characters that end a line. -/
def LineEnding.text : LineEnding → Text
  | .lf => ['\n']
  | .crlf => ['\r', '\n']
  | .cr => ['\r']

/-- A text that is one line, however lines are ended. -/
def IsOneLine (line : Text) : Prop := '\r' ∉ line ∧ '\n' ∉ line

instance (line : Text) : Decidable (IsOneLine line) := inferInstanceAs (Decidable (_ ∧ _))

namespace Text

/-- Lines one after another, each with its end. -/
def ended (ending : LineEnding) (lines : List Text) : Text := lines.flatMap (· ++ ending.text)

theorem ended_cons (ending : LineEnding) (line : Text) (rest : List Text) :
    ended ending (line :: rest) = line ++ (ending.text ++ ended ending rest) := by
  rw [ended, List.flatMap_cons, List.append_assoc]
  rfl

/-! ## The ends of lines -/

theorem unifyBreaks_append {line : Text} (h : '\r' ∉ line) (rest : Text) :
    unifyBreaks (line ++ rest) = line ++ unifyBreaks rest := by
  induction line with
  | nil => rfl
  | cons c line ih =>
    rw [List.mem_cons, not_or] at h
    rw [List.cons_append, unifyBreaks.eq_3 c (line ++ rest) fun _ hc => absurd hc.symm h.1,
      if_neg (Ne.symm h.1), ih h.2, List.cons_append]

/-- An end of a line becomes a line feed, unless what follows belongs to it. -/
theorem unifyBreaks_ending {ending : LineEnding} {rest : Text}
    (h : ending = .cr → rest.head? ≠ some '\n') :
    unifyBreaks (ending.text ++ rest) = '\n' :: unifyBreaks rest := by
  cases ending with
  | lf => exact @unifyBreaks_append ['\n'] (by decide) rest
  | crlf => rfl
  | cr =>
    cases rest with
    | nil => rfl
    | cons c rest =>
      have hc : c ≠ '\n' := fun hc => h rfl (congrArg some hc)
      exact unifyBreaks.eq_3 '\r' (c :: rest) fun _ _ heq => hc (List.cons.inj heq).1

theorem head?_ended_cr_ne {lines : List Text} (h : ∀ line ∈ lines, IsOneLine line) :
    (ended .cr lines).head? ≠ some '\n' := by
  cases lines with
  | nil => exact nofun
  | cons line rest =>
    intro hhead
    have hline := (h line List.mem_cons_self).2
    cases line with
    | nil => cases hhead
    | cons c line => exact hline (Option.some.inj hhead ▸ List.mem_cons_self)

/-- All ways to end lines are the same to a reader. -/
theorem unifyBreaks_ended {ending : LineEnding} {lines : List Text}
    (h : ∀ line ∈ lines, IsOneLine line) :
    unifyBreaks (ended ending lines) = ended .lf lines := by
  induction lines with
  | nil => rfl
  | cons line rest ih =>
    have hrest : ∀ l ∈ rest, IsOneLine l := fun l hl => h l (List.mem_cons_of_mem line hl)
    have hnext : ending = .cr → (ended ending rest).head? ≠ some '\n' := by
      rintro rfl
      exact head?_ended_cr_ne hrest
    rw [ended_cons, ended_cons, unifyBreaks_append (h line List.mem_cons_self).1,
      unifyBreaks_ending hnext, ih hrest]
    rfl

/-! ## Cutting at boundaries -/

theorem lines_ne_nil {s : Text} (h : s ≠ []) : lines s ≠ [] := by
  cases s with
  | nil => exact absurd rfl h
  | cons c r =>
    rw [lines]
    split
    · exact List.cons_ne_nil _ _
    · split <;> exact List.cons_ne_nil _ _

/-- What follows a boundary is cut on its own. -/
theorem lines_append_cons {c : Char} (hc : isLineBoundary c = true) (s r : Text) :
    lines (s ++ c :: r) = lines (s ++ [c]) ++ lines r := by
  induction s with
  | nil => simp [lines, hc]
  | cons d s ih =>
    rw [List.cons_append, List.cons_append, lines, lines, ih]
    split
    · rfl
    · obtain ⟨first, more, hlines⟩ := List.exists_cons_of_ne_nil
        (lines_ne_nil (List.append_ne_nil_of_right_ne_nil s (List.cons_ne_nil c [])))
      rw [hlines]
      rfl

/-- What a line of a file is read as. -/
def pieces (line : Text) : List Text := lines (line ++ ['\n'])

theorem lines_ended (lines : List Text) :
    Text.lines (ended .lf lines) = lines.flatMap pieces := by
  induction lines with
  | nil => rfl
  | cons line rest ih =>
    rw [ended_cons, List.flatMap_cons, ← ih]
    exact lines_append_cons (by decide) line (ended .lf rest)

/-- A line is read as one piece more than it holds boundaries. -/
theorem length_pieces (line : Text) : (pieces line).length = line.countP isLineBoundary + 1 := by
  induction line with
  | nil => rfl
  | cons c line ih =>
    rw [pieces] at ih
    rw [pieces, List.cons_append, lines, List.countP_cons]
    split
    · rw [List.length_cons, ih]
    · rw [← ih]
      split <;> simp_all

/-- A line without boundaries is read as it is. -/
theorem pieces_eq_singleton {line : Text} (h : ∀ c ∈ line, isLineBoundary c = false) :
    pieces line = [line] := by
  induction line with
  | nil => rfl
  | cons c line ih =>
    have hline := ih fun d hd => h d (List.mem_cons_of_mem c hd)
    rw [pieces] at hline
    rw [pieces, List.cons_append, lines, hline, h c List.mem_cons_self]
    rfl

theorem length_flatMap_pieces (lines : List Text) :
    (lines.flatMap pieces).length = lines.flatten.countP isLineBoundary + lines.length := by
  induction lines with
  | nil => rfl
  | cons line rest ih =>
    rw [List.flatMap_cons, List.length_append, length_pieces, ih, List.flatten_cons,
      List.countP_append, List.length_cons]
    omega

/-- All lines are read as they are exactly if none of them holds a boundary. -/
theorem flatMap_pieces_eq_self_iff {lines : List Text} :
    lines.flatMap pieces = lines ↔ ∀ line ∈ lines, ∀ c ∈ line, isLineBoundary c = false := by
  constructor
  · intro h line hline c hc
    have hlength := length_flatMap_pieces lines
    have hnone : lines.flatten.countP isLineBoundary = 0 := by
      rw [h] at hlength
      omega
    exact Bool.eq_false_iff.mpr
      (List.countP_eq_zero.mp hnone c (List.mem_flatten.mpr ⟨line, hline, hc⟩))
  · intro h
    induction lines with
    | nil => rfl
    | cons line rest ih =>
      rw [List.flatMap_cons, pieces_eq_singleton (h line List.mem_cons_self),
        ih fun l hl => h l (List.mem_cons_of_mem line hl)]
      rfl

end Text

/-! ## The bytes of a file -/

theorem decodeUtf8?_encodeUtf8 (s : Text) : decodeUtf8? (encodeUtf8 s) = some s := by
  have hvalid : (encodeUtf8 s).IsValidUTF8 := (String.ofList s).isValidUTF8
  rw [decodeUtf8?, String.fromUTF8?, dif_pos hvalid]
  exact congrArg some String.toList_ofList

theorem encodeUtf8_cons (c : Char) (s : Text) :
    encodeUtf8 (c :: s) = encodeUtf8 [c] ++ encodeUtf8 s := by
  show (String.ofList ([c] ++ s)).toByteArray = _
  rw [String.ofList_append, String.toByteArray_append]
  rfl

theorem toList_loop_eq (bytes : ByteArray) (i : Nat) (r : List UInt8) :
    ByteArray.toList.loop bytes i r = r.reverse ++ bytes.data.toList.drop i := by
  fun_induction ByteArray.toList.loop bytes i r with
  | case1 i r h ih =>
    have hi : i < bytes.data.toList.length := h
    have hget : bytes.get! i = bytes.data.toList[i] := by
      simp [ByteArray.get!, getElem!_pos, h]
    rw [ih, List.drop_eq_getElem_cons hi, List.reverse_cons, List.append_assoc, hget]
    rfl
  | case2 i r h =>
    have hi : bytes.data.toList.length ≤ i := Nat.le_of_not_lt h
    rw [List.drop_of_length_le hi, List.append_nil]

theorem toList_bytes (bytes : ByteArray) : bytes.toList = bytes.data.toList :=
  toList_loop_eq bytes 0 []

/-- A text is not encoded as the beginning of a byte-order mark. -/
theorem eq_nil_of_isPrefixOf_markBytes {s : Text} (hsize : (encodeUtf8 s).size < 3)
    (hstart : (encodeUtf8 s).toList.isPrefixOf markBytes = true) : s = [] := by
  rw [toList_bytes, List.isPrefixOf_iff_prefix, List.prefix_iff_eq_take] at hstart
  have hdecode := decodeUtf8?_encodeUtf8 s
  have hbytes : encodeUtf8 s = ⟨(markBytes.take (encodeUtf8 s).size).toArray⟩ :=
    ByteArray.ext (Array.toList_inj.mp hstart)
  generalize (encodeUtf8 s).size = n at hsize hbytes
  rw [hbytes] at hdecode
  match n, hsize with
  | 0, _ => exact (Option.some.inj hdecode).symm
  | 1, _ => exact absurd (hdecode.symm.trans (by decide : decodeUtf8? ⟨#[0xEF]⟩ = none)) nofun
  | 2, _ => exact absurd (hdecode.symm.trans (by decide : decodeUtf8? ⟨#[0xEF, 0xBB]⟩ = none)) nofun

/-- The text of a file is what was encoded, without a byte-order mark at its beginning. -/
theorem decodeMarked?_encodeUtf8 (s : Text) :
    decodeMarked? (encodeUtf8 s) =
      some (Text.unifyBreaks (if s.head? = some markChar then s.tail else s)) := by
  rw [decodeMarked?]
  split
  · next h =>
    rw [eq_nil_of_isPrefixOf_markBytes h.1 h.2]
    rfl
  · rw [decodeUtf8?_encodeUtf8, Option.map_some]
    cases s with
    | nil => rfl
    | cons c r => simp

/-- The bytes of a rule file: a byte-order mark or none, and the lines with their ends. -/
def ruleFileBytes (mark : Bool) (ending : LineEnding) (lines : List Text) : ByteArray :=
  (if mark then ⟨markBytes.toArray⟩ else .empty) ++ encodeUtf8 (Text.ended ending lines)

theorem encodeUtf8_markChar : encodeUtf8 [markChar] = ⟨markBytes.toArray⟩ := by decide

/-- The text of a rule file has its lines ended by line feeds, and no mark. -/
theorem decodeMarked?_ruleFileBytes {mark : Bool} {ending : LineEnding} {lines : List Text}
    (hlines : ∀ line ∈ lines, IsOneLine line)
    (hmark : mark = false → (Text.ended ending lines).head? ≠ some markChar) :
    decodeMarked? (ruleFileBytes mark ending lines) = some (Text.ended .lf lines) := by
  cases mark with
  | true =>
    rw [ruleFileBytes, if_pos rfl, ← encodeUtf8_markChar, ← encodeUtf8_cons,
      decodeMarked?_encodeUtf8, List.head?_cons, if_pos rfl, List.tail_cons,
      Text.unifyBreaks_ended hlines]
  | false =>
    rw [ruleFileBytes, if_neg Bool.false_ne_true, ByteArray.empty_append, decodeMarked?_encodeUtf8,
      if_neg (hmark rfl), Text.unifyBreaks_ended hlines]

/-- A file without a mark begins like its first line. -/
theorem head?_ended_ne_markChar {ending : LineEnding} {lines : List Text}
    (h : ∀ line, lines.head? = some line → line.head? ≠ some markChar) :
    (Text.ended ending lines).head? ≠ some markChar := by
  cases lines with
  | nil => exact nofun
  | cons line rest =>
    have hline := h line rfl
    rw [Text.ended_cons]
    cases line with
    | nil => cases ending <;> exact fun heq => absurd (Option.some.inj heq) (by decide)
    | cons c line => exact hline

/-! ## Rules and their lines -/

/-- A rule says which line of a file it stands on, and that line is no comment. -/
theorem exists_line_of_mem_ofLines {lines : List Text} {rule : Rule} (h : rule ∈ Rule.ofLines lines) :
    ∃ (n : Nat) (line : Text), lines[n]? = some line ∧ Rule.ofLine? line n = some rule ∧
      rule.order = n ∧ rule.source = Text.strip line ∧ (Text.strip line).head? ≠ some '#' := by
  obtain ⟨n, line, hline, hrule⟩ := Rule.mem_ofLinesFrom.mp h
  rw [Int.zero_add] at hrule
  refine ⟨n, line, hline, hrule, Rule.order_of_ofLine? hrule, ?_, fun hcomment => ?_⟩
  · rw [Rule.ofLine?] at hrule
    split at hrule <;> cases hrule <;> rfl
  · obtain ⟨rest, hstrip⟩ := List.head?_eq_some_iff.mp hcomment
    rw [Rule.ofLine?, hstrip] at hrule
    cases hrule

/-- Asked about paths that are not those of directories, `check` answers with the rules of the rule
file alone. -/
theorem checkLines_eq_map {paths : List Text} (h : ∀ path ∈ paths, Text.endsWith path ['/'] = false)
    (p : Pass) :
    checkLines paths p = paths.map fun path => pathLine path (p.matcher.deciding? path) := by
  induction paths with
  | nil => rfl
  | cons path rest ih =>
    rw [checkLines, h path List.mem_cons_self, if_neg Bool.false_ne_true,
      ih fun q hq => h q (List.mem_cons_of_mem path hq)]
    rfl

/-! ## What is read -/

section

variable {t : FileTree} {p : Path} {mtime : Int} {mark : Bool} {ending : LineEnding}
  {lines : List Text}

theorem readRuleLines_eq_pieces
    (hread : t.read p = .ok (ruleFileBytes mark ending lines, mtime))
    (hlines : ∀ line ∈ lines, IsOneLine line)
    (hmark : mark = false → ∀ line, lines.head? = some line → line.head? ≠ some markChar) :
    readRuleLines t p = .ok (lines.flatMap Text.pieces) := by
  have hdecode : decodeMarked? (ruleFileBytes mark ending lines) = some (Text.ended .lf lines) :=
    decodeMarked?_ruleFileBytes hlines fun h => head?_ended_ne_markChar (hmark h)
  simp only [readRuleLines, hread, hdecode, Text.lines_ended]

theorem isFile_of_read {content : ByteArray} (hread : t.read p = .ok (content, mtime)) :
    t.isFile p = true := by
  rw [FileTree.read] at hread
  split at hread
  · next hstat =>
    rw [FileTree.isFile, hstat]
    rfl
  · cases hread
  · cases hread

theorem loadMatcher_of_readRuleLines {content : ByteArray}
    (hread : t.read p = .ok (content, mtime)) (hlines : readRuleLines t p = .ok lines) :
    loadMatcher t p = (some (Matcher.ofLines lines), []) := by
  rw [loadMatcher, if_pos (isFile_of_read hread), hlines]

/-- **A rule file gives back its lines, unless a line holds a boundary of its own.** Whatever ends
the lines and whether or not there is a mark, each line is read as its pieces, and the rules are
those of all pieces. So the lines are read as they were written exactly if none of them holds a
boundary. Then each rule stands on one line, which is no comment and bears no other rule, and
`check` names that line by its number in the file. -/
theorem readRuleLines_ruleFile
    (hread : t.read p = .ok (ruleFileBytes mark ending lines, mtime))
    (hlines : ∀ line ∈ lines, IsOneLine line)
    (hmark : mark = false → ∀ line, lines.head? = some line → line.head? ≠ some markChar) :
    readRuleLines t p = .ok (lines.flatMap Text.pieces) ∧
    loadMatcher t p = (some (Matcher.ofLines (lines.flatMap Text.pieces)), []) ∧
    (readRuleLines t p = .ok lines ↔ ∀ line ∈ lines, ∀ c ∈ line, isLineBoundary c = false) ∧
    (readRuleLines t p = .ok lines →
      let rules := Rule.ofLines lines
      rules.Pairwise (·.order < ·.order) ∧
      (∀ settings paths, settings.rulesFile = p →
        (∀ path ∈ paths, Text.endsWith path ['/'] = false) →
          (check t settings paths).messages =
            paths.map fun path => pathLine path (Rule.deciding? rules path)) ∧
      ∀ rule ∈ rules, ∃ (n : Nat) (line : Text),
        lines[n]? = some line ∧ Rule.ofLine? line n = some rule ∧
        (Text.strip line).head? ≠ some '#' ∧
        ∀ path, pathLine path (some rule) =
          .line [.path path, .text ('\t' :: (if rule.negation then "negated" else "ignored").toList
            ++ '\t' :: Text.strip line ++ " (line ".toList ++ Text.ofNat (n + 1) ++ [')'])]) := by
  have hpieces := readRuleLines_eq_pieces hread hlines hmark
  refine ⟨hpieces, loadMatcher_of_readRuleLines hread hpieces, ?_, fun hsame => ?_⟩
  · rw [hpieces, Except.ok.injEq]
    exact Text.flatMap_pieces_eq_self_iff
  · refine ⟨Rule.pairwise_ofLines lines, fun settings paths hsettings hpaths => ?_,
      fun rule hrule => ?_⟩
    · rw [check, hsettings, loadMatcher_of_readRuleLines hread hsame]
      exact checkLines_eq_map hpaths _
    · obtain ⟨n, line, hline, hof, horder, hsource, hcomment⟩ := exists_line_of_mem_ofLines hrule
      refine ⟨n, line, hline, hof, hcomment, fun path => ?_⟩
      rw [pathLine, hsource, horder]
      rfl

end

/-- A comment with a form feed in it. -/
def formFeedComment : Text := "# notes\x0c*.log".toList

/-- A directory with a rule file. -/
def withRuleFile (mark : Bool) (ending : LineEnding) (lines : List Text) : FileTree :=
  FileTree.empty.insert [] defaultRulesFile (.file (ruleFileBytes mark ending lines) 1)

/-- The lines of a file with a mark and with two characters at each end are read as they are, and
`check` names the second one. -/
theorem readRuleLines_two_lines :
    let lines := ["# logs".toList, "*.log".toList]
    let t := withRuleFile true .crlf lines
    let p := Path.ofText "/.gitignore".toList
    (∀ line ∈ lines, IsOneLine line) ∧ readRuleLines t p = .ok lines ∧
      (check t (.initial (.ofText ['/'])) ["a.log".toList]).messages =
        [.line [.path "a.log".toList, .text "\tignored\t*.log (line 2)".toList]] := by
  intro lines t p
  have hread : t.read p = .ok (ruleFileBytes true .crlf lines, 1) := rfl
  have hlines : ∀ line ∈ lines, IsOneLine line := by decide
  obtain ⟨-, -, hsame, hrules⟩ := readRuleLines_ruleFile hread hlines nofun
  have hplain : ∀ line ∈ lines, ∀ c ∈ line, isLineBoundary c = false := by
    simp [lines, isLineBoundary]
  have hback : readRuleLines t p = .ok lines := hsame.mpr hplain
  obtain ⟨-, hcheck, -⟩ := hrules hback
  exact ⟨hlines, hback, (hcheck _ _ rfl (by decide)).trans (by decide)⟩

/-- What stands in a comment behind a form feed is read as a line, and becomes a rule. -/
theorem readRuleLines_formFeedComment :
    let lines := [formFeedComment]
    let t := withRuleFile false .lf lines
    let p := Path.ofText "/.gitignore".toList
    (∀ line ∈ lines, IsOneLine line) ∧ formFeedComment.head? ≠ some markChar ∧
      t.read p = .ok (ruleFileBytes false .lf lines, 1) ∧
      readRuleLines t p = .ok ["# notes".toList, "*.log".toList] ∧ readRuleLines t p ≠ .ok lines ∧
      (loadMatcher t p).1.map (fun m => m.rules.map Rule.source) = some ["*.log".toList] := by
  intro lines t p
  have hread : t.read p = .ok (ruleFileBytes false .lf lines, 1) := rfl
  have hlines : ∀ line ∈ lines, IsOneLine line := by decide
  have hpieces : readRuleLines t p = .ok ["# notes".toList, "*.log".toList] :=
    readRuleLines_eq_pieces hread hlines (by decide)
  refine ⟨hlines, by decide, hread, hpieces, ?_, ?_⟩
  · rw [hpieces]
    decide
  · rw [loadMatcher_of_readRuleLines hread hpieces]
    decide

end IgnoredPaths
