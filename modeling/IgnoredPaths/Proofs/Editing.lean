import IgnoredPaths.Proofs.Matcher
import Mathlib.Algebra.BigOperators.Group.Finset.Basic

/-!
# Editing a rule file

The rules of a file are those of its first lines, followed by those of its last lines with their
orders moved. As the last rule that describes a path decides it, a line that is put in has its say
only where no rule behind it does, and what stands before it has its say only where neither does.

Lines that are blank or comments are no rules. To put in any number of them, at any places, moves
orders and does nothing else.

- `Rule.moved`: a rule with so many more lines in front of it.
- `Rule.deciding?_append`: which of two parts of a file decides a path.
- `spread`: lines with others put in between them; `Rule.ofLines_spread` says what becomes of the
  rules if the others are no rules.
- `Matcher.Sound.askAll_relabel`: matchers whose rules differ in their orders only.
- `editing_is_local`: a line put in, and lines put in that are no rules.
-/

namespace IgnoredPaths

namespace Rule

/-! ## Orders -/

/-- The rule as it is with so many more lines in front of its line. -/
def moved (n : Nat) (rule : Rule) : Rule := { rule with order := rule.order + n }

theorem glob_moved (n : Nat) (rule : Rule) : (rule.moved n).glob = rule.glob := rfl

theorem moved_moved (m n : Nat) (rule : Rule) : (rule.moved m).moved n = rule.moved (m + n) := by
  rw [moved, moved, moved]
  congr 1
  exact (Int.add_assoc rule.order m n).trans (by rw [Int.natCast_add])

theorem ofLine?_add (line : Text) (i : Int) (n : Nat) :
    ofLine? line (i + n) = (ofLine? line i).map (moved n) := by
  rw [ofLine?, ofLine?]
  split <;> rfl

/-- Later lines make the same rules, with their orders moved. -/
theorem ofLinesFrom_add (lines : List Text) (i : Int) (n : Nat) :
    ofLinesFrom (i + n) lines = (ofLinesFrom i lines).map (moved n) := by
  induction lines generalizing i with
  | nil => rfl
  | cons line rest ih =>
    have hnext : i + n + 1 = i + 1 + (n : Int) := by omega
    rw [ofLinesFrom, ofLinesFrom, List.map_append, ofLine?_add, hnext, ih]
    cases ofLine? line i <;> rfl

theorem ofLines_append_moved (lines more : List Text) :
    ofLines (lines ++ more) = ofLines lines ++ (ofLines more).map (moved lines.length) := by
  rw [ofLines, ofLinesFrom_append, ofLinesFrom_add]
  rfl

theorem le_order_of_mem {rule : Rule} {i : Int} {lines : List Text}
    (h : rule ∈ ofLinesFrom i lines) : i ≤ rule.order := by
  obtain ⟨n, line, -, hline⟩ := mem_ofLinesFrom.mp h
  rw [order_of_ofLine? hline]
  omega

/-! ## Decisions -/

/-- Of two parts, the later one decides wherever it has a rule for the path. -/
theorem deciding?_append (rules more : List Rule) (path : Text) :
    deciding? (rules ++ more) path = (deciding? more path).or (deciding? rules path) := by
  rw [deciding?, List.reverse_append, List.find?_append]
  rfl

/-- Rules that describe the same paths are searched alike. -/
theorem deciding?_map {f : Rule → Rule} (hf : ∀ rule, (f rule).glob = rule.glob)
    (rules : List Rule) (path : Text) :
    deciding? (rules.map f) path = (deciding? rules path).map f := by
  have hsame : (fun rule : Rule => rule.accepts (ProjectPath.canonical path)) ∘ f =
      fun rule => rule.accepts (ProjectPath.canonical path) := by
    funext rule
    exact congrArg (Glob.accepts · _) (hf rule)
  rw [deciding?, deciding?, ← List.map_reverse, List.find?_map, hsame]

theorem isSome_deciding? (rules : List Rule) (path : Text) :
    (deciding? rules path).isSome = rules.any (·.accepts (ProjectPath.canonical path)) := by
  rw [deciding?, List.isSome_find?, List.any_reverse]

theorem deciding?_eq_none {rules : List Rule} {path : Text}
    (h : rules.any (·.accepts (ProjectPath.canonical path)) = false) :
    deciding? rules path = none := by
  rw [← Option.not_isSome_iff_eq_none, isSome_deciding?, h]
  exact Bool.false_ne_true

/-- A line that is put in decides where its rule describes the path and no rule behind it does. -/
theorem deciding?_insert (before after : List Text) (line path : Text) :
    deciding? (ofLines (before ++ line :: after)) path =
      if (ofLines after).any (·.accepts (ProjectPath.canonical path)) then
        (deciding? (ofLines (before ++ after)) path).map (moved 1)
      else
        match ofLine? line before.length with
        | none => deciding? (ofLines before) path
        | some rule =>
          if rule.accepts (ProjectPath.canonical path) then some rule
          else deciding? (ofLines before) path := by
  have hsplit : before ++ line :: after = (before ++ [line]) ++ after := by simp
  have hmoved : ∀ n, deciding? ((ofLines after).map (moved n)) path =
      (deciding? (ofLines after) path).map (moved n) := fun n =>
    deciding?_map (glob_moved n) (ofLines after) path
  rw [hsplit, ofLines_append_moved (before ++ [line]), ofLines_append_moved before after,
    deciding?_append, deciding?_append, hmoved, hmoved]
  split
  · next hafter =>
    -- a rule behind the line decides, and stands one line further down than without it
    rw [← isSome_deciding?] at hafter
    obtain ⟨rule, hrule⟩ := Option.isSome_iff_exists.mp hafter
    rw [hrule, List.length_append, List.length_singleton]
    exact congrArg some (moved_moved before.length 1 rule).symm
  · next hafter =>
    -- the line is asked first, and what stands before it only if the line says nothing
    rw [deciding?_eq_none (Bool.eq_false_iff.mpr hafter), Option.map_none, Option.none_or, ofLines,
      ofLinesFrom_append, deciding?_append, Int.zero_add, ofLinesFrom, ofLinesFrom,
      List.append_nil]
    cases ofLine? line before.length with
    | none => rfl
    | some rule =>
      show (List.find? _ [rule]).or _ = _
      rw [List.find?_singleton]
      dsimp only
      split <;> rfl

/-! ## Lines that are no rules -/

/-- Whether a line is blank or a comment. -/
def IsSkipped (line : Text) : Prop :=
  Text.strip line = [] ∨ Text.startsWith (Text.strip line) ['#'] = true

instance (line : Text) : Decidable (IsSkipped line) := inferInstanceAs (Decidable (_ ∨ _))

/-- A line is a rule unless it is blank or a comment. -/
theorem ofLine?_eq_none_iff {line : Text} {i : Int} : ofLine? line i = none ↔ IsSkipped line := by
  rw [ofLine?, IsSkipped]
  split
  · next hline => simp [hline]
  · next hline => simp [hline, Text.startsWith]
  · next hline => simp [hline, Text.startsWith]
  · next hempty hcomment hnegation =>
    refine iff_of_false (Option.some_ne_none _) ?_
    rintro (hline | hline)
    · exact hempty hline
    · obtain ⟨rest, hrest⟩ := List.isPrefixOf_iff_prefix.mp hline
      exact hcomment rest hrest.symm

theorem ofLinesFrom_of_skipped {lines : List Text} (h : ∀ line ∈ lines, IsSkipped line) (i : Int) :
    ofLinesFrom i lines = [] := by
  refine List.eq_nil_iff_forall_not_mem.mpr fun rule hrule => ?_
  obtain ⟨n, line, hn, hline⟩ := mem_ofLinesFrom.mp hrule
  rw [ofLine?_eq_none_iff.mpr (h line (List.mem_of_getElem? hn))] at hline
  cases hline

end Rule

/-- Lines with others put in: those of the first gap before the first line, those of the next gap
before the next line, and so on, and those of one more gap behind the last line. -/
def spread (gaps : Nat → List Text) : List Text → List Text
  | [] => gaps 0
  | line :: rest => gaps 0 ++ line :: spread (fun n => gaps (n + 1)) rest

/-- How many lines are put in before the line at an index. -/
def putBefore (gaps : Nat → List Text) (n : Nat) : Nat :=
  ∑ k ∈ Finset.range (n + 1), (gaps k).length

theorem putBefore_zero (gaps : Nat → List Text) : putBefore gaps 0 = (gaps 0).length := by
  rw [putBefore, Finset.sum_range_one]

theorem putBefore_succ (gaps : Nat → List Text) (n : Nat) :
    putBefore gaps (n + 1) = (gaps 0).length + putBefore (fun k => gaps (k + 1)) n := by
  rw [putBefore, Finset.sum_range_succ', Nat.add_comm]
  rfl

namespace Rule

/-- Lines that are no rules move those behind them. -/
theorem ofLinesFrom_spread (lines : List Text) {gaps : Nat → List Text}
    (h : ∀ n, ∀ line ∈ gaps n, IsSkipped line) (i : Int) :
    ofLinesFrom i (spread gaps lines) =
      (ofLinesFrom i lines).map fun rule => rule.moved (putBefore gaps (rule.order - i).toNat) := by
  induction lines generalizing gaps i with
  | nil => exact ofLinesFrom_of_skipped (h 0) i
  | cons line rest ih =>
    -- the first gap holds no rules, and all others stand behind its lines
    have hnext : i + (gaps 0).length + 1 = i + 1 + ((gaps 0).length : Int) := by omega
    rw [spread, ofLinesFrom_append, ofLinesFrom_of_skipped (h 0), List.nil_append, ofLinesFrom,
      ofLinesFrom, List.map_append, ofLine?_add, hnext, ih fun n => h (n + 1), ofLinesFrom_add,
      List.map_map]
    congr 1
    · cases hline : ofLine? line i with
      | none => rfl
      | some rule =>
        have hindex : (rule.order - i).toNat = 0 := by
          rw [order_of_ofLine? hline]
          omega
        rw [Option.map_some, Option.toList_some, Option.toList_some, List.map_singleton, hindex,
          putBefore_zero]
    · refine List.map_congr_left fun rule hrule => ?_
      -- the rule stands behind the line, so the first gap is among those before it
      obtain ⟨n, hn⟩ := Int.eq_ofNat_of_zero_le (Int.sub_nonneg.mpr (le_order_of_mem hrule))
      have hhere : (rule.order - i).toNat = n + 1 := by omega
      have hthere : ((rule.moved (gaps 0).length).order - (i + 1 + (gaps 0).length)).toNat = n := by
        show (rule.order + ((gaps 0).length : Int) - (i + 1 + (gaps 0).length)).toNat = n
        omega
      rw [Function.comp_apply, hthere, hhere, moved_moved, putBefore_succ]

/-- The rule as it is with the lines of the gaps in front of its line. -/
def movedBy (gaps : Nat → List Text) (rule : Rule) : Rule :=
  rule.moved (putBefore gaps rule.order.toNat)

theorem ofLines_spread {gaps : Nat → List Text} (h : ∀ n, ∀ line ∈ gaps n, IsSkipped line)
    (lines : List Text) : ofLines (spread gaps lines) = (ofLines lines).map (movedBy gaps) := by
  rw [ofLines, ofLinesFrom_spread lines h]
  refine List.map_congr_left fun rule _ => ?_
  rw [movedBy, Int.sub_zero]

end Rule

/-! ## Replies -/

namespace Matcher

/-- A reply in which the rule, if it names one, is replaced. -/
def Reply.relabel (f : Rule → Rule) : Reply → Reply
  | .flag answer => .flag answer
  | .verdict answer => .verdict answer
  | .rule answer => .rule (answer.map f)
  | .done => .done

variable {f : Rule → Rule}

theorem verdict_map (hglob : ∀ rule, (f rule).glob = rule.glob)
    (hnegation : ∀ rule, (f rule).negation = rule.negation) (rules : List Rule) (path : Text) :
    Rule.verdict (rules.map f) path = Rule.verdict rules path := by
  rw [Rule.verdict, Rule.verdict, Rule.deciding?_map hglob]
  cases Rule.deciding? rules path with
  | none => rfl
  | some rule =>
    rw [Option.map_some]
    dsimp only
    rw [hnegation]

/-- If rules are replaced by others that say the same, a matcher names the others and replies what
it did before. -/
theorem Sound.ask_relabel (hglob : ∀ rule, (f rule).glob = rule.glob)
    (hnegation : ∀ rule, (f rule).negation = rule.negation) {m other : Matcher} (hm : m.Sound)
    (hother : other.Sound) (hrules : other.rules = m.rules.map f) (q : Query) :
    (other.ask q).1 = ((m.ask q).1).relabel f := by
  have hverdict := verdict_map hglob hnegation m.rules
  cases q with
  | isIgnored path =>
    show Reply.flag _ = .flag _
    rw [hm.isIgnored_fst, hother.isIgnored_fst, Rule.ignores, Rule.ignores, hrules, hverdict]
  | verdict path =>
    show Reply.verdict _ = .verdict _
    rw [verdict, verdict, hrules, hverdict]
  | deciding path =>
    show Reply.rule _ = .rule _
    rw [deciding?, deciding?, hrules, Rule.deciding?_map hglob]
  | forget => rfl

theorem Sound.askAll_relabel (hglob : ∀ rule, (f rule).glob = rule.glob)
    (hnegation : ∀ rule, (f rule).negation = rule.negation) (queries : List Query) :
    ∀ {m other : Matcher}, m.Sound → other.Sound → other.rules = m.rules.map f →
      (other.askAll queries).1 = (m.askAll queries).1.map (Reply.relabel f) := by
  induction queries with
  | nil => exact fun _ _ _ => rfl
  | cons q queries ih =>
    intro m other hm hother hrules
    rw [askAll, askAll, List.map_cons, hm.ask_relabel hglob hnegation hother hrules q]
    refine congrArg _ (ih (hm.ask q) (hother.ask q) ?_)
    rw [rules_ask, rules_ask, hrules]

end Matcher

/-- **Editing a rule file has local effect.** After a line is put in between others, a path that
some rule behind the line describes is decided as without the line, by a rule whose order is
greater by one; any other path that the rule of the line describes is decided by that rule, whose
order is the number of lines before it; and any other path is decided as by the lines before it
alone. Exactly blank lines and comments are no rules, and any number of them, put in at any places,
leave every reply in a run of queries as it is, but for the orders of the rules that are named:
each grows by the number of lines put in before the line of the rule. -/
theorem editing_is_local :
    (∀ (before after : List Text) (line path : Text),
      (Matcher.ofLines (before ++ line :: after)).deciding? path =
        if (Rule.ofLines after).any (·.accepts (ProjectPath.canonical path)) then
          ((Matcher.ofLines (before ++ after)).deciding? path).map (Rule.moved 1)
        else
          match Rule.ofLine? line before.length with
          | none => (Matcher.ofLines before).deciding? path
          | some rule =>
            if rule.accepts (ProjectPath.canonical path) then some rule
            else (Matcher.ofLines before).deciding? path) ∧
    (∀ (line : Text) (i : Int),
      (Rule.ofLine? line i = none ↔ Rule.IsSkipped line) ∧
        ∀ rule, Rule.ofLine? line i = some rule → rule.order = i) ∧
    ∀ (gaps : Nat → List Text), (∀ n, ∀ line ∈ gaps n, Rule.IsSkipped line) →
      ∀ (lines : List Text) (queries : List Matcher.Query),
        ((Matcher.ofLines (spread gaps lines)).askAll queries).1 =
          ((Matcher.ofLines lines).askAll queries).1.map
            (Matcher.Reply.relabel (Rule.movedBy gaps)) := by
  refine ⟨Rule.deciding?_insert, fun line i => ⟨Rule.ofLine?_eq_none_iff, fun rule hrule =>
    Rule.order_of_ofLine? hrule⟩, fun gaps hgaps lines queries => ?_⟩
  have hglob : ∀ rule : Rule, (rule.movedBy gaps).glob = rule.glob := fun _ => rfl
  have hnegation : ∀ rule : Rule, (rule.movedBy gaps).negation = rule.negation := fun _ => rfl
  exact Matcher.Sound.askAll_relabel hglob hnegation queries (Matcher.sound_ofLines lines)
    (Matcher.sound_ofLines (spread gaps lines)) (Rule.ofLines_spread hgaps lines)

/-- A comment and a blank line between two rules move the second one. -/
theorem editing_between_two :
    let gaps := fun n => if n = 1 then ["# kept".toList, [' ']] else []
    let lines := ["*.log".toList, "!a.log".toList]
    let path := "logs/a.log".toList
    (∀ n, ∀ line ∈ gaps n, Rule.IsSkipped line) ∧
      spread gaps lines = ["*.log".toList, "# kept".toList, [' '], "!a.log".toList] ∧
      ∃ rule, rule.order = 3 ∧ rule.source = "!a.log".toList ∧
        ((Matcher.ofLines (spread gaps lines)).askAll
          [.isIgnored path, .verdict path, .deciding path]).1 =
          [.flag false, .verdict .negated, .rule (some rule)] := by
  intro gaps lines path
  have hgaps : ∀ n, ∀ line ∈ gaps n, Rule.IsSkipped line := by
    intro n line hline
    simp only [gaps] at hline
    split at hline
    · rcases List.mem_pair.mp hline with rfl | rfl <;> decide
    · exact absurd hline List.not_mem_nil
  refine ⟨hgaps, rfl, Rule.moved 2 ⟨Glob.ofText "**/a.log".toList, true, 1, "!a.log".toList⟩, rfl,
    rfl, ?_⟩
  rw [editing_is_local.2.2 gaps hgaps]
  rfl

end IgnoredPaths
