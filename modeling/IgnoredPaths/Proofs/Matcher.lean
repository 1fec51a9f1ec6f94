import IgnoredPaths.Matcher
import IgnoredPaths.Proofs.Text
import Mathlib.Data.Finset.Card

/-!
# Deciding with answers kept

A matcher keeps the answers of `isIgnored`. Whatever is asked in whatever order, it answers as
if it kept nothing: the last rule that describes the canonical path decides.

- `Rule.Decides`: which rule decides a path, said by the order of the rules;
  `Rule.decides_deciding?` says that the search from the end finds it.
- `Matcher.Sound`: kept answers are right and each path is kept once; every query keeps this
  (`Matcher.Sound.ask`).
- `Matcher.askAll_answered_and_knownCount`: what a run of queries answers and how much it keeps.
-/

namespace IgnoredPaths

namespace ProjectPath

/-- The canonical form is read the same way again. -/
theorem canonical_canonical (path : Text) : canonical (canonical path) = canonical path := by
  have hslash : '\\' ∉ canonical path := fun h =>
    Text.not_mem_swap (by decide) path (List.dropWhile_subset _ h)
  rw [canonical, Text.swap_eq_self '/' hslash]
  exact Text.trimLeft_trimLeft

/-- So is the form in which directories are known. -/
theorem directoryForm_directoryForm (path : Text) :
    directoryForm (directoryForm path) = directoryForm path := by
  obtain ⟨back, hback, -⟩ := Text.exists_trimRight_append (· = '/') (canonical path)
  have hcanonical : canonical (directoryForm path) = directoryForm path := by
    have hslash : '\\' ∉ directoryForm path := fun h =>
      Text.not_mem_swap (by decide) path
        (List.dropWhile_subset _ (hback ▸ List.mem_append_left back h))
    rw [canonical, Text.swap_eq_self '/' hslash]
    refine Text.trimLeft_eq_self fun c hc => ?_
    have hhead : (canonical path).head? = some c := by
      rw [hback, List.head?_append]
      exact Option.or_eq_some_iff.mpr (.inl hc)
    rw [canonical] at hhead
    exact Text.head?_trimLeft hhead
  rw [directoryForm, hcanonical]
  exact Text.trimRight_eq_self fun c hc => Text.getLast?_trimRight hc

end ProjectPath

namespace Rule

/-! ## The rules of a list of lines -/

/-- A rule knows the index of its line. -/
theorem order_of_ofLine? {line : Text} {i : Int} {rule : Rule} (h : ofLine? line i = some rule) :
    rule.order = i := by
  rw [ofLine?] at h
  split at h <;> cases h <;> rfl

/-- The rules of some lines are the rules that the lines are, each at its index. -/
theorem mem_ofLinesFrom {rule : Rule} : ∀ {lines : List Text} {i : Int},
    rule ∈ ofLinesFrom i lines ↔
      ∃ (n : Nat) (line : Text), lines[n]? = some line ∧ ofLine? line (i + n) = some rule
  | [], i => by simp [ofLinesFrom]
  | line :: rest, i => by
    rw [ofLinesFrom, List.mem_append, Option.mem_toList, mem_ofLinesFrom]
    constructor
    · rintro (h | ⟨n, l, hl, h⟩)
      · exact ⟨0, line, rfl, by simpa using h⟩
      · refine ⟨n + 1, l, hl, ?_⟩
        rw [← h]
        congr 1
        omega
    · rintro ⟨n, l, hl, h⟩
      cases n with
      | zero =>
        obtain rfl := Option.some.inj hl
        exact .inl (by simpa using h)
      | succ n =>
        refine .inr ⟨n, l, hl, ?_⟩
        rw [← h]
        congr 1
        omega

theorem ofLinesFrom_append (lines more : List Text) (i : Int) :
    ofLinesFrom i (lines ++ more) = ofLinesFrom i lines ++ ofLinesFrom (i + lines.length) more := by
  induction lines generalizing i with
  | nil => simp [ofLinesFrom]
  | cons line rest ih =>
    have hnext : i + 1 + (rest.length : Int) = i + ((line :: rest).length : Int) := by
      rw [List.length_cons]
      omega
    rw [List.cons_append, ofLinesFrom, ofLinesFrom, ih, hnext, List.append_assoc]

/-- Rules stand in the order of their lines. -/
theorem pairwise_ofLinesFrom : ∀ (lines : List Text) (i : Int),
    (ofLinesFrom i lines).Pairwise (·.order < ·.order)
  | [], _ => .nil
  | line :: rest, i => by
    rw [ofLinesFrom, List.pairwise_append]
    refine ⟨?_, pairwise_ofLinesFrom rest (i + 1), ?_⟩
    · cases ofLine? line i <;> simp
    · intro a ha b hb
      obtain ⟨n, l, -, hl⟩ := mem_ofLinesFrom.mp hb
      rw [order_of_ofLine? (Option.mem_toList.mp ha), order_of_ofLine? hl]
      omega

theorem pairwise_ofLines (lines : List Text) : (ofLines lines).Pairwise (·.order < ·.order) :=
  pairwise_ofLinesFrom lines 0

/-! ## Which rule decides -/

/-- Which rule decides a path, if any: of the rules that describe its canonical form, the one
with the greatest order. -/
def Decides (rules : List Rule) (path : Text) : Option Rule → Prop
  | none => ∀ rule ∈ rules, rule.accepts (ProjectPath.canonical path) = false
  | some rule => rule ∈ rules ∧ rule.accepts (ProjectPath.canonical path) = true ∧
      ∀ other ∈ rules, other.accepts (ProjectPath.canonical path) = true →
        other.order ≤ rule.order

/-- The search from the last rule on finds the rule that decides. -/
theorem decides_deciding? {rules : List Rule} (h : rules.Pairwise (·.order < ·.order))
    (path : Text) : Decides rules path (deciding? rules path) := by
  cases hfind : deciding? rules path with
  | none =>
    intro rule hrule
    exact Bool.eq_false_iff.mpr (List.find?_eq_none.mp hfind rule (List.mem_reverse.mpr hrule))
  | some rule =>
    -- what stands behind the rule in the search stands before it in the list
    obtain ⟨hacc, later, earlier, hsplit, hlater⟩ := List.find?_eq_some_iff_append.mp hfind
    have hrules : rules = earlier.reverse ++ rule :: later.reverse := by
      rw [← List.reverse_reverse rules, hsplit]
      simp
    rw [hrules] at h ⊢
    refine ⟨by simp, hacc, fun other hother hacc' => ?_⟩
    rcases List.mem_append.mp hother with hm | hm
    · exact Int.le_of_lt ((List.pairwise_append.mp h).2.2 other hm rule List.mem_cons_self)
    · rcases List.mem_cons.mp hm with rfl | hm
      · exact Int.le_refl _
      · have := hlater other (List.mem_reverse.mp hm)
        rw [hacc'] at this
        exact absurd this (by simp)

end Rule

namespace Matcher

/-! ## What is kept -/

/-- Kept answers are right, and no path is kept twice. -/
structure Sound (m : Matcher) : Prop where
  right : ∀ key answer, (key, answer) ∈ m.known → answer = Rule.ignores m.rules key
  distinct : (m.known.map Prod.fst).Nodup

theorem sound_ofLines (lines : List Text) : (ofLines lines).Sound :=
  ⟨fun _ _ h => absurd h List.not_mem_nil, List.nodup_nil⟩

theorem sound_forget (m : Matcher) : m.forget.Sound :=
  ⟨fun _ _ h => absurd h List.not_mem_nil, List.nodup_nil⟩

/-- The decision about a path is the decision about its canonical form. -/
theorem ignores_canonical (rules : List Rule) (path : Text) :
    Rule.ignores rules (ProjectPath.canonical path) = Rule.ignores rules path := by
  rw [Rule.ignores, Rule.ignores, Rule.verdict, Rule.verdict, Rule.deciding?, Rule.deciding?,
    ProjectPath.canonical_canonical]

@[simp] theorem rules_isIgnored (m : Matcher) (path : Text) :
    (m.isIgnored path).2.rules = m.rules := by
  simp only [isIgnored]
  split <;> rfl

/-- A sound matcher decides as the rules do. -/
theorem Sound.isIgnored_fst {m : Matcher} (h : m.Sound) (path : Text) :
    (m.isIgnored path).1 = Rule.ignores m.rules path := by
  rw [← ignores_canonical]
  simp only [isIgnored]
  split
  · next answer hlookup =>
    obtain ⟨_, _, hknown, -⟩ := List.lookup_eq_some_iff.mp hlookup
    exact h.right _ _ (hknown ▸ by simp)
  · rfl

/-- Asking whether a path is ignored keeps the path and forgets none. -/
theorem mem_known_isIgnored (m : Matcher) (path key : Text) :
    key ∈ (m.isIgnored path).2.known.map Prod.fst ↔
      key = ProjectPath.canonical path ∨ key ∈ m.known.map Prod.fst := by
  simp only [isIgnored]
  split
  · next answer hlookup =>
    obtain ⟨_, _, hknown, -⟩ := List.lookup_eq_some_iff.mp hlookup
    have hmem : ProjectPath.canonical path ∈ m.known.map Prod.fst := by
      rw [hknown]
      simp
    exact ⟨.inr, fun h => h.elim (fun hkey => hkey ▸ hmem) id⟩
  · exact List.mem_cons

/-- Asking whether a path is ignored leaves a sound matcher sound. -/
theorem Sound.isIgnored {m : Matcher} (h : m.Sound) (path : Text) : (m.isIgnored path).2.Sound := by
  simp only [Matcher.isIgnored]
  split
  · exact h
  · next hlookup =>
    constructor
    · intro key answer hm
      rcases List.mem_cons.mp hm with hm | hm
      · obtain ⟨rfl, rfl⟩ := Prod.mk.inj hm
        rfl
      · exact h.right key answer hm
    · refine List.nodup_cons.mpr ⟨fun hm => ?_, h.distinct⟩
      obtain ⟨p, hp, hkey⟩ := List.mem_map.mp hm
      have hne := List.lookup_eq_none_iff.mp hlookup p hp
      rw [hkey] at hne
      simp at hne

/-! ## Runs of queries -/

/-- What a matcher can be asked. -/
inductive Query where
  /-- Whether a path is ignored. -/
  | isIgnored (path : Text)
  /-- What the rules say about a path. -/
  | verdict (path : Text)
  /-- Which rule decides a path. -/
  | deciding (path : Text)
  /-- To forget the answers that it keeps. -/
  | forget

/-- What a matcher replies. -/
inductive Reply where
  | flag (answer : Bool)
  | verdict (answer : Verdict)
  | rule (answer : Option Rule)
  | done

/-- The reply to a query, and the matcher after it. -/
def ask (m : Matcher) : Query → Reply × Matcher
  | .isIgnored path => (.flag (m.isIgnored path).1, (m.isIgnored path).2)
  | .verdict path => (.verdict (m.verdict path), m)
  | .deciding path => (.rule (m.deciding? path), m)
  | .forget => (.done, m.forget)

/-- The replies to some queries one after another, and the matcher after them. -/
def askAll : Matcher → List Query → List Reply × Matcher
  | m, [] => ([], m)
  | m, q :: queries =>
    ((m.ask q).1 :: ((m.ask q).2.askAll queries).1, ((m.ask q).2.askAll queries).2)

end Matcher

/-- What a deciding rule says, and what its absence says. -/
def Verdict.ofDeciding : Option Rule → Verdict
  | none => .unmatched
  | some rule => if rule.negation then .negated else .ignored

namespace Matcher

/-- When a reply to a query is right, whatever was asked before. -/
def Query.Answered (rules : List Rule) : Query → Reply → Prop
  | .isIgnored path, reply => ∃ rule, Rule.Decides rules path rule ∧
      reply = .flag (Verdict.ofDeciding rule = .ignored)
  | .verdict path, reply => ∃ rule, Rule.Decides rules path rule ∧
      reply = .verdict (Verdict.ofDeciding rule)
  | .deciding path, reply => ∃ rule, Rule.Decides rules path rule ∧ reply = .rule rule
  | .forget, reply => reply = .done

/-- The canonical paths that were asked to be judged since answers were last forgotten, given
those that were before. -/
def asked : List Text → List Query → List Text
  | before, [] => before
  | before, .isIgnored path :: queries => asked (ProjectPath.canonical path :: before) queries
  | _, .forget :: queries => asked [] queries
  | before, _ :: queries => asked before queries

/-- A query leaves the rules as they are. -/
theorem rules_ask (m : Matcher) (q : Query) : (m.ask q).2.rules = m.rules := by
  cases q with
  | isIgnored path => exact m.rules_isIgnored path
  | verdict | deciding | forget => rfl

/-- A query leaves a sound matcher sound. -/
theorem Sound.ask {m : Matcher} (h : m.Sound) (q : Query) : (m.ask q).2.Sound := by
  cases q with
  | isIgnored path => exact h.isIgnored path
  | verdict | deciding => exact h
  | forget => exact m.sound_forget

/-- A sound matcher replies rightly. -/
theorem Sound.answered {m : Matcher} (h : m.Sound)
    (horder : m.rules.Pairwise (·.order < ·.order)) (q : Query) :
    q.Answered m.rules (m.ask q).1 := by
  have hverdict : ∀ path, m.verdict path = Verdict.ofDeciding (m.deciding? path) := by
    intro path
    rw [verdict, Rule.verdict, deciding?]
    cases Rule.deciding? m.rules path <;> rfl
  cases q with
  | isIgnored path =>
    refine ⟨_, Rule.decides_deciding? horder path, ?_⟩
    show Reply.flag (m.isIgnored path).1 = _
    rw [h.isIgnored_fst, ← deciding?, ← hverdict]
    rfl
  | verdict path =>
    refine ⟨_, Rule.decides_deciding? horder path, ?_⟩
    rw [← deciding?, ← hverdict]
    rfl
  | deciding path => exact ⟨_, Rule.decides_deciding? horder path, rfl⟩
  | forget => rfl

/-- In a run of queries every reply is right. -/
theorem Sound.askAll_answered : ∀ {m : Matcher}, m.Sound →
    m.rules.Pairwise (·.order < ·.order) → ∀ queries : List Query,
      List.Forall₂ (Query.Answered m.rules) queries (m.askAll queries).1
  | _, _, _, [] => .nil
  | m, h, horder, q :: queries => by
    refine .cons (h.answered horder q) ?_
    have ih := (h.ask q).askAll_answered (by rwa [m.rules_ask q]) queries
    rwa [m.rules_ask q] at ih

/-- After a run of queries, the paths that were asked to be judged are kept, each once. -/
theorem Sound.known_askAll : ∀ {m : Matcher}, m.Sound → ∀ queries : List Query,
    (m.askAll queries).2.Sound ∧ ∀ (before : List Text),
      (∀ key, key ∈ m.known.map Prod.fst ↔ key ∈ before) →
        ∀ key, key ∈ (m.askAll queries).2.known.map Prod.fst ↔ key ∈ asked before queries
  | _, h, [] => ⟨h, fun _ hbefore => hbefore⟩
  | m, h, q :: queries => by
    obtain ⟨hsound, ih⟩ := (h.ask q).known_askAll queries
    refine ⟨hsound, fun before hbefore => ?_⟩
    cases q with
    | isIgnored path =>
      refine ih (ProjectPath.canonical path :: before) fun key => ?_
      rw [List.mem_cons, ← hbefore]
      exact m.mem_known_isIgnored path key
    | verdict | deciding => exact ih before hbefore
    | forget => exact ih [] fun _ => Iff.rfl

/-- **Kept answers do not show.** In every run of queries to the matcher of some lines, under
whatever spellings, each reply is the one that the rule with the greatest order among those
describing the canonical path calls for; and after each part of the run, the matcher keeps as many
answers as there are different canonical paths among those judged since it last forgot. -/
theorem askAll_answered_and_knownCount (lines : List Text) (queries : List Query) :
    List.Forall₂ (Query.Answered (Rule.ofLines lines)) queries
        ((ofLines lines).askAll queries).1 ∧
      ∀ n, ((ofLines lines).askAll (queries.take n)).2.knownCount =
        (asked [] (queries.take n)).toFinset.card := by
  have hsound := sound_ofLines lines
  refine ⟨hsound.askAll_answered (Rule.pairwise_ofLines lines) queries, fun n => ?_⟩
  obtain ⟨hafter, hknown⟩ := hsound.known_askAll (queries.take n)
  have hkeys : (((ofLines lines).askAll (queries.take n)).2.known.map Prod.fst).toFinset =
      (asked [] (queries.take n)).toFinset := by
    ext key
    rw [List.mem_toFinset, List.mem_toFinset]
    exact hknown [] (fun _ => Iff.rfl) key
  rw [← hkeys, List.toFinset_card_of_nodup hafter.distinct, List.length_map]
  rfl

end Matcher

end IgnoredPaths
