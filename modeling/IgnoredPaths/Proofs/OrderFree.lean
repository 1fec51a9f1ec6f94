import IgnoredPaths.Proofs.Collect
import IgnoredPaths.Proofs.Justification
import IgnoredPaths.Proofs.Roots

/-!
# Classifying in any order

Each operation that classifies entries joins a contribution of its own to what a pass has found,
and a join forgets order and repetition. So it does not matter in which order a pass classifies,
whether it classifies anything twice, nor what was asked before: the same operations find the same
and answer the same.

What holds for operations carries over to a whole collection. Its index may report the same paths
in another order, in another spelling or twice, and the extra roots may be named in another order.

- `Pass.Call.Classifies`: the operations that classify; the completion is not one of them, as it
  depends on what was found.
- `Pass.Use`: what may go before, with an effect on the answers that are kept.
- `Pass.Call.run_joins`, `Pass.runAll_spec`: what one and what many operations find and answer.
- `collectListing_congr`: a collection sees the members of a listing and of the extra roots only.
- `classification_order_free`: the two together.
-/

namespace IgnoredPaths

/-- Queries leave the rules as they are. -/
theorem Matcher.rules_askAll (m : Matcher) (queries : List Query) :
    (m.askAll queries).2.rules = m.rules := by
  induction queries generalizing m with
  | nil => rfl
  | cons q queries ih =>
    show ((m.ask q).2.askAll queries).2.rules = m.rules
    rw [ih, rules_ask]

namespace Pass

/-! ## Operations that classify -/

/-- Whether an operation classifies entries. -/
def Call.Classifies : Call → Prop
  | .addFile _ | .addDirectory _ | .addIndexEntry _ | .addBelow _ | .supplement _ _ => True
  | .ensureAncestors | .addAncestorSidecars | .complete => False

/-- What an operation answers, if it answers: whether the entry is ignored. -/
def Call.answer (t : FileTree) (p : Pass) : Call → Option Bool
  | .addFile path => some (p.addFile t path).1
  | .addDirectory path => some (p.addDirectory t path).1
  | _ => none

/-- The answers of some operations one after another, and the pass after them. -/
def runAll (t : FileTree) : Pass → List Call → List (Option Bool) × Pass
  | p, [] => ([], p)
  | p, call :: rest =>
    let (answers, q) := runAll t (call.run t p) rest
    (call.answer t p :: answers, q)

namespace Terms

/-- What an operation that classifies contributes. -/
noncomputable def contribution (k : Terms) (t : FileTree) : Call → Findings
  | .addFile path => k.file t path
  | .addDirectory path => k.directory t path
  | .addIndexEntry path => k.indexEntry t path
  | .addBelow dir => k.below t dir
  | .supplement primary known => k.primaryRoot t primary known
  | .ensureAncestors | .addAncestorSidecars | .complete => ⊥

/-- What the rules have an operation answer. -/
def answer (k : Terms) : Call → Option Bool
  | .addFile path => some (Rule.ignores k.rules path)
  | .addDirectory path => some (Rule.ignoresDirectory k.rules path)
  | _ => none

end Terms

variable {k : Terms} {t : FileTree} {p : Pass}

theorem Call.run_joins (h : p.Sound) {call : Call} (hcall : call.Classifies) :
    Joins p (call.run t p) (p.terms.contribution t call) := by
  cases call with
  | addFile path => exact (addFile_spec t h path).2
  | addDirectory path => exact (addDirectory_spec t h path).2
  | addIndexEntry path => exact addIndexEntry_joins t h path
  | addBelow dir => exact addBelow_joins t h dir
  | supplement primary known => exact supplement_joins t h primary known
  | ensureAncestors | addAncestorSidecars | complete => exact hcall.elim

theorem Call.answer_eq (h : p.Sound) (call : Call) : call.answer t p = p.terms.answer call := by
  cases call with
  | addFile path => exact congrArg some (addFile_spec t h path).1
  | addDirectory path => exact congrArg some (addDirectory_spec t h path).1
  | addIndexEntry | addBelow | supplement | ensureAncestors | addAncestorSidecars | complete => rfl

/-- Operations that classify join what they contribute, and each answers for itself. -/
theorem runAll_spec {calls : List Call} (hcalls : ∀ call ∈ calls, call.Classifies)
    (hk : p.terms = k) (h : p.Sound) :
    (runAll t p calls).1 = calls.map k.answer ∧
      Joins p (runAll t p calls).2 (⨆ call ∈ calls, k.contribution t call) := by
  induction calls generalizing p with
  | nil => exact ⟨rfl, (Joins.refl h).congr (by simp)⟩
  | cons call rest ih =>
    have hcall := Call.run_joins (t := t) h (hcalls call List.mem_cons_self)
    rw [hk] at hcall
    obtain ⟨hanswers, hrest⟩ := ih (fun c hc => hcalls c (List.mem_cons_of_mem call hc))
      (hcall.terms.trans hk) hcall.sound
    refine ⟨?_, (hcall.trans hrest).congr (Findings.iSup_cons _ call rest).symm⟩
    show call.answer t p :: (runAll t (call.run t p) rest).1 = _
    rw [hanswers, Call.answer_eq h, hk, List.map_cons]

/-! ## What may go before -/

/-- A use of a pass or of its matcher, with an effect on the answers that these keep. -/
inductive Use where
  /-- An operation on the pass. -/
  | operate (call : Call)
  /-- A question to the pass: whether a directory is ignored. -/
  | askPass (dir : Text)
  /-- A query to the matcher, which others may ask as well. -/
  | askMatcher (query : Matcher.Query)

/-- The pass after a use. -/
def Use.run (t : FileTree) (p : Pass) : Use → Pass
  | .operate call => call.run t p
  | .askPass dir => (p.isDirectoryIgnored dir).2
  | .askMatcher query => { p with matcher := (p.matcher.ask query).2 }

/-- A pass over some lines after some uses, with given files and directories as the ignored ones
so far. -/
def startFrom (t : FileTree) (lines : List Text) (root : Path) (suffix : Text)
    (files dirs : TextSet) (uses : List Use) : Pass :=
  { uses.foldl (Use.run t) (new (.ofLines lines) root suffix) with files := files, dirs := dirs }

/-- What a pass judges by stays as it is in every use, and the kept answers stay right. -/
theorem Use.run_steady (hk : p.terms = k) (h : p.Sound) (use : Use) :
    (use.run t p).terms = k ∧ (use.run t p).Sound := by
  have hclassifies : ∀ call : Call, call.Classifies →
      (call.run t p).terms = k ∧ (call.run t p).Sound := by
    intro call hcall
    have hj := Call.run_joins (t := t) h hcall
    exact ⟨hj.terms.trans hk, hj.sound⟩
  cases use with
  | operate call =>
    cases call with
    | ensureAncestors =>
      have hj := ensureAncestors_joins h
      exact ⟨hj.terms.trans hk, hj.sound⟩
    | addAncestorSidecars =>
      have hj := addAncestorSidecars_joins t h
      exact ⟨hj.terms.trans hk, hj.sound⟩
    | complete =>
      obtain ⟨hterms, hsound, -⟩ := complete_spec t h
      exact ⟨hterms.trans hk, hsound⟩
    | addFile | addDirectory | addIndexEntry | addBelow | supplement =>
      exact hclassifies _ trivial
  | askPass dir =>
    have hj := (isDirectoryIgnored_spec h dir).2
    exact ⟨hj.terms.trans hk, hj.sound⟩
  | askMatcher query =>
    -- the pass keeps its own answers, which the matcher's rules bear out as before
    have hrules := p.matcher.rules_ask query
    refine ⟨?_, h.matcher.ask query, fun dir answer hknown => ?_⟩
    · rw [← hk]
      exact congrArg (Terms.mk · p.root p.suffix) hrules
    · show answer = (Rule.ignores (p.matcher.ask query).2.rules dir ||
        Rule.ignores (p.matcher.ask query).2.rules (probe dir))
      rw [hrules]
      exact h.right dir answer hknown

theorem startFrom_steady (t : FileTree) (lines : List Text) (root : Path) (suffix : Text)
    (files dirs : TextSet) (uses : List Use) :
    (startFrom t lines root suffix files dirs uses).terms =
        ⟨Rule.ofLines lines, root, suffix⟩ ∧
      (startFrom t lines root suffix files dirs uses).Sound := by
  have hnew := sound_new (Matcher.sound_ofLines lines) root suffix
  obtain ⟨hterms, hsound⟩ := uses.foldlRecOn (Use.run t)
    (motive := fun p => p.terms = ⟨Rule.ofLines lines, root, suffix⟩ ∧ p.Sound)
    ⟨rfl, hnew⟩ fun p hp use _ => use.run_steady hp.1 hp.2
  exact ⟨hterms, hsound.matcher, hsound.right⟩

end Pass

/-! ## A whole collection -/

namespace Pass.Terms

variable (k : Terms) (t : FileTree) {known known' : List Text}

/-- The supplemental scan sees the members of what was reported only. -/
theorem supplemented_congr (h : ∀ path, path ∈ known ↔ path ∈ known') (covered : List Text)
    (l : List (Path × Bool)) :
    k.supplemented t known covered l = k.supplemented t known' covered l := by
  induction l generalizing covered with
  | nil => rfl
  | cons found rest ih =>
    have hcontains : known.contains (projectRelative k.root found.1) =
        known'.contains (projectRelative k.root found.1) := by
      rw [Bool.eq_iff_iff, List.contains_iff_mem, List.contains_iff_mem, h]
    rw [supplemented, supplemented, passesOver, passesOver, hcontains, ih, ih]

/-- What a pass gathers depends on the members of a listing and of the extra roots only. -/
theorem gathered_congr {settings : Settings} {extra : List Text}
    (hextra : ∀ name, name ∈ extra ↔ name ∈ settings.extraRoots) {listing listing' : List Text}
    (h : ∀ path, path ∈ listing.map ProjectPath.directoryForm ↔
      path ∈ listing'.map ProjectPath.directoryForm) :
    k.gathered t { settings with extraRoots := extra } listing' =
      k.gathered t settings listing := by
  have hreported : ∀ path, path ∈ { settings with extraRoots := extra }.reported listing' ↔
      path ∈ settings.reported listing := by
    intro path
    rw [Settings.reported, Settings.reported, List.mem_filter, List.mem_filter, h]
  have hroots : ∀ name, name ∈ { settings with extraRoots := extra }.acceptedExtraRoots.1 ↔
      name ∈ settings.acceptedExtraRoots.1 := by
    intro name
    rw [Settings.acceptedExtraRoots, Settings.acceptedExtraRoots, mem_extraRoots_iff,
      mem_extraRoots_iff]
    simp only [List.mem_map, Option.some.injEq, exists_eq_right, hextra]
  rw [gathered, gathered, primaryRoot, primaryRoot]
  simp only [hreported, hroots]
  rw [supplemented_congr k t fun path => (h path).symm]
  rfl

end Pass.Terms

/-- What a pass found determines its files and its directories. -/
theorem Pass.sets_congr {p q : Pass} (h : p.found = q.found) :
    p.files = q.files ∧ p.dirs = q.dirs :=
  ⟨TextSet.ext fun x => Set.ext_iff.mp (congrArg Prod.fst h) x,
    TextSet.ext fun x => Set.ext_iff.mp (congrArg Prod.snd h) x⟩

/-- A collection does not depend on the order or on repetitions in its listing and in its extra
roots, nor on what its matcher was asked before. -/
theorem collectListing_congr (t : FileTree) {settings : Settings} {extra : List Text}
    (hextra : ∀ name, name ∈ extra ↔ name ∈ settings.extraRoots) {m m' : Matcher} (hm : m.Sound)
    (hm' : m'.Sound) (hrules : m'.rules = m.rules) {listing listing' : List Text}
    (h : ∀ path, path ∈ listing.map ProjectPath.directoryForm ↔
      path ∈ listing'.map ProjectPath.directoryForm) :
    (collectListing t { settings with extraRoots := extra } m' listing').result =
      (collectListing t settings m listing).result := by
  have hfound : (collectListing t { settings with extraRoots := extra } m' listing').found =
      (collectListing t settings m listing).found := by
    rw [(collectListing_spec hm' listing').2, (collectListing_spec hm listing).2, hrules]
    exact congrArg (Findings.completed (settings.terms m.rules) t)
      (Pass.Terms.gathered_congr (settings.terms m.rules) t hextra h)
  obtain ⟨hfiles, hdirs⟩ := Pass.sets_congr hfound
  rw [Pass.result, Pass.result, hfiles, hdirs]

/-- **Classifying is free of order.** Take any file tree and any rules. Two passes with the same
files and directories so far, whatever was asked of them and of their matchers before, end with
the same files and the same directories if they go through the same operations that classify, in
whatever order and however often each; and an operation answers the same wherever it stands.

So a whole collection is the same for listings that report the same paths, slashes and repetitions
apart, and for extra roots named in another order. -/
theorem classification_order_free (t : FileTree) (lines : List Text) :
    (∀ (root : Path) (suffix : Text) (files dirs : TextSet) (uses uses' : List Pass.Use)
        (calls calls' : List Pass.Call), (∀ call ∈ calls, call.Classifies) →
        (∀ call, call ∈ calls ↔ call ∈ calls') →
      let first := Pass.runAll t (.startFrom t lines root suffix files dirs uses) calls
      let second := Pass.runAll t (.startFrom t lines root suffix files dirs uses') calls'
      first.2.files = second.2.files ∧ first.2.dirs = second.2.dirs ∧
        ∃ answer : Pass.Call → Option Bool,
          first.1 = calls.map answer ∧ second.1 = calls'.map answer) ∧
    ∀ (settings : Settings) (extra : List Text) (queries queries' : List Matcher.Query),
      (∀ name, name ∈ extra ↔ name ∈ settings.extraRoots) →
      let other := { settings with extraRoots := extra }
      let m := ((Matcher.ofLines lines).askAll queries).2
      let m' := ((Matcher.ofLines lines).askAll queries').2
      collect t other (some m') = collect t settings (some m) ∧
        ∀ listing listing' : List Text,
          (∀ path, path ∈ listing.map ProjectPath.directoryForm ↔
            path ∈ listing'.map ProjectPath.directoryForm) →
          (collectListing t other m' listing').result = (collectListing t settings m listing).result
      := by
  constructor
  · -- each run joins the supremum over its operations, which is the same for both
    intro root suffix files dirs uses uses' calls calls' hcalls hsame first second
    obtain ⟨hterms, hsound⟩ := Pass.startFrom_steady t lines root suffix files dirs uses
    obtain ⟨hterms', hsound'⟩ := Pass.startFrom_steady t lines root suffix files dirs uses'
    obtain ⟨hanswers, hjoins⟩ := Pass.runAll_spec (t := t) hcalls hterms hsound
    obtain ⟨hanswers', hjoins'⟩ := Pass.runAll_spec (t := t)
      (fun call hcall => hcalls call ((hsame call).mpr hcall)) hterms' hsound'
    have hfound : first.2.found = second.2.found := by
      rw [hjoins.found, hjoins'.found]
      simp only [hsame]
      rfl
    obtain ⟨hfiles, hdirs⟩ := Pass.sets_congr hfound
    exact ⟨hfiles, hdirs, _, hanswers, hanswers'⟩
  · intro settings extra queries queries' hextra other m m'
    have hm : m.Sound := ((Matcher.sound_ofLines lines).known_askAll queries).1
    have hm' : m'.Sound := ((Matcher.sound_ofLines lines).known_askAll queries').1
    have hrules : m'.rules = m.rules := by
      rw [Matcher.rules_askAll, Matcher.rules_askAll]
    exact ⟨collectListing_congr t hextra hm hm' hrules fun _ => Iff.rfl,
      fun listing listing' h => collectListing_congr t hextra hm hm' hrules h⟩

/-- A log file below the primary root and one below an extra root. -/
def scatteredLogs : FileTree :=
  (((FileTree.empty.insert [] "Assets".toList .directory).insert ["Assets".toList] "x.log".toList
    (.file .empty 0)).insert [] "Packages".toList .directory).insert ["Packages".toList]
      "y.log".toList (.file .empty 0)

/-- Operations in two orders, and extra roots and reported paths in two orders and spellings. -/
theorem scatteredLogs_order_free :
    let root := Path.ofText ['/']
    let logs :=
      [Pass.Call.addFile "Assets/x.log".toList, .addBelow (root.resolve "Packages".toList)]
    (Pass.runAll scatteredLogs (.startFrom scatteredLogs ["*.log".toList] root
      defaultSidecarSuffix ∅ ∅ [.askPass "Assets".toList]) (logs.reverse ++ logs)).2.files.toList =
        ["Assets/x.log".toList, "Packages/y.log".toList] ∧
    (collectListing scatteredLogs
      { Settings.initial root with extraRoots := ["Packages/".toList, "Docs".toList] }
      ((Matcher.ofLines ["*.log".toList]).askAll [.isIgnored "Assets".toList]).2
      ["Assets\\x.log".toList, "Assets/x.log".toList]).result =
        ⟨["Assets/x.log".toList, "Packages/y.log".toList], []⟩ := by
  intro root logs
  obtain ⟨hcalls, hcollect⟩ := classification_order_free scatteredLogs ["*.log".toList]
  constructor
  · have hsame : ∀ call, call ∈ logs ↔ call ∈ logs.reverse ++ logs := by simp
    have hclassify : ∀ call ∈ logs, call.Classifies := by simp [logs, Pass.Call.Classifies]
    rw [← (hcalls root defaultSidecarSuffix ∅ ∅ [] [.askPass "Assets".toList] logs
      (logs.reverse ++ logs) hclassify hsame).1]
    decide +kernel
  · have hextra : ∀ name, name ∈ ["Packages/".toList, "Docs".toList] ↔
        name ∈ ["Docs".toList, "Packages/".toList] := by simp [or_comm]
    have hlisting : ∀ path, path ∈ ["Assets/x.log".toList].map ProjectPath.directoryForm ↔
        path ∈ ["Assets\\x.log".toList, "Assets/x.log".toList].map ProjectPath.directoryForm := by
      have hforms : ["Assets\\x.log".toList, "Assets/x.log".toList].map
          ProjectPath.directoryForm = ["Assets/x.log".toList, "Assets/x.log".toList] := by decide
      have hform : ["Assets/x.log".toList].map ProjectPath.directoryForm =
          ["Assets/x.log".toList] := by decide
      intro path
      rw [hforms, hform]
      simp
    rw [(hcollect { Settings.initial root with extraRoots := ["Docs".toList, "Packages/".toList] } _
      [] [.isIgnored "Assets".toList] hextra).2 _ _ hlisting]
    decide +kernel

end IgnoredPaths
