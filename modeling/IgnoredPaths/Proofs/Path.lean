import IgnoredPaths.Index
import IgnoredPaths.Proofs.Text
import Mathlib.Data.List.Basic

/-!
# The texts of paths inside a project

What is found from a directory of the project on through some names is known by one text: the
segments of the directory and the names, with slashes between them.

- `ProjectPath.descend`: this text.
- `ProjectPath.resolve_descend`: the path that the text means.
- `Path.LeadsOn`: a path goes on from a root.
- `exists_projectRelative_append`: the text of any such path, backslashes in its names included.
- `projectRelative_eq`: the text that the path gives back.
- `ProjectPath.startsWith_joinWith_iff`: which texts begin like a directory.
-/

namespace IgnoredPaths

namespace Path

theorem eq_of_segments {p q : Path} (hanchor : p.anchor = q.anchor)
    (hsegments : p.segments = q.segments) : p = q := by
  cases p
  cases q
  cases hanchor
  cases hsegments
  rfl

theorem anchorOf_eq_relative {s : Text} (h : ∀ c, s.head? = some c → c ≠ '/') :
    anchorOf s = .relative := by
  cases s with
  | nil => rfl
  | cons c s => simp [anchorOf, h c rfl]

theorem anchorOf_cons_slash (s : Text) : anchorOf ('/' :: s) ≠ .relative := by
  rw [anchorOf, List.takeWhile_cons_of_pos (by decide), List.length_cons]
  split
  · next h => cases h
  · exact nofun
  · exact nofun

/-- The path that a relative text means, seen from a directory. -/
theorem segments_resolve (root : Path) {text : Text} (h : anchorOf text = .relative) :
    (root.resolve text).anchor = root.anchor ∧
      (root.resolve text).segments = root.segments ++ segmentsOf text := by
  have hrel : (ofText text).isAbsolute = false := by simp [isAbsolute, ofText, h]
  rw [resolve, join, hrel]
  exact ⟨rfl, rfl⟩

/-- The segments that a text means, seen from a directory: those of the directory are dropped if the
text is absolute. -/
theorem segments_resolve_eq (root : Path) (text : Text) : (root.resolve text).segments =
    (if anchorOf text = .relative then root.segments else []) ++ segmentsOf text := by
  by_cases h : anchorOf text = .relative
  · rw [if_pos h, (root.segments_resolve h).2]
  · have habsolute : (ofText text).isAbsolute = true := decide_eq_true h
    rw [if_neg h, resolve, join, if_pos habsolute]
    rfl

theorem segments_extend (p : Path) {names : List Text} (h : ∀ name ∈ names, IsSegment name) :
    (p.extend names).segments = p.segments ++ names := by
  show p.segments ++ names.filter (fun n => IsSegment n) = _
  rw [List.filter_eq_self.mpr fun name hname => decide_eq_true (h name hname)]

theorem extend_nil (p : Path) : p.extend [] = p := eq_of_segments rfl (List.append_nil p.segments)

theorem extend_extend (p : Path) (names more : List Text) :
    (p.extend names).extend more = p.extend (names ++ more) := by
  refine eq_of_segments rfl ?_
  show p.segments ++ names.filter _ ++ more.filter _ = p.segments ++ (names ++ more).filter _
  rw [List.filter_append, List.append_assoc]

/-- A relative text leads on through its segments. -/
theorem resolve_eq_extend (root : Path) {text : Text} (h : anchorOf text = .relative) :
    root.resolve text = root.extend (segmentsOf text) := by
  obtain ⟨hanchor, hsegments⟩ := root.segments_resolve h
  refine eq_of_segments hanchor ?_
  rw [hsegments, segments_extend root fun _ => isSegment_of_mem_segmentsOf]

theorem segments_extend_append (p : Path) (names : List Text) {name : Text} (h : IsSegment name) :
    (p.extend (names ++ [name])).segments = (p.extend names).segments ++ [name] := by
  rw [← extend_extend, segments_extend]
  exact fun n hn => List.mem_singleton.mp hn ▸ h

theorem parent_extend (p : Path) (names : List Text) {name : Text} (h : IsSegment name) :
    (p.extend (names ++ [name])).parent = p.extend names := by
  refine eq_of_segments rfl ?_
  show (p.extend (names ++ [name])).segments.dropLast = _
  rw [segments_extend_append p names h, List.dropLast_concat]

/-- A path leads from its parent on through its last segment. -/
theorem parent_extend_of_getLast? {p : Path} {name : Text} (h : p.segments.getLast? = some name) :
    p.parent.extend [name] = p := by
  have hsegment : IsSegment name := p.meaningful name (List.mem_of_getLast? h)
  refine eq_of_segments rfl ?_
  rw [segments_extend _ fun s hs => List.mem_singleton.mp hs ▸ hsegment]
  exact List.dropLast_append_getLast? name h

/-- The name of a path that leads on is the last of the names. -/
theorem name_extend (p : Path) {names : List Text} {name : Text}
    (h : ∀ n ∈ names ++ [name], IsSegment n) : (p.extend (names ++ [name])).name = name := by
  rw [Path.name, p.segments_extend h, ← List.append_assoc, List.getLast?_concat]
  rfl

/-- What names a path last is a segment, unless there is none. -/
theorem name_eq_nil_or_isSegment (p : Path) : p.name = [] ∨ IsSegment p.name := by
  rw [Path.name]
  cases hlast : p.segments.getLast? with
  | none => exact .inl rfl
  | some name => exact .inr (p.meaningful name (List.mem_of_getLast? hlast))

theorem segmentsOf_joinWith {segments : List Text} (h : ∀ s ∈ segments, IsSegment s) :
    segmentsOf (Text.joinWith '/' segments) = segments := by
  by_cases hne : segments = []
  · subst hne
    rfl
  · rw [segmentsOf, Text.split_joinWith hne fun s hs => (h s hs).2.2, List.filter_eq_self]
    exact fun s hs => decide_eq_true ⟨(h s hs).1, (h s hs).2.1⟩

theorem anchorOf_joinWith {segments : List Text} (h : ∀ s ∈ segments, IsSegment s) :
    anchorOf (Text.joinWith '/' segments) = .relative :=
  anchorOf_eq_relative fun _ hc => Text.head?_joinWith_ne
    (fun s hs => ⟨(h s hs).1, (h s hs).2.2⟩) hc

/-- Slashes in front do not change the segments of a text. -/
theorem segmentsOf_append {front : Text} (h : ∀ c ∈ front, c = '/') (s : Text) :
    segmentsOf (front ++ s) = segmentsOf s := by
  induction front with
  | nil => rfl
  | cons c front ih =>
    obtain ⟨rfl, hfront⟩ := List.forall_mem_cons.mp h
    rw [← ih hfront, segmentsOf, List.cons_append, Text.split, if_pos rfl]
    exact List.filter_cons_of_neg (by decide)

end Path

namespace ProjectPath

/-! ## Texts of segments -/

variable {segments : List Text}

/-- Slashes that a text of segments begins or ends with would be dropped, but there are none. -/
theorem directoryForm_joinWith (h : ∀ s ∈ segments, s ≠ [] ∧ '/' ∉ s)
    (hback : ∀ s ∈ segments, '\\' ∉ s) :
    directoryForm (Text.joinWith '/' segments) = Text.joinWith '/' segments := by
  rw [directoryForm, canonical, Text.swap_eq_self '/' (Text.not_mem_joinWith (by decide) hback),
    Text.trimLeft_joinWith h, Text.trimRight_joinWith h]

/-- Slashes in front are dropped. -/
theorem directoryForm_append {front : Text} (h : ∀ c ∈ front, c = '/') (s : Text) :
    directoryForm (front ++ s) = directoryForm s := by
  have hplain : '\\' ∉ front := fun hm => absurd (h _ hm) (by decide)
  have hdrop : ∀ c ∈ front, decide (c = '/') = true := fun c hc => decide_eq_true (h c hc)
  rw [directoryForm, canonical, Text.swap_append, Text.swap_eq_self '/' hplain, Text.trimLeft,
    List.dropWhile_append_of_pos hdrop]
  rfl

theorem not_mem_directoryForm (path : Text) : '\\' ∉ directoryForm path := by
  intro h
  have hcanonical := (Text.trimRight_sublist _ _).subset h
  exact Text.not_mem_swap (by decide) path ((List.dropWhile_sublist _).subset hcanonical)

/-- A text of segments begins with a directory and a slash if the directory's segments come
first. -/
theorem startsWith_joinWith_iff {dir : List Text} (hdir : dir ≠ [])
    (hslash : ∀ s ∈ dir, '/' ∉ s) (h : ∀ s ∈ segments, '/' ∉ s) :
    Text.startsWith (Text.joinWith '/' segments) (Text.joinWith '/' dir ++ ['/']) = true ↔
      ∃ rest, rest ≠ [] ∧ segments = dir ++ rest := by
  rw [Text.startsWith, List.isPrefixOf_iff_prefix]
  constructor
  · rintro ⟨r, hr⟩
    have hne : segments ≠ [] := by
      rintro rfl
      simp [Text.joinWith] at hr
    have hsplit := congrArg (Text.split '/') hr
    rw [List.append_assoc, List.singleton_append, Text.split_append_cons,
      Text.split_joinWith hdir hslash, Text.split_joinWith hne h] at hsplit
    exact ⟨Text.split '/' r, Text.split_ne_nil '/' r, hsplit.symm⟩
  · rintro ⟨rest, hrest, rfl⟩
    rw [Text.joinWith_append hdir hrest]
    exact ⟨Text.joinWith '/' rest, by simp⟩

/-- What stands before the last slash is the text of the directory. -/
theorem beforeLast?_joinWith (hne : segments ≠ []) {name : Text} (hname : '/' ∉ name) :
    Text.beforeLast? '/' (Text.joinWith '/' (segments ++ [name])) =
      some (Text.joinWith '/' segments) := by
  have hdrop : ∀ c ∈ name.reverse, decide (c ≠ '/') = true := by
    intro c hc
    refine decide_eq_true ?_
    rintro rfl
    exact hname (List.mem_reverse.mp hc)
  rw [Text.joinWith_append hne (List.cons_ne_nil _ _), Text.joinWith, Text.beforeLast?,
    List.reverse_append, List.reverse_cons, List.append_assoc, List.dropWhile_append_of_pos hdrop]
  simp

/-- An ending without slashes is the ending of a text of segments if it is that of the last. -/
theorem endsWith_joinWith {name ending : Text} (hending : '/' ∉ ending) :
    Text.endsWith (Text.joinWith '/' (segments ++ [name])) ending = Text.endsWith name ending := by
  rw [Bool.eq_iff_iff, Text.endsWith, Text.endsWith, List.isSuffixOf_iff_suffix,
    List.isSuffixOf_iff_suffix]
  by_cases hne : segments = []
  · subst hne
    exact Iff.rfl
  · rw [Text.joinWith_append hne (List.cons_ne_nil _ _), Text.joinWith]
    constructor
    · intro h
      -- an ending that is longer than the name would hold the slash before it
      rcases List.suffix_or_suffix_of_suffix h (List.suffix_append _ ('/' :: name)) with h | h
      · rcases List.suffix_cons_iff.mp h with rfl | h
        · exact absurd List.mem_cons_self hending
        · exact h
      · exact absurd (h.subset List.mem_cons_self) hending
    · exact fun h => h.trans ((List.suffix_cons _ _).trans (List.suffix_append _ _))

/-! ## Descending -/

/-- The text of what is found from a directory on through some names. -/
def descend (dir : Text) (names : List Text) : Text :=
  Text.joinWith '/' (Path.segmentsOf dir ++ names)

variable {dir : Text} {names : List Text}

theorem isSegment_descend (h : ∀ name ∈ names, IsSegment name) :
    ∀ s ∈ Path.segmentsOf dir ++ names, IsSegment s :=
  fun s hs => (List.mem_append.mp hs).elim Path.isSegment_of_mem_segmentsOf (h s)

theorem segmentsOf_descend (h : ∀ name ∈ names, IsSegment name) :
    Path.segmentsOf (descend dir names) = Path.segmentsOf dir ++ names :=
  Path.segmentsOf_joinWith (isSegment_descend h)

/-- The text of what is found tells the names on the way. -/
theorem descend_inj {more : List Text} (h : ∀ name ∈ names, IsSegment name)
    (hmore : ∀ name ∈ more, IsSegment name) (heq : descend dir names = descend dir more) :
    names = more := by
  have hsegments := congrArg Path.segmentsOf heq
  rw [segmentsOf_descend h, segmentsOf_descend hmore] at hsegments
  exact List.append_cancel_left hsegments

theorem descend_descend {more : List Text} (h : ∀ name ∈ names, IsSegment name) :
    descend (descend dir names) more = descend dir (names ++ more) := by
  rw [descend, segmentsOf_descend h, List.append_assoc]
  rfl

theorem anchorOf_descend (h : ∀ name ∈ names, IsSegment name) :
    Path.anchorOf (descend dir names) = .relative :=
  Path.anchorOf_joinWith (isSegment_descend h)

/-- The path that the text of what is found from a directory on means. -/
theorem resolve_descend (root : Path) (hdir : Path.anchorOf dir = .relative)
    (h : ∀ name ∈ names, IsSegment name) :
    root.resolve (descend dir names) = (root.resolve dir).extend names := by
  obtain ⟨hanchor, hsegments⟩ := root.segments_resolve (anchorOf_descend h)
  obtain ⟨hanchor', hsegments'⟩ := root.segments_resolve hdir
  refine Path.eq_of_segments (hanchor.trans hanchor'.symm) ?_
  rw [hsegments, segmentsOf_descend h, Path.segments_extend _ h, hsegments', List.append_assoc]

/-! ## Texts seen from a root -/

theorem not_mem_relative (root path : Text) : '\\' ∉ relative root path := by
  have hswap := Text.not_mem_swap (by decide : '/' ≠ '\\') path
  simp only [relative]
  split
  · exact fun h => hswap (List.drop_subset _ _ h)
  · exact hswap

/-- Slashes at the end of a text make no difference where slashes are put for backslashes and those
at the end are dropped. -/
theorem trimRight_swap (s : Text) : Text.trimRight (· = '/') (Text.swap '\\' '/' s) =
    Text.trimRight (· = '/') (Text.swap '\\' '/' (Text.trimRight (· = '/') s)) := by
  obtain ⟨back, hback, hslashes⟩ := Text.exists_trimRight_append (· = '/') s
  have hplain : '\\' ∉ back := fun h => absurd (hslashes _ h) (by decide)
  conv_lhs => rw [hback, Text.swap_append, Text.swap_eq_self '/' hplain]
  exact Text.trimRight_append _ hslashes

/-- A text without slashes at its end has one there, once slashes are put for backslashes, if it ends
with a backslash. -/
theorem trimRight_swap_eq_self_iff (s : Text) :
    Text.trimRight (· = '/') (Text.swap '\\' '/' (Text.trimRight (· = '/') s)) =
        Text.swap '\\' '/' (Text.trimRight (· = '/') s) ↔
      (Text.trimRight (· = '/') s).getLast? ≠ some '\\' := by
  have hlast : (Text.swap '\\' '/' (Text.trimRight (· = '/') s)).getLast? =
      (Text.trimRight (· = '/') s).getLast?.map fun c => if c = '\\' then '/' else c :=
    List.getLast?_map
  constructor
  · intro hkept hends
    rw [hends, ← hkept] at hlast
    exact absurd (Text.getLast?_trimRight hlast) (by decide)
  · refine fun hends => Text.trimRight_eq_self fun c hc => ?_
    rw [hlast] at hc
    obtain ⟨d, hd, rfl⟩ := Option.map_eq_some_iff.mp hc
    rw [if_neg fun hd' : d = '\\' => hends (hd' ▸ hd)]
    exact Text.getLast?_trimRight hd

/-- What follows the root and a slash is seen from the root as it is, but for slashes in place of
backslashes, and more of them in front if the root ends with backslashes. -/
theorem exists_relative_append (root : Text) : ∃ front : Text, (∀ c ∈ front, c = '/') ∧
    (front = [] ↔ (Text.trimRight (· = '/') root).getLast? ≠ some '\\') ∧
    ∀ rest, relative root (Text.trimRight (· = '/') root ++ '/' :: rest) =
      front ++ Text.swap '\\' '/' rest := by
  obtain ⟨front, hfront, hslashes⟩ := Text.exists_trimRight_append (· = '/')
    (Text.swap '\\' '/' (Text.trimRight (· = '/') root))
  have hslash : ∀ c ∈ front, c = '/' := fun c hc => of_decide_eq_true (hslashes c hc)
  refine ⟨front, hslash, ?_, fun rest => ?_⟩
  · rw [← trimRight_swap_eq_self_iff]
    constructor
    · intro hnil
      rw [hnil, List.append_nil] at hfront
      exact hfront.symm
    · intro hkept
      rw [hkept] at hfront
      exact List.self_eq_append_right.mp hfront
  · -- slashes may change places
    have hturn : front ++ ['/'] = '/' :: front := by
      rw [List.eq_replicate_of_mem hslash]
      exact List.replicate_succ'.symm
    have hpath : Text.swap '\\' '/' (Text.trimRight (· = '/') root ++ '/' :: rest) =
        (Text.trimRight (· = '/') (Text.swap '\\' '/' root) ++ ['/']) ++
          (front ++ Text.swap '\\' '/' rest) := by
      rw [Text.swap_append, hfront, trimRight_swap root, List.append_assoc, List.append_assoc,
        ← List.append_assoc ['/'], List.singleton_append, ← hturn, List.append_assoc]
      rfl
    have hstart : Text.startsWith
        (Text.swap '\\' '/' (Text.trimRight (· = '/') root ++ '/' :: rest))
        (Text.trimRight (· = '/') (Text.swap '\\' '/' root) ++ ['/']) = true :=
      List.isPrefixOf_iff_prefix.mpr ⟨_, hpath.symm⟩
    simp only [relative, hstart, if_true]
    rw [hpath, List.drop_left]

end ProjectPath

/-! ## The text of a path in the project -/

variable {root path : Path} {rest : List Text}

/-- A path leads on from a root through some segments, at least one. -/
structure Path.LeadsOn (root path : Path) (rest : List Text) : Prop where
  anchor : path.anchor = root.anchor
  segments : path.segments = root.segments ++ rest
  ne_nil : rest ≠ []

theorem Path.LeadsOn.isSegment (h : root.LeadsOn path rest) : ∀ s ∈ rest, IsSegment s :=
  fun s hs => path.meaningful s (h.segments ▸ List.mem_append_right _ hs)

/-- What a relative text with segments means leads on from the directory where it is read. -/
theorem Path.leadsOn_resolve {text : Text} (h : anchorOf text = .relative)
    (hne : segmentsOf text ≠ []) : root.LeadsOn (root.resolve text) (segmentsOf text) :=
  ⟨(root.segments_resolve h).1, (root.segments_resolve h).2, hne⟩

/-- The texts of paths that start at one place begin alike, before their segments. -/
theorem Path.exists_toText_eq (hanchor : path.anchor = root.anchor) (hpath : path.segments ≠ [])
    (hroot : root.segments ≠ []) :
    ∃ front, root.toText = front ++ Text.joinWith '/' root.segments ∧
      path.toText = front ++ Text.joinWith '/' path.segments := by
  simp only [toText, hanchor, hpath, hroot, if_false]
  cases root.anchor with
  | relative => exact ⟨[], rfl, rfl⟩
  | root => exact ⟨['/'], rfl, rfl⟩
  | doubleRoot => exact ⟨['/', '/'], rfl, rfl⟩

/-- A path ends with a backslash, so that its text does when slashes are put for backslashes. -/
def Path.EndsInBackslash (p : Path) : Prop := p.name.getLast? = some '\\'

instance (p : Path) : Decidable p.EndsInBackslash := inferInstanceAs (Decidable (_ = _))

/-- Then its last segment holds one. -/
theorem Path.EndsInBackslash.exists_segments {p : Path} (h : p.EndsInBackslash) :
    ∃ outer last, p.segments = outer ++ [last] ∧ '\\' ∈ last := by
  rcases List.eq_nil_or_concat' p.segments with hnil | ⟨outer, last, hsegments⟩
  · rw [EndsInBackslash, name, hnil] at h
    cases h
  · rw [EndsInBackslash, name, hsegments, List.getLast?_concat] at h
    exact ⟨outer, last, hsegments, List.mem_of_getLast? h⟩

/-- The text of a path ends like that of its last segment. -/
theorem Path.getLast?_toText {p : Path} (h : p.segments ≠ []) :
    p.toText.getLast? = p.name.getLast? := by
  obtain ⟨front, htext, -⟩ := @exists_toText_eq p p rfl h h
  obtain ⟨outer, last, hsegments⟩ := (List.eq_nil_or_concat' p.segments).resolve_left h
  have hname : p.name = last := by rw [Path.name, hsegments, List.getLast?_concat, Option.getD_some]
  have hne : last ≠ [] := (p.meaningful last (hsegments ▸ List.mem_append_right _
    List.mem_cons_self)).1
  rw [htext, List.getLast?_append, hsegments, Text.getLast?_joinWith_append hne, hname]
  cases hlast : last.getLast? with
  | none => exact absurd (List.getLast?_eq_none_iff.mp hlast) hne
  | some c => rfl

/-- So it ends with no slash. -/
theorem Path.trimRight_toText {p : Path} (h : p.segments ≠ []) :
    Text.trimRight (· = '/') p.toText = p.toText := by
  refine Text.trimRight_eq_self fun c hc => decide_eq_false ?_
  rintro rfl
  rw [getLast?_toText h] at hc
  rcases p.name_eq_nil_or_isSegment with hnil | hsegment
  · rw [hnil] at hc
    cases hc
  · exact hsegment.2.2 (List.mem_of_getLast? hc)

/-- The text of a path that leads on from the root begins with the text of the root and a slash,
unless the root names nothing. -/
theorem Path.LeadsOn.toText_eq_append (h : root.LeadsOn path rest)
    (hroot : root.toText ≠ ['/', '/']) (hnamed : root.anchor = .relative → root.segments ≠ []) :
    path.toText = Text.trimRight (· = '/') root.toText ++ '/' :: Text.joinWith '/' rest := by
  obtain ⟨hanchor, hpath, hrest⟩ := h
  by_cases hnil : root.segments = []
  · rw [hnil, List.nil_append] at hpath
    cases hstart : root.anchor with
    | relative => exact absurd hnil (hnamed hstart)
    | root =>
      simp only [toText, hanchor, hstart, hnil, hpath]
      rfl
    | doubleRoot => exact absurd (by simp [toText, hstart, hnil, Text.joinWith]) hroot
  · have hne : path.segments ≠ [] := by
      rw [hpath]
      exact List.append_ne_nil_of_left_ne_nil hnil rest
    obtain ⟨front, hrootText, hpathText⟩ := exists_toText_eq hanchor hne hnil
    rw [trimRight_toText hnil, hpathText, hrootText, hpath, Text.joinWith_append hnil hrest,
      List.append_assoc]

/-- A path that starts with one slash is not written as two slashes alone. -/
theorem Path.toText_ne_of_anchor {p : Path} (h : p.anchor = .root) : p.toText ≠ ['/', '/'] := by
  intro htext
  rw [toText, h] at htext
  have hbody : Text.joinWith '/' p.segments = ['/'] := List.cons_injective htext
  have hplain : ∀ s ∈ p.segments, s ≠ [] ∧ '/' ∉ s :=
    fun s hs => ⟨(p.meaningful s hs).1, (p.meaningful s hs).2.2⟩
  exact Text.head?_joinWith_ne hplain (congrArg List.head? hbody) rfl

/-- A root that is written as two slashes alone has no segments. -/
theorem Path.segments_of_toText {p : Path} (h : p.toText = ['/', '/']) :
    p.anchor = .doubleRoot ∧ p.segments = [] := by
  have hplain : ∀ s ∈ p.segments, s ≠ [] ∧ '/' ∉ s :=
    fun s hs => ⟨(p.meaningful s hs).1, (p.meaningful s hs).2.2⟩
  cases hanchor : p.anchor with
  | root => exact absurd h (toText_ne_of_anchor hanchor)
  | relative =>
    simp only [toText, hanchor] at h
    split at h
    · cases h
    · exact absurd rfl (Text.head?_joinWith_ne hplain (congrArg List.head? h))
  | doubleRoot =>
    simp only [toText, hanchor] at h
    have hempty := List.cons_injective (List.cons_injective h)
    by_contra hne
    exact Text.joinWith_ne_nil (fun hnil => hne ⟨rfl, hnil⟩) (fun s hs => (hplain s hs).1) hempty

theorem Path.exists_mem_of_mem_toText {p : Path} {c : Char} (hslash : c ≠ '/') (hdot : c ≠ '.')
    (h : c ∈ p.toText) : ∃ s ∈ p.segments, c ∈ s := by
  have hbody : c ∈ Text.joinWith '/' p.segments := by
    rw [toText] at h
    split at h
    · split at h
      · exact absurd (List.mem_singleton.mp h) hdot
      · exact h
    · simpa [hslash] using h
    · simpa [hslash] using h
  exact (Text.mem_joinWith hbody).resolve_left hslash

/-- Where the text of a root that is no dot and not two slashes alone ends with a backslash, so does
the root. -/
theorem Path.endsInBackslash_iff {root : Path} (hdouble : root.toText ≠ ['/', '/'])
    (hnamed : root.anchor = .relative → root.segments ≠ []) :
    root.EndsInBackslash ↔ (Text.trimRight (· = '/') root.toText).getLast? = some '\\' := by
  rw [EndsInBackslash]
  by_cases hnil : root.segments = []
  · have htext : root.toText = ['/'] := by
      cases hstart : root.anchor with
      | relative => exact absurd hnil (hnamed hstart)
      | root => simp only [toText, hstart, hnil, Text.joinWith]
      | doubleRoot =>
        refine absurd ?_ hdouble
        simp only [toText, hstart, hnil, Text.joinWith]
    rw [htext, name, hnil]
    decide
  · rw [trimRight_toText hnil, getLast?_toText hnil]

/-- How the project knows a path that leads on from the root: by what follows the root, with slashes
in place of backslashes. More slashes stand in front if the root is written as two slashes alone or
ends with a backslash. Where the root is written as a dot, another dot and slash at the beginning
would be taken for it. -/
theorem exists_projectRelative_append (root : Path) : ∃ front : Text, (∀ c ∈ front, c = '/') ∧
    (front = [] ↔ root.toText ≠ ['/', '/'] ∧ ¬ root.EndsInBackslash) ∧
    ∀ path rest, root.LeadsOn path rest →
      Text.startsWith (Text.swap '\\' '/' (Text.joinWith '/' rest)) (hereSegment ++ ['/']) = false →
        projectRelative root path = front ++ Text.swap '\\' '/' (Text.joinWith '/' rest) := by
  by_cases hdouble : root.toText = ['/', '/']
  · -- one of the two slashes is left over
    obtain ⟨hstart, hnil⟩ := Path.segments_of_toText hdouble
    refine ⟨['/'], fun c hc => List.mem_singleton.mp hc, ?_, fun path rest h _ => ?_⟩
    · exact iff_of_false (List.cons_ne_nil _ _) fun h => h.1 hdouble
    · have hpathText : path.toText = '/' :: '/' :: Text.joinWith '/' rest := by
        simp only [Path.toText, h.anchor, hstart, h.segments, hnil, List.nil_append]
      rw [projectRelative, hdouble, hpathText]
      rfl
  · by_cases hnamed : root.anchor = .relative ∧ root.segments = []
    · -- the root is written as a dot
      obtain ⟨hstart, hnil⟩ := hnamed
      have hname : ¬ root.EndsInBackslash := by
        rw [Path.EndsInBackslash, Path.name, hnil]
        exact nofun
      refine ⟨[], nofun, iff_of_true rfl ⟨hdouble, hname⟩, fun path rest h hstay => ?_⟩
      have hpathText : path.toText = Text.joinWith '/' rest := by
        simp only [Path.toText, h.anchor, hstart, h.segments, hnil, List.nil_append, h.ne_nil,
          if_false]
      have hrootText : root.toText = hereSegment := by
        simp only [Path.toText, hstart, hnil, if_true]
      rw [projectRelative, hpathText, hrootText]
      exact if_neg (Bool.eq_false_iff.mp hstay)
    · have hsome : root.anchor = .relative → root.segments ≠ [] :=
        fun hstart hnil => hnamed ⟨hstart, hnil⟩
      obtain ⟨front, hslashes, hfront, hrelative⟩ := ProjectPath.exists_relative_append root.toText
      refine ⟨front, hslashes, ?_, fun path rest h _ => ?_⟩
      · rw [hfront, and_iff_right hdouble, Path.endsInBackslash_iff hdouble hsome]
      · rw [projectRelative, h.toText_eq_append hdouble hsome]
        exact hrelative _

/-- If no name behind the root holds a backslash, what follows the root stays as it is. -/
theorem exists_projectRelative_eq (root : Path) : ∃ front : Text, (∀ c ∈ front, c = '/') ∧
    (front = [] ↔ root.toText ≠ ['/', '/'] ∧ ¬ root.EndsInBackslash) ∧
    ∀ path rest, root.LeadsOn path rest → (∀ s ∈ rest, '\\' ∉ s) →
      projectRelative root path = front ++ Text.joinWith '/' rest := by
  obtain ⟨front, hslashes, hfront, hrelative⟩ := exists_projectRelative_append root
  refine ⟨front, hslashes, hfront, fun path rest h hback => ?_⟩
  -- no segment is a dot
  have hstay : Text.startsWith (Text.joinWith '/' rest)
      (Text.joinWith '/' [hereSegment] ++ ['/']) = false := by
    refine Bool.eq_false_iff.mpr fun hstart => ?_
    obtain ⟨_, -, hdot⟩ := (ProjectPath.startsWith_joinWith_iff (List.cons_ne_nil _ _)
      (by decide) fun s hs => (h.isSegment s hs).2.2).mp hstart
    exact (h.isSegment hereSegment (hdot ▸ List.mem_cons_self)).2.1 rfl
  have htext := hrelative path rest h
  rw [Text.swap_eq_self '/' (Text.not_mem_joinWith (by decide) hback)] at htext
  exact htext hstay

/-- A path that leads on from the root is known to the project by what follows the root. -/
theorem projectRelative_eq (h : root.LeadsOn path rest) (hroot : root.toText ≠ ['/', '/'])
    (hback : ∀ s ∈ path.segments, '\\' ∉ s) :
    projectRelative root path = Text.joinWith '/' rest := by
  obtain ⟨front, -, hfront, hrelative⟩ := exists_projectRelative_eq root
  rw [h.segments, List.forall_mem_append] at hback
  have hends : ¬ root.EndsInBackslash := by
    intro hends
    obtain ⟨outer, last, hsegments, hlast⟩ := hends.exists_segments
    exact hback.1 last (hsegments ▸ List.mem_append_right outer List.mem_cons_self) hlast
  rw [hrelative path rest h hback.2, hfront.mpr ⟨hroot, hends⟩, List.nil_append]

/-- The project reads its own root, if that is absolute, as the names that lead to it. -/
theorem directoryForm_projectRelative_self (hroot : root.anchor = .root)
    (hback : ∀ s ∈ root.segments, '\\' ∉ s) :
    ProjectPath.directoryForm (projectRelative root root) = Text.joinWith '/' root.segments := by
  have hplain : ∀ s ∈ root.segments, s ≠ [] ∧ '/' ∉ s :=
    fun s hs => ⟨(root.meaningful s hs).1, (root.meaningful s hs).2.2⟩
  have htext : root.toText = '/' :: Text.joinWith '/' root.segments := by rw [Path.toText, hroot]
  by_cases hnil : root.segments = []
  · rw [projectRelative, htext, hnil]
    rfl
  · have hswap : '\\' ∉ root.toText := by
      intro h
      obtain ⟨s, hs, h⟩ := Path.exists_mem_of_mem_toText (by decide) (by decide) h
      exact hback s hs h
    have hstay : Text.startsWith root.toText (root.toText ++ ['/']) = false := by
      refine Bool.eq_false_iff.mpr fun h => ?_
      have hlength := (List.isPrefixOf_iff_prefix.mp h).length_le
      rw [List.length_append, List.length_singleton] at hlength
      omega
    have hself : projectRelative root root = root.toText := by
      simp only [projectRelative, ProjectPath.relative, Text.swap_eq_self '/' hswap,
        Path.trimRight_toText hnil, hstay, Bool.false_eq_true, if_false]
    have htrim : Text.trimLeft (· = '/') root.toText = Text.joinWith '/' root.segments := by
      rw [htext]
      exact Text.trimLeft_joinWith hplain
    rw [hself, ProjectPath.directoryForm, ProjectPath.canonical, Text.swap_eq_self '/' hswap, htrim,
      Text.trimRight_joinWith hplain]

end IgnoredPaths
