import IgnoredPaths.Proofs.CheckedConfig
import IgnoredPaths.Proofs.DryRun

/-!
# Primary roots that lead back to the project

The check of a configuration refuses a primary root of which trimming leaves nothing, since this
would be the project itself. A root of which something is left can still be the project: where it
consists of dots, or where segments that lead up take back those before them.

- `Path.leftOf`: what is left of segments when those that lead up take back those before them.
- `Path.LeadsBack`, `Path.leftOf_eq_nil_iff`: when nothing is left.
- `Step.blindly_leftOf`: what is left leads where all segments lead.
- `checkedConfig_primaryRoot`: when the primary root of a checked configuration is the project.
- `checkedConfig_ofHere`: a primary root that is the project, and passes the check.
-/

namespace IgnoredPaths

namespace Path

/-- The segments that are kept, the last one first, after one more segment. One that leads up takes
back the last that is kept, unless there is none or that one leads up as well. -/
def takeBack (kept : List Text) (s : Text) : List Text :=
  if s = upSegment then
    match kept with
    | [] => [upSegment]
    | last :: before => if last = upSegment then upSegment :: last :: before else before
  else s :: kept

/-- What is left of segments when those that lead up take back those before them. -/
def leftOf (segments : List Text) : List Text := (segments.foldl takeBack []).reverse

/-- As many segments lead up as lead down, and on the way there are never more that lead up. -/
structure LeadsBack (segments : List Text) : Prop where
  stays : ∀ front, front <+: segments → 2 * front.count upSegment ≤ front.length
  returns : 2 * segments.count upSegment = segments.length

/-! ## One segment -/

section

variable {kept : List Text} {s : Text}

theorem takeBack_down (h : s ≠ upSegment) (kept : List Text) : takeBack kept s = s :: kept :=
  if_neg h

theorem takeBack_up {last : Text} (h : last ≠ upSegment) (before : List Text) :
    takeBack (last :: before) upSegment = before := by
  unfold takeBack
  rw [if_pos rfl]
  exact if_neg h

/-- Where everything that is kept leads up, there is nothing to take back. -/
theorem takeBack_up_replicate (k : Nat) :
    takeBack (List.replicate k upSegment) upSegment = List.replicate (k + 1) upSegment := by
  cases k with
  | zero => rfl
  | succ k => rfl

/-- A segment that leads up is never taken back. -/
theorem upSegment_mem_takeBack (h : upSegment ∈ kept) (s : Text) : upSegment ∈ takeBack kept s := by
  by_cases hs : s = upSegment
  · subst hs
    cases kept with
    | nil => cases h
    | cons last before =>
      by_cases hlast : last = upSegment
      · subst hlast
        exact List.mem_cons_self
      · rw [takeBack_up hlast]
        exact (List.mem_cons.mp h).resolve_left (Ne.symm hlast)
  · rw [takeBack_down hs]
    exact List.mem_cons_of_mem s h

theorem takeBack_subset (kept : List Text) (s : Text) : takeBack kept s ⊆ s :: kept := by
  unfold takeBack
  split
  · next hs =>
    subst hs
    split
    · exact List.Subset.refl _
    · split
      · exact List.Subset.refl _
      · exact fun r hr => List.mem_cons_of_mem _ (List.mem_cons_of_mem _ hr)
  · exact List.Subset.refl _

/-- Segments that lead up are kept only before all others. -/
def Straight (kept : List Text) : Prop :=
  ∃ names k, kept = names ++ List.replicate k upSegment ∧ upSegment ∉ names

theorem Straight.takeBack (h : Straight kept) (s : Text) : Straight (takeBack kept s) := by
  obtain ⟨names, k, rfl, hnames⟩ := h
  by_cases hs : s = upSegment
  · subst hs
    cases names with
    | nil => exact ⟨[], k + 1, takeBack_up_replicate k, List.not_mem_nil⟩
    | cons last before =>
      obtain ⟨hlast, hbefore⟩ := List.ne_and_not_mem_of_not_mem_cons hnames
      exact ⟨before, k, takeBack_up (Ne.symm hlast) _, hbefore⟩
  · exact ⟨s :: names, k, takeBack_down hs _, List.not_mem_cons_of_ne_of_not_mem (Ne.symm hs) hnames⟩

end

/-! ## All segments -/

section

variable {kept segments : List Text}

theorem upSegment_mem_foldl_takeBack (h : upSegment ∈ kept) (segments : List Text) :
    upSegment ∈ segments.foldl takeBack kept := by
  induction segments generalizing kept with
  | nil => exact h
  | cons s rest ih => exact ih (upSegment_mem_takeBack h s)

theorem forall_prefix_cons_iff {s : Text} {P : List Text → Prop} :
    (∀ front, front <+: s :: segments → P front) ↔
      P [] ∧ ∀ front, front <+: segments → P (s :: front) := by
  constructor
  · exact fun h =>
      ⟨h [] List.nil_prefix, fun front hfront => h _ ((List.prefix_cons_inj s).mpr hfront)⟩
  · rintro ⟨hnil, hcons⟩ front hfront
    rcases List.prefix_cons_iff.mp hfront with rfl | ⟨more, rfl, hmore⟩
    · exact hnil
    · exact hcons more hmore

/-- Nothing is kept in the end if there is something to take back for each segment that leads up,
and everything is taken back. The number of segments that are kept is the lead of those that lead
down. -/
theorem foldl_takeBack_eq_nil_iff (hkept : upSegment ∉ kept) :
    segments.foldl takeBack kept = [] ↔
      (∀ front, front <+: segments → 2 * front.count upSegment ≤ kept.length + front.length) ∧
        2 * segments.count upSegment = kept.length + segments.length := by
  -- what is kept grows or shrinks by one with each segment, and the bounds are moved along
  induction segments generalizing kept with
  | nil =>
    constructor
    · rintro rfl
      exact ⟨fun front hfront => by rw [List.prefix_nil.mp hfront]; rfl, rfl⟩
    · rintro ⟨-, hcount⟩
      exact List.eq_nil_of_length_eq_zero hcount.symm
  | cons s rest ih =>
    rw [List.foldl_cons, forall_prefix_cons_iff]
    by_cases hs : s = upSegment
    · subst hs
      cases kept with
      | nil =>
        -- the first segment is never taken back
        constructor
        · intro hnil
          have hup : upSegment ∈ rest.foldl takeBack [upSegment] :=
            upSegment_mem_foldl_takeBack List.mem_cons_self rest
          rw [show takeBack [] upSegment = [upSegment] from rfl] at hnil
          rw [hnil] at hup
          cases hup
        · rintro ⟨⟨-, hstays⟩, -⟩
          exact absurd (hstays [] List.nil_prefix) (by decide)
      | cons last before =>
        obtain ⟨hlast, hbefore⟩ := List.ne_and_not_mem_of_not_mem_cons hkept
        rw [takeBack_up (Ne.symm hlast), ih hbefore]
        simp only [List.count_cons_self, List.length_cons]
        refine and_congr ⟨fun hstays => ⟨Nat.zero_le _, fun front hfront => ?_⟩,
          fun hstays front hfront => ?_⟩ (by omega)
        · have hfront := hstays front hfront
          omega
        · have hfront := hstays.2 front hfront
          omega
    · rw [takeBack_down hs, ih (List.not_mem_cons_of_ne_of_not_mem (Ne.symm hs) hkept)]
      simp only [List.count_cons_of_ne hs, List.length_cons]
      refine and_congr ⟨fun hstays => ⟨Nat.zero_le _, fun front hfront => ?_⟩,
        fun hstays front hfront => ?_⟩ (by omega)
      · have hfront := hstays front hfront
        omega
      · have hfront := hstays.2 front hfront
        omega

/-- Nothing is left exactly of segments that lead back. -/
theorem leftOf_eq_nil_iff : leftOf segments = [] ↔ LeadsBack segments := by
  unfold leftOf
  rw [List.reverse_eq_nil_iff, foldl_takeBack_eq_nil_iff List.not_mem_nil]
  simp only [List.length_nil, Nat.zero_add]
  exact ⟨fun ⟨hstays, hreturns⟩ => ⟨hstays, hreturns⟩, fun h => ⟨h.stays, h.returns⟩⟩

theorem foldl_takeBack_of_not_mem (h : upSegment ∉ segments) (kept : List Text) :
    segments.foldl takeBack kept = segments.reverse ++ kept := by
  induction segments generalizing kept with
  | nil => rfl
  | cons s rest ih =>
    obtain ⟨hs, hrest⟩ := List.ne_and_not_mem_of_not_mem_cons h
    rw [List.foldl_cons, takeBack_down (Ne.symm hs), ih hrest, List.reverse_cons, List.append_assoc]
    rfl

/-- Everything is left where no segment leads up. -/
theorem leftOf_eq_self (h : upSegment ∉ segments) : leftOf segments = segments := by
  rw [leftOf, foldl_takeBack_of_not_mem h, List.append_nil, List.reverse_reverse]

theorem Straight.foldl_takeBack (h : Straight kept) (segments : List Text) :
    Straight (segments.foldl Path.takeBack kept) := by
  induction segments generalizing kept with
  | nil => exact h
  | cons s rest ih => exact ih (h.takeBack s)

/-- What is left leads up first, and then down. -/
theorem exists_leftOf_eq (segments : List Text) : ∃ k names,
    leftOf segments = List.replicate k upSegment ++ names ∧ upSegment ∉ names := by
  have hnil : Straight [] := ⟨[], 0, rfl, List.not_mem_nil⟩
  obtain ⟨names, k, hleft, hnames⟩ := hnil.foldl_takeBack segments
  refine ⟨k, names.reverse, ?_, fun hup => hnames (List.mem_reverse.mp hup)⟩
  rw [leftOf, hleft, List.reverse_append, List.reverse_replicate]

theorem foldl_takeBack_subset (kept segments : List Text) :
    segments.foldl takeBack kept ⊆ segments ++ kept := by
  induction segments generalizing kept with
  | nil => exact List.Subset.refl kept
  | cons s rest ih =>
    intro r hr
    rcases List.mem_append.mp (ih _ hr) with hrest | hkept
    · exact List.mem_append_left _ (List.mem_cons_of_mem s hrest)
    · rcases List.mem_cons.mp (takeBack_subset kept s hkept) with rfl | hkept
      · exact List.mem_append_left _ List.mem_cons_self
      · exact List.mem_append_right _ hkept

theorem leftOf_subset (segments : List Text) : leftOf segments ⊆ segments := by
  intro s hs
  have hkept := foldl_takeBack_subset [] segments (List.mem_reverse.mp hs)
  rwa [List.append_nil] at hkept

end

end Path

/-! ## Where they lead -/

namespace Step

variable {kept segments : List Text}

/-- One who follows what is kept ends where one ends who follows the last segment as well. -/
theorem blindly_takeBack (hkept : ∀ r ∈ kept, IsSegment r) (l : Location) (s : Text) :
    blindly l ((Path.takeBack kept s).reverse.map ofPiece) =
      blindly l ((kept.reverse ++ [s]).map ofPiece) := by
  by_cases hs : s = upSegment
  · subst hs
    cases kept with
    | nil => rfl
    | cons last before =>
      by_cases hlast : last = upSegment
      · -- nothing is taken back
        subst hlast
        exact congrArg (fun r => blindly l (r.map ofPiece)) List.reverse_cons
      · -- to go down by a name and up again is to stay
        have hname : ofPiece last = .name last :=
          ofPiece_eq_name (hkept last List.mem_cons_self) hlast
        rw [Path.takeBack_up hlast, List.reverse_cons, List.append_assoc, List.map_append,
          blindly_append]
        show _ = blindly _ [ofPiece last, .up]
        rw [hname]
        rfl
  · rw [Path.takeBack_down hs, List.reverse_cons]

theorem blindly_foldl_takeBack (hkept : ∀ r ∈ kept, IsSegment r)
    (hsegments : ∀ s ∈ segments, IsSegment s) (l : Location) :
    blindly l ((segments.foldl Path.takeBack kept).reverse.map ofPiece) =
      blindly l ((kept.reverse ++ segments).map ofPiece) := by
  induction segments generalizing kept with
  | nil => rw [List.foldl_nil, List.append_nil]
  | cons s rest ih =>
    have hnext : ∀ r ∈ Path.takeBack kept s, IsSegment r := by
      intro r hr
      rcases List.mem_cons.mp (Path.takeBack_subset kept s hr) with rfl | hr
      · exact hsegments r List.mem_cons_self
      · exact hkept r hr
    rw [List.foldl_cons, ih hnext fun r hr => hsegments r (List.mem_cons_of_mem s hr),
      List.map_append, blindly_append, blindly_takeBack hkept, ← blindly_append, ← List.map_append,
      List.append_assoc, List.singleton_append]

/-- What is left leads where all segments lead. -/
theorem blindly_leftOf (h : ∀ s ∈ segments, IsSegment s) (l : Location) :
    blindly l ((Path.leftOf segments).map ofPiece) = blindly l (segments.map ofPiece) :=
  blindly_foldl_takeBack (fun _ hr => absurd hr List.not_mem_nil) h l

theorem blindly_up (l : Location) (k : Nat) : blindly l (List.replicate k .up) = l.drop k := by
  induction k generalizing l with
  | zero => rfl
  | succ k ih =>
    rw [List.replicate_succ, blindly, ih, List.drop_tail]

/-- Segments that lead up, and then down by names. -/
theorem blindly_up_names (l : Location) (k : Nat) {names : List Text}
    (h : ∀ name ∈ names, LeadsDown name) :
    blindly l ((List.replicate k upSegment ++ names).map ofPiece) = names.reverse ++ l.drop k := by
  have hnames : names.map ofPiece = names.map .name :=
    List.map_congr_left fun name hname => ofPiece_eq_name (h name hname).1 (h name hname).2
  rw [List.map_append, hnames, List.map_replicate, blindly_append, blindly_names]
  exact congrArg _ (blindly_up l k)

/-- Segments lead back to where they start exactly if what is left of them leads up by some
directories and down again by the names of these. -/
theorem blindly_eq_self_iff {l : Location} (hl : ∀ name ∈ l, LeadsDown name)
    (h : ∀ s ∈ segments, IsSegment s) : blindly l (segments.map ofPiece) = l ↔
      ∃ k, Path.leftOf segments = List.replicate k upSegment ++ (l.take k).reverse := by
  rw [← blindly_leftOf h]
  constructor
  · intro hback
    obtain ⟨k, names, hleft, hnames⟩ := Path.exists_leftOf_eq segments
    have hdown : ∀ name ∈ names, LeadsDown name := fun name hname =>
      ⟨h name (Path.leftOf_subset segments (hleft ▸ List.mem_append_right _ hname)),
        fun hup => hnames (hup ▸ hname)⟩
    rw [hleft, blindly_up_names l k hdown] at hback
    -- the rest of the location stays, so the names are those of the part that was left
    have htake : names.reverse = l.take k :=
      List.append_cancel_right (hback.trans (List.take_append_drop k l).symm)
    exact ⟨k, by rw [hleft, ← htake, List.reverse_reverse]⟩
  · rintro ⟨k, hleft⟩
    have hdown : ∀ name ∈ (l.take k).reverse, LeadsDown name := fun name hname =>
      hl name (List.take_subset k l (List.mem_reverse.mp hname))
    rw [hleft, blindly_up_names l k hdown, List.reverse_reverse, List.take_append_drop]

/-- One comes only to locations that are made of names. -/
theorem leadsDown_of_mem_blindly {l : Location} (hl : ∀ name ∈ l, LeadsDown name)
    (h : ∀ s ∈ segments, IsSegment s) {name : Text}
    (hname : name ∈ blindly l (segments.map ofPiece)) : LeadsDown name := by
  induction segments generalizing l with
  | nil => exact hl name hname
  | cons s rest ih =>
    have hrest : ∀ r ∈ rest, IsSegment r := fun r hr => h r (List.mem_cons_of_mem s hr)
    by_cases hs : s = upSegment
    · subst hs
      exact ih (fun n hn => hl n (List.mem_of_mem_tail hn)) hrest hname
    · have hdown : LeadsDown s := ⟨h s List.mem_cons_self, hs⟩
      rw [List.map_cons, ofPiece_eq_name hdown.1 hs, blindly] at hname
      refine ih (fun n hn => ?_) hrest hname
      rcases List.mem_cons.mp hn with rfl | hn
      · exact hdown
      · exact hl n hn

end Step

theorem Path.leadsDown_of_mem_location {p : Path} {name : Text} (h : name ∈ p.location) :
    LeadsDown name :=
  Step.leadsDown_of_mem_blindly (fun _ hn => absurd hn List.not_mem_nil) p.meaningful h

/-! ## Primary roots -/

/-- A text of which no segment is left holds only dots and slashes. -/
theorem Path.segmentsOf_eq_nil_iff {s : Text} :
    segmentsOf s = [] ↔ ∀ piece ∈ Text.split '/' s, piece = [] ∨ piece = hereSegment := by
  unfold segmentsOf
  rw [List.filter_eq_nil_iff]
  refine forall₂_congr fun piece _ => ?_
  rw [decide_eq_true_iff, not_and_or, not_not, not_not]

namespace Config

/-- A trimmed root that is not empty has segments, unless it has a piece that is a dot. -/
theorem segmentsOf_trimRoot_ne_nil {s : Text} (hne : trimRoot s ≠ [])
    (hhere : hereSegment ∉ Text.split '/' (trimRoot s)) : Path.segmentsOf (trimRoot s) ≠ [] := by
  intro hnil
  obtain ⟨c, rest, hcons⟩ := List.exists_cons_of_ne_nil hne
  have hmem : c ∈ Text.joinWith '/' (Text.split '/' (trimRoot s)) := by
    rw [Text.joinWith_split, hcons]
    exact List.mem_cons_self
  rcases Text.mem_joinWith hmem with rfl | ⟨piece, hpiece, hc⟩
  · -- a slash in front is trimmed
    exact (ends_trimRoot s List.mem_cons_self).1 (by rw [hcons]; rfl)
  · rcases Path.segmentsOf_eq_nil_iff.mp hnil piece hpiece with rfl | rfl
    · cases hc
    · exact hhere hpiece

end Config

/-- The segments of the primary root come behind those of the project root. -/
theorem Settings.segments_primaryRootPath (root : Path) (c : Config) :
    let settings := Settings.ofConfig root c
    settings.primaryRootPath.anchor = root.anchor ∧
      settings.primaryRootPath.segments =
        root.segments ++ Path.segmentsOf settings.primaryRoot :=
  root.segments_resolve (Config.anchorOf_trimRoot _)

theorem Settings.location_primaryRootPath (root : Path) (c : Config) :
    let settings := Settings.ofConfig root c
    settings.primaryRootPath.location =
      Step.blindly root.location ((Path.segmentsOf settings.primaryRoot).map Step.ofPiece) := by
  intro settings
  rw [Path.location, Step.ofPath, (segments_primaryRootPath root c).2, List.map_append,
    Step.blindly_append]
  rfl

/-- **When the primary root is the project.** Take a configuration that passes the check, the
settings that it makes in some directory, and the pieces of the primary root between its slashes.

- If no piece is `.` or `..`, then something is left of the primary root, and its path is not that of
  the project.
- Its path is that of the project exactly if all pieces are empty or `.`.
- Nothing is left of the primary root, after empty pieces and `.` are dropped and each `..` has taken
  back the segment before it, exactly if its segments lead back.
- If there are no links, the primary root leads to the project exactly if what is left of it leads up
  by some directories and down again by the names of these; in particular, if nothing is left. -/
theorem checkedConfig_primaryRoot {v : Value} {c : Config} (h : Config.ofValue? v = .ok c)
    (root : Path) :
    let settings := Settings.ofConfig root c
    let pieces := Text.split '/' settings.primaryRoot
    let left := Path.leftOf (Path.segmentsOf settings.primaryRoot)
    (hereSegment ∉ pieces → upSegment ∉ pieces →
      left ≠ [] ∧ settings.primaryRootPath ≠ settings.projectRoot) ∧
    (settings.primaryRootPath = settings.projectRoot ↔
      ∀ piece ∈ pieces, piece = [] ∨ piece = hereSegment) ∧
    (left = [] ↔ Path.LeadsBack (Path.segmentsOf settings.primaryRoot)) ∧
    (settings.primaryRootPath.location = settings.projectRoot.location ↔
      ∃ k, left = List.replicate k upSegment ++
        (settings.projectRoot.location.take k).reverse) ∧
    ∀ t l l' e, FileTree.NoLink t → t.stat settings.projectRoot = .ok (l, .directory) →
      t.stat settings.primaryRootPath = .ok (l', e) →
      (l' = l ↔ ∃ k, left = List.replicate k upSegment ++ (l.take k).reverse) := by
  intro settings pieces left
  obtain ⟨-, _, -, hchecked⟩ := Config.checked_of_ofValue? h
  have hsame : settings.primaryRootPath = settings.projectRoot ↔
      Path.segmentsOf settings.primaryRoot = [] := by
    obtain ⟨hanchor, hsegments⟩ := Settings.segments_primaryRootPath root c
    constructor
    · intro hpath
      exact List.append_right_eq_self.mp (hsegments.symm.trans (congrArg Path.segments hpath))
    · intro hnil
      exact Path.eq_of_segments hanchor (by rw [hsegments, hnil, List.append_nil]; rfl)
  have hlocation : settings.primaryRootPath.location = settings.projectRoot.location ↔
      ∃ k, left = List.replicate k upSegment ++
        (settings.projectRoot.location.take k).reverse := by
    rw [Settings.location_primaryRootPath root c]
    exact Step.blindly_eq_self_iff (fun _ => Path.leadsDown_of_mem_location)
      fun _ => Path.isSegment_of_mem_segmentsOf
  refine ⟨fun hhere hup => ?_, hsame.trans Path.segmentsOf_eq_nil_iff, Path.leftOf_eq_nil_iff,
    hlocation, fun t l l' e hlink hroot hprimary => ?_⟩
  · -- here the check is used: the trimmed text is not empty
    have hne : Path.segmentsOf settings.primaryRoot ≠ [] :=
      Config.segmentsOf_trimRoot_ne_nil hchecked.primaryRoot_ne_nil hhere
    have hleft : left = Path.segmentsOf settings.primaryRoot :=
      Path.leftOf_eq_self fun hmem => hup (List.mem_filter.mp hmem).1
    exact ⟨hleft ▸ hne, fun hpath => hne (hsame.mp hpath)⟩
  · rw [FileTree.eq_location_of_stat hlink hroot, FileTree.eq_location_of_stat hlink hprimary]
    exact hlocation

/-- A primary root that leads down twice and back again. -/
theorem checkedConfig_ofDetour : ∃ c, Config.ofValue? (rootedConfig "/a/b/../..".toList) = .ok c ∧
    ∀ root, let settings := Settings.ofConfig root c
      settings.primaryRootPath.location = settings.projectRoot.location ∧
        Path.LeadsBack (Path.segmentsOf settings.primaryRoot) := by
  refine ⟨_, rfl, fun root => ?_⟩
  obtain ⟨-, -, hback, hlocation, -⟩ :=
    @checkedConfig_primaryRoot (rootedConfig "/a/b/../..".toList) _ rfl root
  have hleft : Path.leftOf (Path.segmentsOf (Config.trimRoot "/a/b/../..".toList)) = [] := by decide
  exact ⟨hlocation.mpr ⟨0, hleft⟩, hback.mp hleft⟩

/-- A dot passes the check, though it is the project. -/
theorem checkedConfig_ofHere : ¬ ∀ v c root, Config.ofValue? v = .ok c →
    let settings := Settings.ofConfig root c
    settings.primaryRootPath ≠ settings.projectRoot ∧
      Path.leftOf (Path.segmentsOf settings.primaryRoot) ≠ [] := by
  intro h
  exact (h (rootedConfig hereSegment) _ (.ofText "/p".toList) rfl).1 (by decide)

end IgnoredPaths
