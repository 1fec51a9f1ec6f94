import IgnoredPaths.Text.Basic

/-!
# Trimming, cutting and joining text

What the operations on texts do, said once for all that is proved about paths and names.

- Trimming: `trimLeft_eq_self`, `trimRight_eq_self`, `trim_eq_self` say when there is nothing to
  trim, and `head?_trim`, `getLast?_trimRight` what is left at the ends.
- Cutting: `split_append_cons` cuts at any occurrence, and `joinWith_split`, `split_joinWith`
  say that cutting and joining undo each other.
- `mem_beforeEach`: what stands before an occurrence of a character.
-/

namespace IgnoredPaths

namespace Text

/-! ## Trimming -/

variable {drop : Char → Bool} {s t : Text}

/-- What begins with a character that stays is not trimmed in front. -/
theorem trimLeft_eq_self (h : ∀ c, s.head? = some c → drop c = false) : trimLeft drop s = s := by
  cases s with
  | nil => rfl
  | cons c s => exact List.dropWhile_cons_of_neg (by rw [h c rfl]; exact Bool.false_ne_true)

/-- What is trimmed in front begins with a character that stays. -/
theorem head?_trimLeft {c : Char} (h : (trimLeft drop s).head? = some c) : drop c = false := by
  have := List.head?_dropWhile_not drop s
  rw [← trimLeft, h] at this
  exact this

theorem trimLeft_trimLeft : trimLeft drop (trimLeft drop s) = trimLeft drop s :=
  trimLeft_eq_self fun _ => head?_trimLeft

theorem trimRight_eq_reverse : trimRight drop s = (trimLeft drop s.reverse).reverse := rfl

/-- What ends with a character that stays is not trimmed at the end. -/
theorem trimRight_eq_self (h : ∀ c, s.getLast? = some c → drop c = false) :
    trimRight drop s = s := by
  have hhead : ∀ c, s.reverse.head? = some c → drop c = false := by
    intro c hc
    rw [List.head?_reverse] at hc
    exact h c hc
  rw [trimRight_eq_reverse, trimLeft_eq_self hhead, List.reverse_reverse]

/-- What is trimmed at the end ends with a character that stays. -/
theorem getLast?_trimRight {c : Char} (h : (trimRight drop s).getLast? = some c) :
    drop c = false := by
  rw [trimRight_eq_reverse, List.getLast?_reverse] at h
  exact head?_trimLeft h

/-- Trimming in front takes away a beginning of characters to be dropped. -/
theorem exists_append_trimLeft (drop : Char → Bool) (s : Text) :
    ∃ front, s = front ++ trimLeft drop s ∧ ∀ c ∈ front, drop c = true :=
  ⟨s.takeWhile drop, List.takeWhile_append_dropWhile.symm,
    List.all_eq_true.mp List.all_takeWhile⟩

/-- Trimming at the end takes away an end of characters to be dropped. -/
theorem exists_trimRight_append (drop : Char → Bool) (s : Text) :
    ∃ back, s = trimRight drop s ++ back ∧ ∀ c ∈ back, drop c = true := by
  obtain ⟨front, hs, hfront⟩ := exists_append_trimLeft drop s.reverse
  refine ⟨front.reverse, ?_, fun c hc => hfront c (List.mem_reverse.mp hc)⟩
  rw [trimRight_eq_reverse, ← List.reverse_append, ← hs, List.reverse_reverse]

/-- An end of characters to be dropped makes no difference. -/
theorem trimRight_append (s : Text) (h : ∀ c ∈ t, drop c = true) :
    trimRight drop (s ++ t) = trimRight drop s := by
  have hback : ∀ c ∈ t.reverse, drop c = true := fun c hc => h c (List.mem_reverse.mp hc)
  rw [trimRight, List.reverse_append, List.dropWhile_append_of_pos hback]
  rfl

/-- What is trimmed at both ends begins with a character that stays. -/
theorem head?_trim {c : Char} (h : (trim drop s).head? = some c) : drop c = false := by
  obtain ⟨back, hback, -⟩ := exists_trimRight_append drop (trimLeft drop s)
  refine @head?_trimLeft drop s c ?_
  rw [hback, List.head?_append, ← trim, h]
  rfl

/-- What neither begins nor ends with a character to be dropped is not trimmed. -/
theorem trim_eq_self (hhead : ∀ c, s.head? = some c → drop c = false)
    (hlast : ∀ c, s.getLast? = some c → drop c = false) : trim drop s = s := by
  rw [trim, trimLeft_eq_self hhead, trimRight_eq_self hlast]

theorem trimRight_sublist (drop : Char → Bool) (s : Text) : (trimRight drop s).Sublist s := by
  obtain ⟨back, hback, -⟩ := exists_trimRight_append drop s
  have hfront := List.sublist_append_left (trimRight drop s) back
  rwa [← hback] at hfront

theorem trim_sublist (drop : Char → Bool) (s : Text) : (trim drop s).Sublist s :=
  (trimRight_sublist drop _).trans (List.dropWhile_sublist drop)

/-! ## The first and the last character -/

theorem startsWith_singleton_iff {c : Char} : startsWith s [c] = true ↔ s.head? = some c := by
  rw [startsWith, List.isPrefixOf_iff_prefix, List.head?_eq_some_iff]
  exact exists_congr fun _ => eq_comm

theorem endsWith_singleton_iff {c : Char} : endsWith s [c] = true ↔ s.getLast? = some c := by
  rw [endsWith, List.isSuffixOf_iff_suffix, List.getLast?_eq_some_iff]
  exact exists_congr fun _ => eq_comm

/-! ## Putting one character for another -/

/-- A character that was replaced does not occur. -/
theorem not_mem_swap {old new : Char} (h : new ≠ old) (s : Text) : old ∉ swap old new s := by
  intro hm
  obtain ⟨c, -, hc⟩ := List.mem_map.mp hm
  split at hc
  · exact h hc
  · next hne => exact hne hc

/-- Where a character does not occur, there is nothing to replace. -/
theorem swap_eq_self {old : Char} (new : Char) (h : old ∉ s) : swap old new s = s := by
  have hid : ∀ c ∈ s, (if c = old then new else c) = id c := by
    intro c hc
    rw [if_neg fun hold : c = old => h (hold ▸ hc)]
    rfl
  rw [swap, List.map_congr_left hid, List.map_id]

theorem swap_append (old new : Char) (s t : Text) :
    swap old new (s ++ t) = swap old new s ++ swap old new t :=
  List.map_append

/-! ## Cutting and joining -/

variable {c : Char}

theorem split_ne_nil (c : Char) : ∀ s : Text, split c s ≠ []
  | [] => List.cons_ne_nil _ _
  | d :: r => by
    rw [split]
    split
    · exact List.cons_ne_nil _ _
    · split <;> exact List.cons_ne_nil _ _

/-- A text without the character is one piece. -/
theorem split_eq_singleton : ∀ {s : Text}, c ∉ s → split c s = [s]
  | [], _ => rfl
  | d :: r, h => by
    have hd : ¬ d = c := fun hd => h (hd ▸ List.mem_cons_self)
    rw [split, if_neg hd, split_eq_singleton fun hr => h (List.mem_cons_of_mem d hr)]

/-- A text is cut at an occurrence into the pieces before it and the pieces behind it. -/
theorem split_append_cons (c : Char) : ∀ s t : Text, split c (s ++ c :: t) = split c s ++ split c t
  | [], t => if_pos rfl
  | d :: r, t => by
    have ih := split_append_cons c r t
    rw [List.cons_append, split, split, ih]
    by_cases hd : d = c
    · rw [if_pos hd, if_pos hd, List.cons_append]
    · rw [if_neg hd, if_neg hd]
      cases hr : split c r with
      | nil => exact absurd hr (split_ne_nil c r)
      | cons piece pieces => rfl

theorem joinWith_cons (s : Text) {l : List Text} (hl : l ≠ []) :
    joinWith c (s :: l) = s ++ c :: joinWith c l := by
  cases l with
  | nil => exact absurd rfl hl
  | cons t r => rfl

theorem joinWith_append : ∀ {l m : List Text}, l ≠ [] → m ≠ [] →
    joinWith c (l ++ m) = joinWith c l ++ c :: joinWith c m
  | [], _, hl, _ => absurd rfl hl
  | [s], _, _, hm => joinWith_cons s hm
  | s :: t :: r, m, _, hm => by
    have ih := joinWith_append (List.cons_ne_nil t r) hm
    rw [List.cons_append, joinWith_cons s (by simp), ih, joinWith_cons s (List.cons_ne_nil t r),
      List.append_assoc, List.cons_append]

/-- Joined, the pieces of a text are the text. -/
theorem joinWith_split (c : Char) : ∀ s : Text, joinWith c (split c s) = s
  | [] => rfl
  | d :: r => by
    have ih := joinWith_split c r
    rw [split]
    split
    · next hd => rw [joinWith_cons _ (split_ne_nil c r), ih, hd, List.nil_append]
    · split
      · next hr => exact absurd hr (split_ne_nil c r)
      · next piece pieces hr =>
        rw [hr] at ih
        cases pieces with
        | nil => exact congrArg (d :: ·) ih
        | cons t l => exact congrArg (d :: ·) ih

/-- Pieces that do not hold the character are the pieces of the joined text. -/
theorem split_joinWith : ∀ {l : List Text}, l ≠ [] → (∀ s ∈ l, c ∉ s) →
    split c (joinWith c l) = l
  | [], hl, _ => absurd rfl hl
  | [s], _, h => split_eq_singleton (h s List.mem_cons_self)
  | s :: t :: r, _, h => by
    have ih := split_joinWith (List.cons_ne_nil t r) fun x hx => h x (List.mem_cons_of_mem s hx)
    rw [joinWith_cons s (List.cons_ne_nil t r), split_append_cons, ih,
      split_eq_singleton (h s List.mem_cons_self)]
    rfl

/-- Pieces that do not hold the character are told by the joined text. -/
theorem joinWith_ne_nil {l : List Text} (hl : l ≠ []) (h : ∀ s ∈ l, s ≠ []) :
    joinWith c l ≠ [] := by
  cases l with
  | nil => exact absurd rfl hl
  | cons s r =>
    cases r with
    | nil => exact h s List.mem_cons_self
    | cons r l => exact List.append_ne_nil_of_left_ne_nil (h s List.mem_cons_self) _

theorem mem_joinWith {d : Char} {l : List Text} (h : d ∈ joinWith c l) :
    d = c ∨ ∃ s ∈ l, d ∈ s := by
  induction l with
  | nil => cases h
  | cons s l ih =>
    by_cases hl : l = []
    · subst hl
      exact .inr ⟨s, List.mem_cons_self, h⟩
    · rw [joinWith_cons s hl] at h
      rcases List.mem_append.mp h with h | h
      · exact .inr ⟨s, List.mem_cons_self, h⟩
      · rcases List.mem_cons.mp h with h | h
        · exact .inl h
        · rcases ih h with h | ⟨r, hr, hd⟩
          · exact .inl h
          · exact .inr ⟨r, List.mem_cons_of_mem s hr, hd⟩

theorem not_mem_joinWith {d : Char} {l : List Text} (hd : d ≠ c) (h : ∀ s ∈ l, d ∉ s) :
    d ∉ joinWith c l := by
  intro hm
  obtain ⟨s, hs, hm⟩ := (mem_joinWith hm).resolve_left hd
  exact h s hs hm

theorem mem_joinWith_of_mem {d : Char} {l : List Text} {s : Text} (hs : s ∈ l) (hd : d ∈ s) :
    d ∈ joinWith c l := by
  induction l with
  | nil => cases hs
  | cons r l ih =>
    by_cases hl : l = []
    · subst hl
      rwa [List.mem_singleton.mp hs] at hd
    · rw [joinWith_cons r hl, List.mem_append]
      rcases List.mem_cons.mp hs with rfl | hs
      · exact .inl hd
      · exact .inr (List.mem_cons_of_mem c (ih hs))

/-- A character of a piece of a text is one of the text. -/
theorem mem_of_mem_split {d : Char} {piece : Text} (h : piece ∈ split c s) (hd : d ∈ piece) :
    d ∈ s :=
  joinWith_split c s ▸ mem_joinWith_of_mem h hd

/-- Joined pieces that do not hold the character do not begin with it. -/
theorem head?_joinWith_ne {l : List Text} (h : ∀ s ∈ l, s ≠ [] ∧ c ∉ s) {d : Char}
    (hd : (joinWith c l).head? = some d) : d ≠ c := by
  rintro rfl
  cases l with
  | nil => cases hd
  | cons s l =>
    obtain ⟨hne, hc⟩ := h s List.mem_cons_self
    obtain ⟨e, s, rfl⟩ := List.exists_cons_of_ne_nil hne
    have hed : e = d := by
      cases l with
      | nil => exact Option.some.inj hd
      | cons r l => exact Option.some.inj hd
    exact hc (hed ▸ List.mem_cons_self)

/-- Joined pieces end like the last of them, if that is not empty. -/
theorem getLast?_joinWith_append {l : List Text} {s : Text} (hs : s ≠ []) :
    (joinWith c (l ++ [s])).getLast? = s.getLast? := by
  by_cases hl : l = []
  · subst hl
    rfl
  · rw [joinWith_append hl (List.cons_ne_nil s []), List.getLast?_append, joinWith,
      List.getLast?_cons_of_ne_nil hs]
    cases hlast : s.getLast? with
    | none => exact absurd (List.getLast?_eq_none_iff.mp hlast) hs
    | some d => rfl

/-- Joined pieces that do not hold the character do not end with it. -/
theorem getLast?_joinWith_ne {l : List Text} (h : ∀ s ∈ l, s ≠ [] ∧ c ∉ s) {d : Char}
    (hd : (joinWith c l).getLast? = some d) : d ≠ c := by
  rintro rfl
  rcases List.eq_nil_or_concat l with rfl | ⟨m, s, rfl⟩
  · cases hd
  · rw [List.concat_eq_append] at h hd
    obtain ⟨hne, hc⟩ := h s (List.mem_append_right m List.mem_cons_self)
    rw [getLast?_joinWith_append hne] at hd
    exact hc (List.mem_of_getLast? hd)

theorem trimLeft_joinWith {l : List Text} (h : ∀ s ∈ l, s ≠ [] ∧ c ∉ s) :
    trimLeft (· = c) (joinWith c l) = joinWith c l :=
  trimLeft_eq_self fun _ hd => decide_eq_false (head?_joinWith_ne h hd)

theorem trimRight_joinWith {l : List Text} (h : ∀ s ∈ l, s ≠ [] ∧ c ∉ s) :
    trimRight (· = c) (joinWith c l) = joinWith c l :=
  trimRight_eq_self fun _ hd => decide_eq_false (getLast?_joinWith_ne h hd)

/-- What stands before an occurrence of a character is what an occurrence follows. -/
theorem mem_beforeEach : ∀ {s a : Text}, a ∈ beforeEach c s ↔ ∃ r, s = a ++ c :: r
  | [], a => by simp [beforeEach]
  | d :: r, a => by
    rw [beforeEach, List.mem_append, List.mem_map]
    constructor
    · rintro (h | ⟨b, hb, rfl⟩)
      · split at h
        · next hd =>
          rw [List.mem_singleton.mp h, hd]
          exact ⟨r, rfl⟩
        · exact absurd h List.not_mem_nil
      · obtain ⟨u, hu⟩ := mem_beforeEach.mp hb
        exact ⟨u, congrArg (d :: ·) hu⟩
    · rintro ⟨u, hu⟩
      cases a with
      | nil =>
        obtain ⟨rfl, rfl⟩ := List.cons.inj hu
        exact .inl (by simp)
      | cons e b =>
        obtain ⟨rfl, rfl⟩ := List.cons.inj hu
        exact .inr ⟨b, mem_beforeEach.mpr ⟨u, rfl⟩, rfl⟩

/-- What stands before the last occurrence of a character stands before an occurrence of it. -/
theorem exists_of_beforeLast? {a : Text} (h : beforeLast? c s = some a) : ∃ r, s = a ++ c :: r := by
  rw [beforeLast?] at h
  split at h
  · cases h
  · next d r hdrop =>
    cases h
    have hd : d = c := by
      have hhead := List.head?_dropWhile_not (· ≠ c) s.reverse
      rw [hdrop] at hhead
      simpa using hhead
    have hsplit := @List.takeWhile_append_dropWhile _ (· ≠ c) s.reverse
    rw [hdrop, hd] at hsplit
    refine ⟨(s.reverse.takeWhile (· ≠ c)).reverse, ?_⟩
    have hs := congrArg List.reverse hsplit
    rw [List.reverse_append, List.reverse_cons, List.append_assoc, List.reverse_reverse] at hs
    exact hs.symm

end Text

end IgnoredPaths
