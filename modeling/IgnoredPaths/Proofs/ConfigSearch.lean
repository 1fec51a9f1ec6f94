import IgnoredPaths.ProgramHost
import IgnoredPaths.Proofs.Canonical
import IgnoredPaths.Proofs.Setup
import IgnoredPaths.Proofs.TakenNames
import Mathlib.Logic.Function.Iterate

/-!
# The configuration that holds in a directory

The search for a configuration file starts in a directory and goes up, until a file is found or
there is no other directory above. The first file that is found decides, also if it is wrong; only
where none is found do the defaults hold.

What is found may lie behind a link. A link that leads nowhere is passed over, but for a link with a
name in it that is too long it cannot be told whether it leads anywhere, and then there are neither
settings of a configuration further up nor defaults.

- `Path.above`: the directories that are looked at.
- `ConfigSearch`: the search without a limit; `configSearch_findConfigUpTo` says that it ends, and
  `ConfigSearch.exists_last` what it has met then.
- `resolveSettings_nearest`: the settings of the project that a directory is in.
- `resolveSettings_of_longLink`: a directory without configuration that has no settings.
-/

namespace IgnoredPaths

/-- The directory so many levels above another one. Above the root directory is the root directory
again. -/
def Path.above (p : Path) (n : Nat) : Path := Path.parent^[n] p

/-- The path of the configuration file in a directory. -/
def configFileOf (dir : Path) : Path := dir.resolve configFileName

theorem Path.above_succ (p : Path) (n : Nat) : p.above (n + 1) = p.parent.above n := rfl

theorem Path.above_of_parent_eq {p : Path} (h : p.parent = p) (n : Nat) : p.above n = p :=
  Function.iterate_fixed h n

/-- Only a path without segments is its own parent. -/
theorem Path.parent_eq_self_iff {p : Path} : p.parent = p ↔ p.segments = [] := by
  constructor
  · intro h
    have hlength := congrArg (fun q : Path => q.segments.length) h
    simp only [Path.parent, List.length_dropLast] at hlength
    exact List.eq_nil_of_length_eq_zero (by omega)
  · intro h
    refine Path.eq_of_segments rfl ?_
    show p.segments.dropLast = p.segments
    rw [h]
    rfl

theorem configFileOf_eq_extend (dir : Path) : configFileOf dir = dir.extend [configFileName] :=
  resolve_name dir (by decide)

theorem parent_configFileOf (dir : Path) : (configFileOf dir).parent = dir := by
  rw [configFileOf_eq_extend, ← List.nil_append [configFileName],
    Path.parent_extend dir [] (by decide), Path.extend_nil]

/-! ## The search -/

/-- The search from a directory on, with no limit to the directories that are looked at, ends with
an answer. -/
inductive ConfigSearch (t : FileTree) : Path → Except Fault (Option Path) → Prop where
  /-- There is a file in the directory. -/
  | found {dir : Path} (h : t.exists? (configFileOf dir) = .ok true) :
      ConfigSearch t dir (.ok (some (configFileOf dir)))
  /-- It cannot be told whether there is a file in the directory. -/
  | fault {dir : Path} {f : Fault} (h : t.exists? (configFileOf dir) = .error f) :
      ConfigSearch t dir (.error f)
  /-- There is none, and no other directory above. -/
  | top {dir : Path} (h : t.exists? (configFileOf dir) = .ok false) (htop : dir.parent = dir) :
      ConfigSearch t dir (.ok none)
  /-- There is none, so the directory above is looked at. -/
  | up {dir : Path} {r : Except Fault (Option Path)}
      (h : t.exists? (configFileOf dir) = .ok false) (htop : dir.parent ≠ dir)
      (hnext : ConfigSearch t dir.parent r) : ConfigSearch t dir r

namespace ConfigSearch

variable {t : FileTree} {dir : Path} {r : Except Fault (Option Path)}

/-- The search has one answer. -/
theorem unique {r' : Except Fault (Option Path)} (h : ConfigSearch t dir r)
    (h' : ConfigSearch t dir r') : r = r' := by
  induction h with
  | found h =>
    cases h' with
    | found _ => rfl
    | fault h' | top h' _ | up h' _ _ => cases h.symm.trans h'
  | fault h =>
    cases h' with
    | fault h' => exact congrArg _ (Except.error.inj (h.symm.trans h'))
    | found h' | top h' _ | up h' _ _ => cases h.symm.trans h'
  | top h htop =>
    cases h' with
    | top _ _ => rfl
    | up _ htop' _ => exact absurd htop htop'
    | found h' | fault h' => cases h.symm.trans h'
  | up h htop _ ih =>
    cases h' with
    | up _ _ hnext => exact ih hnext
    | top _ htop' => exact absurd htop' htop
    | found h' | fault h' => cases h.symm.trans h'

/-- The search ends at the nearest file, unless before it or without one it cannot be told whether
there is a file, or at the root directory, if there is none anywhere. -/
theorem exists_last (h : ConfigSearch t dir r) :
    (∃ n, (∀ i < n, t.exists? (configFileOf (dir.above i)) = .ok false) ∧
      (t.exists? (configFileOf (dir.above n)) = .ok true ∧
          r = .ok (some (configFileOf (dir.above n))) ∨
        ∃ f, t.exists? (configFileOf (dir.above n)) = .error f ∧ r = .error f)) ∨
      (∀ n, t.exists? (configFileOf (dir.above n)) = .ok false) ∧ r = .ok none := by
  induction h with
  | found h => exact .inl ⟨0, nofun, .inl ⟨h, rfl⟩⟩
  | fault h => exact .inl ⟨0, nofun, .inr ⟨_, h, rfl⟩⟩
  | top h htop => exact .inr ⟨fun n => by rwa [Path.above_of_parent_eq htop], rfl⟩
  | up h _ _ ih =>
    rcases ih with ⟨n, hbefore, hend⟩ | ⟨hall, hr⟩
    · refine .inl ⟨n + 1, fun i hi => ?_, hend⟩
      cases i with
      | zero => exact h
      | succ i => exact hbefore i (by omega)
    · refine .inr ⟨fun n => ?_, hr⟩
      cases n with
      | zero => exact h
      | succ n => exact hall n

/-- A search that ends further up passes the directories below, if there is no file in them. -/
theorem of_above {n : Nat} (hbefore : ∀ i < n, t.exists? (configFileOf (dir.above i)) = .ok false)
    (hend : t.exists? (configFileOf (dir.above n)) ≠ .ok false)
    (h : ConfigSearch t (dir.above n) r) : ConfigSearch t dir r := by
  induction n generalizing dir with
  | zero => exact h
  | succ n ih =>
    have hfirst := hbefore 0 (Nat.succ_pos n)
    -- at the root directory the search would not have gone further up
    have htop : dir.parent ≠ dir := by
      intro htop
      rw [Path.above_of_parent_eq htop] at hend
      exact hend hfirst
    exact .up hfirst htop (ih (fun i hi => hbefore (i + 1) (Nat.succ_lt_succ hi)) hend h)

end ConfigSearch

/-- The limit of the search is not reached, as a path has no more directories above it than
segments. -/
theorem configSearch_findConfigUpTo (t : FileTree) (dir : Path) :
    ConfigSearch t dir (findConfigUpTo t dir.segments.length dir) := by
  induction habove : dir.segments.length generalizing dir with
  | zero =>
    have htop := Path.parent_eq_self_iff.mpr (List.eq_nil_of_length_eq_zero habove)
    simp only [findConfigUpTo]
    split
    · next h => exact .fault h
    · next h => exact .found h
    · next h => exact .top h htop
  | succ above ih =>
    have htop : dir.parent ≠ dir := by
      rw [Ne, Path.parent_eq_self_iff]
      rintro hnil
      rw [hnil] at habove
      cases habove
    have hparent : dir.parent.segments.length = above := by
      rw [Path.parent, List.length_dropLast, habove]
      rfl
    simp only [findConfigUpTo]
    split
    · next h => exact .fault h
    · next h => exact .found h
    · next h => exact .up h htop (ih dir.parent hparent)

/-- The search finds nothing exactly if there is no file in any of the directories. -/
theorem findConfigUpTo_eq_none_iff {t : FileTree} {dir : Path} :
    findConfigUpTo t dir.segments.length dir = .ok none ↔
      ∀ n, t.exists? (configFileOf (dir.above n)) = .ok false := by
  constructor
  · intro hnone
    have hsearch := configSearch_findConfigUpTo t dir
    rw [hnone] at hsearch
    rcases hsearch.exists_last with ⟨n, -, ⟨-, hr⟩ | ⟨f, -, hr⟩⟩ | ⟨hall, -⟩
    · cases hr
    · cases hr
    · exact hall
  · intro hall
    rcases (configSearch_findConfigUpTo t dir).exists_last with
      ⟨n, -, ⟨hfound, -⟩ | ⟨f, hfault, -⟩⟩ | ⟨-, hr⟩
    · cases (hall n).symm.trans hfound
    · cases (hall n).symm.trans hfault
    · exact hr

/-! ## The directories that are looked at -/

namespace FileTree

variable {t : FileTree} {l : Location}

/-- Above a directory there are directories, each with its own canonical path. -/
theorem exists_location_above (h : t.get? l = some .directory) (n : Nat) :
    ∃ m, t.get? m = some .directory ∧ (Location.toPath l).above n = Location.toPath m := by
  induction n generalizing l with
  | zero => exact ⟨l, h, rfl⟩
  | succ n ih =>
    rw [Path.above_succ, parent_toPath h]
    exact ih (get?_tail h)

/-- If it cannot be told whether there is a configuration file in a directory, a link is there, and
a name in a link is too long. -/
theorem exists_link_of_unclear {dir : Path} {f : Fault} (hdir : t.stat dir = .ok (l, .directory))
    (h : t.exists? (configFileOf dir) = .error f) :
    f = .nameTooLong ∧ t.HasLongTarget ∧
      ∃ target, t.get? (configFileName :: l) = some (.link target) := by
  rw [configFileOf_eq_extend] at h
  cases hget : t.get? (configFileName :: l) with
  | none =>
    rw [exists?_extend hdir (by decide +kernel) fun target hlink => by cases hget.symm.trans hlink]
      at h
    cases h
  | some e =>
    obtain ⟨hf, hlong⟩ := hasLongTarget_of_exists? hdir hget h
    obtain ⟨target, rfl⟩ := exists_link_of_not_found hdir hget (by rw [h]; nofun)
    exact ⟨hf, hlong, target, rfl⟩

end FileTree

/-! ## The settings -/

section

variable {host : Host} {t : FileTree} {start dir : Path}

/-- A directory that is the canonical path of its location is the root of its project. -/
theorem configuredSettings_toPath {l : Location} (h : t.get? l = some .directory) (c : Config) :
    configuredSettings t (Location.toPath l) c = .ok (.ofConfig (Location.toPath l) c) := by
  rw [configuredSettings, FileTree.canonical_of_stat (FileTree.stat_toPath h)]
  rfl

theorem resolveSettings_of_configFile (hfound : findConfig? t start = .ok (some (configFileOf dir))) :
    resolveSettings host t start =
      loadConfig host t (configFileOf dir) >>= configuredSettings t dir := by
  rw [resolveSettings, hfound]
  show (loadConfig host t (configFileOf dir) >>= configuredSettings t (configFileOf dir).parent) = _
  rw [parent_configFileOf]

theorem findConfig?_eq_none_iff (hdir : t.canonical start = .ok dir) :
    findConfig? t start = .ok none ↔
      ∀ n, t.exists? (configFileOf (dir.above n)) = .ok false := by
  rw [← findConfigUpTo_eq_none_iff, findConfig?_of_ok hdir]
  cases findConfigUpTo t dir.segments.length dir with
  | error f => exact ⟨fun h => (by cases h), fun h => (by cases h)⟩
  | ok found => exact ⟨fun h => Except.ok.inj h ▸ rfl, fun h => Except.ok.inj h ▸ rfl⟩

/-- **The nearest configuration decides.** On any host, take any existing directory, with any file
tree around it, and look at its canonical path and the directories above it in order.

- The search upward ends for each of them, and with one answer.
- If a configuration file is found in a directory and none before, the outcome is what is made of
  that file in that directory, whether it is settings or an error, and whatever is further up.
- The defaults hold exactly if none is found in any directory.
- If it cannot be told of a directory whether there is a file, and none is found before, this is the
  outcome. There is a link then that has the name of the file, and a name in a link is too long. -/
theorem resolveSettings_nearest (host : Host) (hstart : t.isDirectory start = true) :
    ∃ dir, t.canonical start = .ok dir ∧
      (∀ r, ConfigSearch t dir r ↔ r = findConfigUpTo t dir.segments.length dir) ∧
      (∀ n, (∀ i < n, t.exists? (configFileOf (dir.above i)) = .ok false) →
        t.exists? (configFileOf (dir.above n)) = .ok true →
        resolveSettings host t start =
          loadConfig host t (configFileOf (dir.above n)) >>= configuredSettings t (dir.above n)) ∧
      (∀ n c, configuredSettings t (dir.above n) c = .ok (.ofConfig (dir.above n) c)) ∧
      (findConfig? t start = .ok none ↔
        ∀ n, t.exists? (configFileOf (dir.above n)) = .ok false) ∧
      ((∀ n, t.exists? (configFileOf (dir.above n)) = .ok false) →
        resolveSettings host t start = defaultSettings t start) ∧
      ∀ n f, (∀ i < n, t.exists? (configFileOf (dir.above i)) = .ok false) →
        t.exists? (configFileOf (dir.above n)) = .error f →
        resolveSettings host t start = .error (.unclear f) ∧ f = .nameTooLong ∧ t.HasLongTarget ∧
          ∃ l target, t.stat (dir.above n) = .ok (l, .directory) ∧
            t.get? (configFileName :: l) = some (.link target) := by
  obtain ⟨l, hstat⟩ := FileTree.isDirectory_iff.mp hstart
  have hdir := FileTree.canonical_of_stat hstat
  have habove := FileTree.exists_location_above (FileTree.get?_of_stat hstat)
  have hsearch := configSearch_findConfigUpTo t (Location.toPath l)
  have hfind := findConfig?_of_ok hdir
  have hnone := findConfig?_eq_none_iff hdir
  refine ⟨Location.toPath l, hdir, fun r => ⟨fun h => h.unique hsearch, fun h => h ▸ hsearch⟩,
    ?nearest, ?root, hnone, ?defaults, ?unclear⟩
  case nearest =>
    intro n hbefore hfound
    have hanswer := hsearch.unique
      (.of_above hbefore (fun hnone => by cases hfound.symm.trans hnone) (.found hfound))
    refine resolveSettings_of_configFile ?_
    rw [hfind, hanswer]
    rfl
  case root =>
    intro n c
    obtain ⟨m, hm, hpath⟩ := habove n
    rw [hpath]
    exact configuredSettings_toPath hm c
  case defaults =>
    intro hall
    rw [resolveSettings, hnone.mpr hall]
    rfl
  case unclear =>
    intro n f hbefore hfault
    have hanswer := hsearch.unique
      (.of_above hbefore (fun hnone => by cases hfault.symm.trans hnone) (.fault hfault))
    obtain ⟨m, hm, hpath⟩ := habove n
    have hthere := FileTree.stat_toPath hm
    rw [← hpath] at hthere
    obtain ⟨hf, hlong, target, hlink⟩ := FileTree.exists_link_of_unclear hthere hfault
    refine ⟨resolveSettings_of_error ?_, hf, hlong, m, target, hthere, hlink⟩
    rw [hfind, hanswer]
    rfl

end

/-- A project with an empty configuration file, inside of a directory with a good one. -/
def nestedProjects : FileTree :=
  (((FileTree.empty.insert [] configFileName (.file "version: 1\n".toUTF8 1)).insert [] ['p']
    .directory).insert [['p']] configFileName (.file .empty 2)).insert [['p']] "sub".toList .directory

/-- The nearest file decides for the program, and it is wrong. -/
theorem resolveSettings_nestedProjects :
    let start := Path.ofText "/p/sub".toList
    nestedProjects.isDirectory start = true ∧
      nestedProjects.exists? (configFileOf (start.above 2)) = .ok true ∧
      resolveSettings Program.host nestedProjects start = .error (.config .empty) := by
  intro start
  have hstart : nestedProjects.isDirectory start = true := by decide +kernel
  refine ⟨hstart, by decide +kernel, ?_⟩
  obtain ⟨dir, hdir, -, hnearest, -⟩ := resolveSettings_nearest Program.host hstart
  obtain rfl : dir = start :=
    Except.ok.inj (hdir.symm.trans (by decide +kernel : nestedProjects.canonical start = .ok start))
  have hbefore : ∀ i < 1, nestedProjects.exists? (configFileOf (start.above i)) = .ok false := by
    decide +kernel
  have hread : nestedProjects.read (configFileOf (start.above 1)) = .ok (.empty, 2) := by
    decide +kernel
  have hload : loadConfig Program.host nestedProjects (configFileOf (start.above 1)) =
      .error (.config .empty) := by
    rw [loadConfig_of_read hread]
    rfl
  rw [hnearest 1 hbefore (by decide +kernel), hload]
  rfl

/-- A directory in which the name of the configuration file is that of a link to a name that is too
long. -/
def longLinked : FileTree :=
  (FileTree.empty.insert [] ['p'] .directory).insert [['p']] configFileName
    (.link (List.replicate 256 'a'))

/-- There is no configuration file, neither in the directory nor above it, and yet the defaults do
not hold in it. -/
theorem resolveSettings_of_longLink :
    ¬ ∀ (t : FileTree) (start dir : Path), t.isDirectory start = true →
      t.canonical start = .ok dir → (∀ n found, t.stat (configFileOf (dir.above n)) ≠ .ok found) →
      resolveSettings Program.host t start = defaultSettings t start := by
  intro hdefaults
  obtain ⟨start, hp⟩ : ∃ start, start = Path.ofText "/p".toList := ⟨_, rfl⟩
  have hstart : longLinked.isDirectory start = true := by
    rw [hp]
    decide +kernel
  have hdir : longLinked.canonical start = .ok start := by
    rw [hp]
    decide +kernel
  have hfault : longLinked.exists? (configFileOf start) = .error .nameTooLong := by
    rw [hp]
    decide +kernel
  have hnothing : ∀ n found, longLinked.stat (configFileOf (start.above n)) ≠ .ok found := by
    intro n found
    cases n with
    | zero =>
      intro hfound
      cases hfault.symm.trans (FileTree.exists?_eq_ok_true_iff.mpr ⟨found, hfound⟩)
    | succ n =>
      -- above the directory there is only the root directory
      have hroot : start.parent.parent = start.parent := by
        rw [hp]
        decide +kernel
      have habsent : longLinked.stat (configFileOf start.parent) = .error .absent := by
        rw [hp]
        decide +kernel
      rw [Path.above_succ, Path.above_of_parent_eq hroot, habsent]
      exact nofun
  have hanswer := hdefaults longLinked start start hstart hdir hnothing
  have hsearch : findConfigUpTo longLinked start.segments.length start = .error .nameTooLong := by
    rw [hp]
    decide +kernel
  have hfind : findConfig? longLinked start = .error (.unclear .nameTooLong) := by
    rw [findConfig?_of_ok hdir, hsearch]
    rfl
  rw [resolveSettings_of_error hfind, defaultSettings, hdir] at hanswer
  cases hanswer

end IgnoredPaths
