import Isle.Go.Entries
import Mathlib.Tactic.SplitIfs

/-!
# Where a name ends

`os.Create` and `os.Stat` follow a link at the end of a name too, and for `os.Create` there need not
be anything where it leads: `place` is that path. There is a directory, or in a directory a file or
nothing (`Closed.ends_of_place`), as long as every entry is in a directory.

The name of a directory ends there (`Closed.directory_eq_some_iff`), a longer name goes on from it
(`Closed.exists_place_append`), and where a name ends does not change when entries are added
(`place_mono`).
-/

namespace Filepath

namespace Entries

/-- There is a directory at a path. The root is one. -/
def IsDir (fs : Entries) (d : Path) : Prop := d = [] ∨ fs.lookup d = some .dir

instance (fs : Entries) (d : Path) : Decidable (fs.IsDir d) := inferInstanceAs (Decidable (_ ∨ _))

/-! ### The end of a name -/

/-- Where a component of a name leads from a directory. -/
inductive Turn
  | into (d : Path)
  /-- Through a link with a target, from a directory. -/
  | through (d : Path) (target : List String)
  /-- At the path there is a file, or nothing. -/
  | stop (q : Path)

/-- One component: the dots are worked off, and a link is not followed yet. -/
def turn (fs : Entries) (d : Path) (c : String) : Turn :=
  if c = "" ∨ c = "." then .into d
  else if c = ".." then .into d.dropLast
  else
    match fs.lookup (d ++ [c]) with
    | some .dir => .into (d ++ [c])
    | some (.link rooted target) => .through (if rooted then [] else d) target
    | some .file | none => .stop (d ++ [c])

/-- As `walk`, but at the last component there may be a file or nothing. -/
def reach (fs : Entries) (follow : Path → List String → Option Path) :
    Path → List String → Option Path
  | d, [] => some d
  | d, c :: cs =>
    match fs.turn d c with
    | .into e => reach fs follow e cs
    | .through e target => follow e (target ++ cs)
    | .stop q => if cs = [] then some q else none

/-- The path that a name ends at, through so many links at most. -/
def reaches (fs : Entries) : ℕ → Path → List String → Option Path
  | 0 => reach fs fun _ _ ↦ none
  | n + 1 => reach fs (reaches fs n)

/-- The path that a rooted name ends at, where there is a directory, a file or nothing. -/
def place (fs : Entries) (p : Path) : Option Path := fs.reaches 40 [] p

/-- `os.Stat` -/
def stat (fs : Entries) (p : Path) : Option Node :=
  match fs.place p with
  | none => none
  | some q => if q = [] then some .dir else fs.lookup q

/-- `os.Lstat` -/
def lstat (fs : Entries) (p : Path) : Option Node :=
  if p = [] then some .dir else (fs.locate p).bind fs.lookup

variable {fs fs' : Entries} {d e q : Path} {c : String} {cs : List String}

theorem IsDir.mono (h : Sub fs fs') (hd : fs.IsDir d) : fs'.IsDir d := hd.imp_right (h d _)

/-! The way of a name, one component at a time: a link is followed while there are some left. -/

@[simp] theorem reaches_nil (fs : Entries) (n : ℕ) (d : Path) : fs.reaches n d [] = some d := by
  cases n <;> rfl

@[simp] theorem resolve_nil (fs : Entries) (n : ℕ) (d : Path) : fs.resolve n d [] = some d := by
  cases n <;> rfl

theorem reaches_cons (fs : Entries) (n : ℕ) (d : Path) (c : String) (cs : List String) :
    fs.reaches n d (c :: cs) =
      match fs.turn d c, n with
      | .into e, n => fs.reaches n e cs
      | .through _ _, 0 => none
      | .through e target, n + 1 => fs.reaches n e (target ++ cs)
      | .stop q, _ => if cs = [] then some q else none := by
  cases n <;> rw [reaches, reach] <;> cases fs.turn d c <;> rfl

theorem resolve_cons (fs : Entries) (n : ℕ) (d : Path) (c : String) (cs : List String) :
    fs.resolve n d (c :: cs) =
      match fs.turn d c, n with
      | .into e, n => fs.resolve n e cs
      | .through _ _, 0 => none
      | .through e target, n + 1 => fs.resolve n e (target ++ cs)
      | .stop _, _ => none := by
  cases n <;> rw [resolve, walk, turn] <;> split_ifs <;> try rfl
  all_goals rcases fs.lookup (d ++ [c]) with - | (- | - | ⟨rooted, target⟩) <;> rfl

/-- Induction along a name: the rest of it is shorter, and behind a link there are fewer links to
follow. -/
theorem way_induction {motive : ℕ → Path → List String → Prop} (nil : ∀ n d, motive n d [])
    (cons : ∀ n d c cs, (∀ e, motive n e cs) → (∀ m, n = m + 1 → ∀ e p, motive m e p) →
      motive n d (c :: cs)) (n : ℕ) (d : Path) (p : List String) : motive n d p := by
  induction n generalizing d p with
  | zero =>
    induction p generalizing d with
    | nil => exact nil 0 d
    | cons c cs ih => exact cons 0 d c cs ih nofun
  | succ n ihn =>
    induction p generalizing d with
    | nil => exact nil (n + 1) d
    | cons c cs ih => exact cons (n + 1) d c cs ih fun m hm ↦ Nat.succ.inj hm ▸ ihn

/-- A component that is no more than a name. -/
structure IsPlain (c : String) : Prop where
  ne_empty : c ≠ ""
  ne_dot : c ≠ "."
  ne_dotdot : c ≠ ".."

theorem turn_of_isPlain (hc : IsPlain c) (fs : Entries) (d : Path) :
    fs.turn d c =
      match fs.lookup (d ++ [c]) with
      | some .dir => .into (d ++ [c])
      | some (.link rooted target) => .through (if rooted then [] else d) target
      | some .file | none => .stop (d ++ [c]) := by
  rw [turn, if_neg (not_or.2 ⟨hc.ne_empty, hc.ne_dot⟩), if_neg hc.ne_dotdot]

/-- Where there are more entries, the way is the same as far as it leads. -/
theorem turn_mono (h : Sub fs fs') (d : Path) (c : String) :
    fs'.turn d c = fs.turn d c ∨ fs.turn d c = .stop (d ++ [c]) ∧ fs.lookup (d ++ [c]) = none := by
  unfold turn
  split_ifs
  · exact .inl rfl
  · exact .inl rfl
  · cases hn : fs.lookup (d ++ [c]) with
    | none => exact .inr ⟨rfl, rfl⟩
    | some n => exact .inl (by rw [h _ n hn])

/-- There is no directory where the way stops, nor a link. -/
theorem lookup_of_turn_eq_stop (h : fs.turn d c = .stop q) :
    IsPlain c ∧ q = d ++ [c] ∧ (fs.lookup q = some .file ∨ fs.lookup q = none) := by
  have hc : IsPlain c := by
    unfold turn at h
    split_ifs at h with hskip hup
    exact ⟨(not_or.1 hskip).1, (not_or.1 hskip).2, hup⟩
  rw [turn_of_isPlain hc] at h
  rcases hn : fs.lookup (d ++ [c]) with - | (- | - | ⟨rooted, target⟩) <;> rw [hn] at h
  · obtain rfl := Turn.stop.inj h
    exact ⟨hc, rfl, .inr hn⟩
  · obtain rfl := Turn.stop.inj h
    exact ⟨hc, rfl, .inl hn⟩
  · cases h
  · cases h

theorem not_isDir_of_turn_eq_stop (h : fs.turn d c = .stop q) : ¬ fs.IsDir q := by
  obtain ⟨-, rfl, hn⟩ := lookup_of_turn_eq_stop h
  rintro (hroot | hdir)
  · simp at hroot
  · rcases hn with hn | hn <;> rw [hn] at hdir <;> cases hdir

/-! ### Directories and places -/

/-- Every entry is in a directory. -/
def Closed (fs : Entries) : Prop := ∀ q n, fs.lookup q = some n → fs.IsDir q.dropLast

theorem Closed.isDir_dropLast (h : Closed fs) (hd : fs.IsDir d) : fs.IsDir d.dropLast := by
  rcases hd with rfl | hd
  · exact .inl rfl
  · exact h d _ hd

/-- A turn from a directory goes on from a directory, or stops. -/
theorem Closed.turn_cases (h : Closed fs) (hd : fs.IsDir d) (c : String) :
    (∃ e, fs.turn d c = .into e ∧ fs.IsDir e) ∨
      (∃ e target, fs.turn d c = .through e target ∧ fs.IsDir e) ∨ ∃ q, fs.turn d c = .stop q := by
  unfold turn
  split_ifs
  · exact .inl ⟨d, rfl, hd⟩
  · exact .inl ⟨d.dropLast, rfl, h.isDir_dropLast hd⟩
  · rcases hn : fs.lookup (d ++ [c]) with - | (- | - | ⟨rooted, target⟩)
    · exact .inr (.inr ⟨_, rfl⟩)
    · exact .inr (.inr ⟨_, rfl⟩)
    · exact .inl ⟨_, rfl, .inr hn⟩
    · refine .inr (.inl ⟨_, target, rfl, ?_⟩)
      cases rooted
      · exact hd
      · exact .inl rfl

/-- Where a name ends there is a directory, or in a directory a file or nothing. -/
def Ends (fs : Entries) (q : Path) : Prop :=
  fs.IsDir q ∨ fs.IsDir q.dropLast ∧ (fs.lookup q = some .file ∨ fs.lookup q = none)

/-- Whatever links are followed, a name ends in a directory. -/
theorem Closed.ends_of_reaches (h : Closed fs) (n : ℕ) (d : Path) (p : List String) :
    ∀ q, fs.IsDir d → fs.reaches n d p = some q → fs.Ends q := by
  induction n, d, p using way_induction with
  | nil n d =>
    intro q hd hq
    rw [reaches_nil] at hq
    exact .inl (Option.some.inj hq ▸ hd)
  | cons n d c cs ih ihn =>
    intro q hd hq
    rw [reaches_cons] at hq
    rcases h.turn_cases hd c with ⟨e, hturn, he⟩ | ⟨e, target, hturn, he⟩ | ⟨r, hturn⟩
    · rw [hturn] at hq
      exact ih e q he hq
    · rw [hturn] at hq
      cases n with
      | zero => cases hq
      | succ n => exact ihn n rfl e _ q he hq
    · simp only [hturn] at hq
      split_ifs at hq
      obtain rfl := Option.some.inj hq
      obtain ⟨-, rfl, hn⟩ := lookup_of_turn_eq_stop hturn
      exact .inr ⟨by rwa [List.dropLast_concat], hn⟩

variable {p : Path}

theorem Closed.ends_of_place (h : Closed fs) (hq : fs.place p = some q) : fs.Ends q :=
  h.ends_of_reaches 40 [] p q (.inl rfl) hq

/-- What is at the end of a name, if it is a directory. -/
def onlyDir (fs : Entries) (q : Option Path) : Option Path := q.filter (fs.IsDir ·)

theorem onlyDir_of_isDir (hd : fs.IsDir d) : fs.onlyDir (some d) = some d :=
  Option.filter_some_pos (by simpa using hd)

theorem onlyDir_of_turn_eq_stop (h : fs.turn d c = .stop q) : fs.onlyDir (some q) = none :=
  Option.filter_some_neg (by simpa using not_isDir_of_turn_eq_stop h)

/-- A directory is where the name leads, if there is one. -/
theorem Closed.resolve_eq (h : Closed fs) (n : ℕ) (d : Path) (p : List String) :
    fs.IsDir d → fs.resolve n d p = fs.onlyDir (fs.reaches n d p) := by
  induction n, d, p using way_induction with
  | nil n d =>
    intro hd
    rw [reaches_nil, resolve_nil, onlyDir_of_isDir hd]
  | cons n d c cs ih ihn =>
    intro hd
    rw [reaches_cons, resolve_cons]
    rcases h.turn_cases hd c with ⟨e, hturn, he⟩ | ⟨e, target, hturn, he⟩ | ⟨q, hturn⟩
    · rw [hturn]
      exact ih e he
    · rw [hturn]
      cases n with
      | zero => rfl
      | succ n => exact ihn n rfl e _ he
    · simp only [hturn]
      split_ifs
      · rw [onlyDir_of_turn_eq_stop hturn]
      · rfl

/-- **A name leads to a directory if it ends there.** -/
theorem Closed.directory_eq (h : Closed fs) (p : Path) :
    fs.directory p = fs.onlyDir (fs.place p) :=
  h.resolve_eq 40 [] p (.inl rfl)

theorem Closed.directory_eq_some_iff (h : Closed fs) :
    fs.directory p = some d ↔ fs.place p = some d ∧ fs.IsDir d := by
  rw [h.directory_eq, onlyDir, Option.filter_eq_some_iff, decide_eq_true_eq]

theorem Closed.isDir_of_directory (h : Closed fs) (hd : fs.directory p = some d) : fs.IsDir d :=
  (h.directory_eq_some_iff.1 hd).2

/-- A file or a directory is where a name ends. -/
def Solid (fs : Entries) (q : Path) : Prop := fs.IsDir q ∨ fs.lookup q = some .file

theorem Solid.mono (h : Sub fs fs') (hq : fs.Solid q) : fs'.Solid q := hq.imp (.mono h) (h q _)

/-- A name leads to the same place when more files are made. -/
theorem reaches_mono (h : Sub fs fs') (n : ℕ) (d : Path) (p : List String) :
    ∀ q, fs.reaches n d p = some q → fs'.Solid q → fs'.reaches n d p = some q := by
  induction n, d, p using way_induction with
  | nil n d => simp
  | cons n d c cs ih ihn =>
    intro q hq hsolid
    rw [reaches_cons] at hq ⊢
    rcases turn_mono h d c with hsame | ⟨hstop, hnone⟩
    · rw [hsame]
      cases hturn : fs.turn d c with
      | into e =>
        rw [hturn] at hq
        exact ih e q hq hsolid
      | through e target =>
        rw [hturn] at hq
        cases n with
        | zero => cases hq
        | succ n => exact ihn n rfl e _ q hq hsolid
      | stop r =>
        rw [hturn] at hq
        exact hq
    · simp only [hstop] at hq
      split_ifs at hq with hcs
      obtain rfl := Option.some.inj hq
      obtain rfl := hcs
      rw [turn_of_isPlain (lookup_of_turn_eq_stop hstop).1]
      rcases hsolid with (hroot | hdir) | hfile
      · simp at hroot
      · simp [hdir]
      · simp [hfile]

/-- **Where a name ends does not change when entries are added**, if there is then a file or a
directory. -/
theorem place_mono (h : Sub fs fs') (hq : fs.place p = some q) (hsolid : fs'.Solid q) :
    fs'.place p = some q :=
  reaches_mono h 40 [] p q hq hsolid

/-- What was there is there still. -/
theorem stat_mono (h : Sub fs fs') (hclosed : Closed fs) {n : Node} (hstat : fs.stat p = some n) :
    fs'.stat p = some n := by
  unfold stat at hstat
  cases hq : fs.place p with
  | none => simp [hq] at hstat
  | some q =>
    simp only [hq] at hstat
    have hsolid : fs.Solid q := by
      rcases hclosed.ends_of_place hq with hdir | ⟨-, hfile | hnone⟩
      · exact .inl hdir
      · exact .inr hfile
      · split_ifs at hstat with hroot
        · exact .inl (.inl hroot)
        · rw [hnone] at hstat
          cases hstat
    rw [stat, place_mono h hq (hsolid.mono h)]
    dsimp only
    split_ifs at hstat ⊢
    · exact hstat
    · exact h q n hstat

/-! ### Longer names -/

/-- The way to the end of a name is that to a directory on it, and from there. What has been
followed before counts for the links behind. -/
theorem Closed.exists_reaches_append (h : Closed fs) (c : String) (cs : List String) (n : ℕ)
    (d : Path) (p : List String) : fs.IsDir d → ∃ m, fs.reaches n d (p ++ c :: cs) =
      (fs.onlyDir (fs.reaches n d p)).bind (fs.reaches m · (c :: cs)) := by
  induction n, d, p using way_induction with
  | nil n d =>
    intro hd
    exact ⟨n, by rw [reaches_nil, onlyDir_of_isDir hd]; rfl⟩
  | cons n d b p ih ihn =>
    intro hd
    rw [List.cons_append, reaches_cons, reaches_cons fs n d b p]
    rcases h.turn_cases hd b with ⟨e, hturn, he⟩ | ⟨e, target, hturn, he⟩ | ⟨q, hturn⟩
    · rw [hturn]
      exact ih e he
    · rw [hturn]
      cases n with
      | zero => exact ⟨0, rfl⟩
      | succ n =>
        dsimp only
        rw [← List.append_assoc]
        exact ihn n rfl e _ he
    · -- the name goes on behind a file, or behind nothing
      refine ⟨n, ?_⟩
      simp only [hturn, List.append_eq_nil_iff, reduceCtorEq, and_false, if_false]
      split_ifs
      · rw [onlyDir_of_turn_eq_stop hturn, Option.bind_none]
      · rfl

theorem Closed.exists_place_append (h : Closed fs) (p : Path) (c : String) (cs : List String) :
    ∃ m, fs.place (p ++ c :: cs) = (fs.directory p).bind (fs.reaches m · (c :: cs)) := by
  rw [h.directory_eq]
  exact h.exists_reaches_append c cs 40 [] p (.inl rfl)

/-- On the way to the end of a name there are directories. -/
theorem Closed.directory_ne_none (h : Closed fs) (hplace : fs.place (p ++ c :: cs) ≠ none) :
    fs.directory p ≠ none := by
  obtain ⟨f, hf⟩ := h.exists_place_append p c cs
  intro hnone
  rw [hf, hnone] at hplace
  exact hplace rfl

theorem Closed.directory_ne_none_of_append (h : Closed fs) (hdir : fs.directory (p ++ cs) ≠ none) :
    fs.directory p ≠ none := by
  cases cs with
  | nil => simpa using hdir
  | cons c cs =>
    obtain ⟨d, hd⟩ := Option.ne_none_iff_exists'.1 hdir
    have hplace : fs.place (p ++ c :: cs) ≠ none := by
      rw [(h.directory_eq_some_iff.1 hd).1]
      exact nofun
    exact h.directory_ne_none hplace

/-- A directory in a directory. -/
theorem Closed.directory_concat (h : Closed fs) (hc : IsPlain c) (hd : fs.directory p = some d)
    (hdir : fs.lookup (d ++ [c]) = some .dir) : fs.directory (p ++ [c]) = some (d ++ [c]) := by
  obtain ⟨f, hf⟩ := h.exists_place_append p c []
  refine h.directory_eq_some_iff.2 ⟨?_, .inr hdir⟩
  simp [hf, hd, reaches_cons, turn_of_isPlain hc, hdir]

theorem Closed.stat_eq_dir_iff (h : Closed fs) (p : Path) :
    fs.stat p = some .dir ↔ fs.directory p ≠ none := by
  rw [h.directory_eq, stat, onlyDir]
  cases fs.place p with
  | none => simp
  | some q =>
    dsimp only
    split_ifs with hroot
    · simp [hroot, IsDir]
    · simp [hroot, IsDir, Option.filter_some]

/-- A name of which only the last component is missing. -/
theorem Closed.place_concat (h : Closed fs) (hc : IsPlain c) (hd : fs.directory p = some d)
    (hfree : fs.lookup (d ++ [c]) = none) : fs.place (p ++ [c]) = some (d ++ [c]) := by
  obtain ⟨f, hf⟩ := h.exists_place_append p c []
  simp [hf, hd, reaches_cons, turn_of_isPlain hc, hfree]

theorem Closed.stat_concat (h : Closed fs) (hc : IsPlain c) (hd : fs.directory p = some d)
    (hfree : fs.lookup (d ++ [c]) = none) : fs.stat (p ++ [c]) = none := by
  rw [stat, h.place_concat hc hd hfree]
  simpa using hfree

/-- What a name is about is in a directory. -/
theorem Closed.isDir_of_locate (h : Closed fs) (hq : fs.locate p = some q) :
    fs.IsDir q.dropLast := by
  unfold locate at hq
  split at hq
  · cases hq
  · obtain ⟨d, hd, rfl⟩ := Option.map_eq_some_iff.1 hq
    rw [List.dropLast_concat]
    exact h.isDir_of_directory hd

theorem sub_insert (hfree : fs.lookup q = none) (n : Node) : Sub fs (fs.insert q n) := by
  intro r m hr
  have hne : r ≠ q := by
    rintro rfl
    rw [hfree] at hr
    cases hr
  rwa [AList.lookup_insert_ne hne]

/-- The entry that is made is in a directory. -/
theorem Closed.insert (h : Closed fs) (hfree : fs.lookup q = none) (hdir : fs.IsDir q.dropLast)
    (n : Node) : Closed (fs.insert q n) := by
  intro r m hr
  refine .mono (sub_insert hfree n) ?_
  by_cases hne : r = q
  · rw [hne]
    exact hdir
  · rw [AList.lookup_insert_ne hne] at hr
    exact h r m hr

/-- It is enough to look at the entries that are listed. -/
theorem closed_of_forall_mem (h : ∀ e ∈ fs.entries, fs.IsDir e.1.dropLast) : Closed fs :=
  fun q n hq ↦ h ⟨q, n⟩ (AList.mem_lookup_iff.1 hq)

end Entries

end Filepath
