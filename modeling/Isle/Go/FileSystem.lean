import Isle.Go.Places

/-!
# File systems with contents

The entries of a file system, each in a directory that is there, and what is in the files; and the
operations of `os` that make entries and write. An operation fails where it must, and the system may
refuse it for other reasons, of which nothing is assumed: a name can be too long, the disk full.

`os.MkdirAll` makes the directories that are missing one by one, and what it has made is still there
if it fails at one of them. `same_mkdirAll_iff` says when it changes nothing.
-/

namespace Filepath

open Entries

/-- The entries, and what is in the files. -/
structure FileSystem where
  entries : Entries
  data : Path → List UInt8
  closed : entries.Closed

/-- Which calls the system grants, as far as it is for it to say. -/
structure Grants where
  mkdir : Path → Bool
  create : Path → Bool
  symlink : Path → Bool

namespace FileSystem

/-! ### Operations -/

/-- A new entry in a directory. -/
def add (fs : FileSystem) (q : Path) (n : Node) (hfree : fs.entries.lookup q = none)
    (hdir : fs.entries.IsDir q.dropLast) : FileSystem where
  entries := fs.entries.insert q n
  data := fs.data
  closed := fs.closed.insert hfree hdir n

/-- A new entry by its name, of which the last component is not followed. -/
def newEntry (fs : FileSystem) (p : Path) (n : Node) : Option FileSystem :=
  match hq : fs.entries.locate p with
  | none => none
  | some q =>
    if hfree : fs.entries.lookup q = none then
      some (fs.add q n hfree (fs.closed.isDir_of_locate hq))
    else none

/-- `os.Mkdir` -/
def mkdir (g : Grants) (fs : FileSystem) (p : Path) : Option FileSystem :=
  if g.mkdir p then fs.newEntry p .dir else none

/-- `os.Symlink`, for a rooted target. -/
def symlink (g : Grants) (fs : FileSystem) (target p : Path) : Option FileSystem :=
  if g.symlink p then fs.newEntry p (.link true target) else none

/-- `os.MkdirAll`, for the components of a path from the last to the first. -/
def mkdirAllRev (g : Grants) (fs : FileSystem) : List String → Bool × FileSystem
  | [] => (true, fs)
  | c :: cs =>
    match fs.entries.stat (c :: cs).reverse with
    | some .dir => (true, fs)
    | some _ => (false, fs)
    | none =>
      match mkdirAllRev g fs cs with
      | (false, fs₁) => (false, fs₁)
      | (true, fs₁) =>
        match fs₁.mkdir g (c :: cs).reverse with
        | some fs₂ => (true, fs₂)
        | none => (fs₁.entries.lstat (c :: cs).reverse = some .dir, fs₁)

/-- `os.MkdirAll`: whether it succeeds, and what there is afterwards. -/
def mkdirAll (g : Grants) (fs : FileSystem) (p : Path) : Bool × FileSystem :=
  fs.mkdirAllRev g p.reverse

/-- `os.Create`: where the file is that is open, and what there is then. The file is made, or it
loses what is in it. -/
def create (g : Grants) (fs : FileSystem) (p : Path) : Option (Path × FileSystem) :=
  match hq : fs.entries.place p with
  | none => none
  | some q =>
    if hdir : fs.entries.IsDir q then none
    else if g.create p = false then none
    else if hfree : fs.entries.lookup q = none then
      some (q, { fs.add q .file hfree ((fs.closed.ends_of_place hq).resolve_left hdir).1 with
        data := Function.update fs.data q [] })
    else some (q, { fs with data := Function.update fs.data q [] })

/-- `File.Write`, of what is written of a text. -/
def write (fs : FileSystem) (q : Path) (text : List UInt8) : FileSystem :=
  { fs with data := Function.update fs.data q (fs.data q ++ text) }

/-! ### What they change -/

variable {g : Grants} {fs fs₁ fs₂ : FileSystem} {p q : Path} {c : String} {n : Node}

/-- There are the same entries, and the files have the same in them. -/
structure Same (fs fs₁ : FileSystem) : Prop where
  lookup_eq : ∀ q, fs₁.entries.lookup q = fs.entries.lookup q
  data_eq : ∀ q, fs.entries.lookup q = some .file → fs₁.data q = fs.data q

theorem same_rfl : Same fs fs := ⟨fun _ ↦ rfl, fun _ _ ↦ rfl⟩

theorem Same.sub (h : Same fs fs₁) : Sub fs₁.entries fs.entries :=
  fun q _ hq ↦ (h.lookup_eq q).symm.trans hq

/-- There are more entries, and no file has been written. -/
structure Grows (fs fs₁ : FileSystem) : Prop where
  sub : Sub fs.entries fs₁.entries
  data_eq : fs₁.data = fs.data

theorem grows_rfl : Grows fs fs := ⟨sub_rfl, rfl⟩

theorem Grows.trans (h : Grows fs fs₁) (h' : Grows fs₁ fs₂) : Grows fs fs₂ :=
  ⟨h.sub.trans h'.sub, h'.data_eq.trans h.data_eq⟩

/-- If nothing is new in the end, nothing was in between. -/
theorem Grows.same_of_same (h : Grows fs fs₁) (hsub : Sub fs₁.entries fs₂.entries)
    (hsame : Same fs fs₂) : Same fs fs₁ := by
  refine ⟨fun q ↦ ?_, fun q _ ↦ congrFun h.data_eq q⟩
  cases hn : fs.entries.lookup q with
  | some n => exact h.sub q n hn
  | none => exact hsub.lookup_eq_none ((hsame.lookup_eq q).trans hn)

theorem newEntry_eq_some (h : fs.newEntry p n = some fs₁) :
    ∃ q, fs.entries.locate p = some q ∧ fs.entries.lookup q = none ∧
      fs₁.entries = fs.entries.insert q n ∧ fs₁.data = fs.data := by
  unfold newEntry at h
  split at h
  · cases h
  · next q hq =>
    split_ifs at h with hfree
    obtain rfl := Option.some.inj h
    exact ⟨q, hq, hfree, rfl, rfl⟩

theorem newEntry_eq_none_iff :
    fs.newEntry p n = none ↔ ∀ q, fs.entries.locate p = some q → fs.entries.lookup q ≠ none := by
  unfold newEntry
  split
  · next hq => simp [hq]
  · next q hq =>
    split_ifs with hfree
    · simp [hq, hfree]
    · simpa [hq] using hfree

theorem grows_of_newEntry (h : fs.newEntry p n = some fs₁) : Grows fs fs₁ := by
  obtain ⟨q, -, hfree, hentries, hdata⟩ := newEntry_eq_some h
  exact ⟨hentries ▸ sub_insert hfree n, hdata⟩

theorem not_same_of_newEntry (hgrows : Grows fs fs₁) (h : fs₁.newEntry p n = some fs₂) :
    ¬ Same fs fs₂ := by
  obtain ⟨q, -, hfree, hentries, -⟩ := newEntry_eq_some h
  intro hsame
  have hq := hsame.lookup_eq q
  rw [hentries, AList.lookup_insert, hgrows.sub.lookup_eq_none hfree] at hq
  cases hq

theorem newEntry_of_mkdir (h : fs.mkdir g p = some fs₁) : fs.newEntry p .dir = some fs₁ := by
  unfold mkdir at h
  split_ifs at h
  exact h

/-- Directories are made, and nothing else. -/
theorem grows_mkdirAllRev (cs : List String) : Grows fs (fs.mkdirAllRev g cs).2 := by
  induction cs with
  | nil => exact grows_rfl
  | cons c cs ih =>
    unfold mkdirAllRev
    split
    · exact grows_rfl
    · exact grows_rfl
    · split
      · next hrest =>
        rw [hrest] at ih
        exact ih
      · next hrest =>
        rw [hrest] at ih
        split
        · next hmk => exact ih.trans (grows_of_newEntry (newEntry_of_mkdir hmk))
        · exact ih

/-- It makes directories and does nothing else. -/
theorem grows_of_mkdirAll {ok : Bool} (h : fs.mkdirAll g p = (ok, fs₁)) : Grows fs fs₁ := by
  have hgrows : Grows fs (fs.mkdirAll g p).2 := grows_mkdirAllRev _
  rwa [h] at hgrows

variable {cs : List String} {d : Path}

/-- After an `os.MkdirAll` that succeeds, the path leads to a directory. -/
theorem directory_mkdirAllRev (hclean : ∀ c ∈ cs, IsPlain c)
    (h : fs.mkdirAllRev g cs = (true, fs₁)) : fs₁.entries.directory cs.reverse ≠ none := by
  induction cs generalizing fs₁ with
  | nil => exact nofun
  | cons c cs ih =>
    have hc : IsPlain c := hclean c List.mem_cons_self
    unfold mkdirAllRev at h
    split at h
    · next hstat =>
      obtain rfl := (Prod.mk.inj h).2
      exact (fs.closed.stat_eq_dir_iff _).1 hstat
    · cases h
    · split at h
      · cases h
      · next fs₂ hrest =>
        -- the parents are there, so the name is one component below a directory
        have hparent := ih (fun b hb ↦ hclean b (List.mem_cons_of_mem c hb)) hrest
        obtain ⟨d, hd⟩ := Option.ne_none_iff_exists'.1 hparent
        have hlocate : fs₂.entries.locate (c :: cs).reverse = some (d ++ [c]) := by
          rw [List.reverse_cons, locate_concat, hd]
          rfl
        suffices Sub fs₂.entries fs₁.entries ∧ fs₁.entries.lookup (d ++ [c]) = some .dir by
          rw [List.reverse_cons, fs₁.closed.directory_concat hc (directory_mono this.1 hd) this.2]
          exact nofun
        split at h
        · next fs₃ hmk =>
          obtain rfl := (Prod.mk.inj h).2
          have hnew := newEntry_of_mkdir hmk
          obtain ⟨q, hq, -, hentries, -⟩ := newEntry_eq_some hnew
          obtain rfl := Option.some.inj (hlocate.symm.trans hq)
          exact ⟨(grows_of_newEntry hnew).sub, hentries ▸ AList.lookup_insert _⟩
        · obtain ⟨hdir, rfl⟩ := Prod.mk.inj h
          rw [decide_eq_true_eq, lstat, if_neg (by simp), hlocate] at hdir
          exact ⟨sub_rfl, hdir⟩

/-- The first directory that is missing on the way cannot be made: there is something else there, or
the system refuses it. -/
def Stuck (g : Grants) (fs : FileSystem) (p : Path) : Prop :=
  ∃ front c rest d, p = front ++ c :: rest ∧ fs.entries.directory front = some d ∧
    fs.entries.directory (front ++ [c]) = none ∧
      (fs.entries.lookup (d ++ [c]) ≠ none ∨ g.mkdir (front ++ [c]) = false)

private theorem concat_eq_append_cons {α : Type*} {p front rest : List α} {b c : α}
    (h : p ++ [c] = front ++ b :: rest) : p = front ∧ c = b ∨ ∃ mid, p = front ++ b :: mid := by
  rcases List.append_eq_append_iff.1 h with ⟨as, rfl, has⟩ | ⟨as, rfl, has⟩
  · cases as with
    | nil => exact .inl ⟨by simp, by simpa using (List.cons.inj has).1⟩
    | cons a as => simp at has
  · cases as with
    | nil => exact .inl ⟨by simp, (List.cons.inj has).1.symm⟩
    | cons a as =>
      obtain ⟨rfl, -⟩ := List.cons.inj has
      exact .inr ⟨as, rfl⟩

theorem stuck_concat_of_none (h : fs.entries.directory p = none) :
    Stuck g fs (p ++ [c]) ↔ Stuck g fs p := by
  constructor
  · rintro ⟨front, b, rest, d, hp, hd, hstuck⟩
    rcases concat_eq_append_cons hp with ⟨rfl, -⟩ | ⟨mid, rfl⟩
    · rw [h] at hd
      cases hd
    · exact ⟨front, b, mid, d, rfl, hd, hstuck⟩
  · rintro ⟨front, b, rest, d, rfl, hstuck⟩
    exact ⟨front, b, rest ++ [c], d, List.append_assoc front (b :: rest) [c], hstuck⟩

theorem stuck_concat_of_some (hd : fs.entries.directory p = some d)
    (hnone : fs.entries.directory (p ++ [c]) = none) :
    Stuck g fs (p ++ [c]) ↔ fs.entries.lookup (d ++ [c]) ≠ none ∨ g.mkdir (p ++ [c]) = false := by
  refine ⟨?_, fun h ↦ ⟨p, c, [], d, rfl, hd, hnone, h⟩⟩
  rintro ⟨front, b, rest, e, hp, he, hmissing, hstuck⟩
  rcases concat_eq_append_cons hp with ⟨rfl, rfl⟩ | ⟨mid, rfl⟩
  · obtain rfl := Option.some.inj (hd.symm.trans he)
    exact hstuck
  · -- What is missing would be on the way to a directory.
    have hthere : fs.entries.directory (front ++ [b] ++ mid) ≠ none := by
      rw [List.append_assoc, List.singleton_append, hd]
      exact nofun
    exact absurd hmissing (fs.closed.directory_ne_none_of_append hthere)

theorem mkdirAllRev_of_directory (h : fs.entries.directory cs.reverse ≠ none) :
    fs.mkdirAllRev g cs = (true, fs) := by
  cases cs with
  | nil => rfl
  | cons c cs => rw [mkdirAllRev, (fs.closed.stat_eq_dir_iff _).2 h]

/-- `os.Mkdir` in a directory. -/
theorem mkdir_eq_none_iff (hd : fs.entries.directory p = some d) :
    fs.mkdir g (p ++ [c]) = none ↔
      fs.entries.lookup (d ++ [c]) ≠ none ∨ g.mkdir (p ++ [c]) = false := by
  rw [mkdir]
  split_ifs with hgrant
  · rw [newEntry_eq_none_iff, locate_concat, hd]
    simp [hgrant]
  · exact iff_of_true rfl (.inr (by simpa using hgrant))

/-- In a directory, `os.MkdirAll` makes the one that is missing, or nothing. -/
theorem mkdirAllRev_cons_of_some (hc : IsPlain c) (hd : fs.entries.directory cs.reverse = some d)
    (hmissing : fs.entries.directory (cs.reverse ++ [c]) = none) :
    (fs.mkdirAllRev g (c :: cs)).2 = (fs.mkdir g (cs.reverse ++ [c])).getD fs := by
  have hrest : fs.mkdirAllRev g cs = (true, fs) :=
    mkdirAllRev_of_directory (by rw [hd]; exact nofun)
  rw [mkdirAllRev, List.reverse_cons, hrest]
  split
  · next hstat => exact absurd hmissing ((fs.closed.stat_eq_dir_iff _).1 hstat)
  · next n _ hstat =>
    have hnone : fs.mkdir g (cs.reverse ++ [c]) = none := by
      refine (mkdir_eq_none_iff hd).2 (.inl fun hfree ↦ ?_)
      rw [fs.closed.stat_concat hc hd hfree] at hstat
      cases hstat
    rw [hnone]
    rfl
  · dsimp only
    cases fs.mkdir g (cs.reverse ++ [c]) <;> rfl

/-- Where there was no directory, one has been made. -/
theorem not_same_of_mkdirAllRev (hclean : ∀ c ∈ cs, IsPlain c)
    (hnone : fs.entries.directory cs.reverse = none) (h : fs.mkdirAllRev g cs = (true, fs₁)) :
    ¬ Same fs fs₁ := by
  intro hsame
  obtain ⟨d, hd⟩ := Option.ne_none_iff_exists'.1 (directory_mkdirAllRev hclean h)
  rw [directory_mono hsame.sub hd] at hnone
  cases hnone

/-- What is missing on the way is made first, and if that succeeds something has changed. -/
theorem same_mkdirAllRev_cons_of_none (hclean : ∀ c ∈ cs, IsPlain c)
    (hparent : fs.entries.directory cs.reverse = none) :
    Same fs (fs.mkdirAllRev g (c :: cs)).2 ↔ Same fs (fs.mkdirAllRev g cs).2 := by
  have hplace : fs.entries.place (cs.reverse ++ [c]) = none := by
    by_contra hplace
    exact fs.closed.directory_ne_none hplace hparent
  have hstat : fs.entries.stat (c :: cs).reverse = none := by
    rw [List.reverse_cons, stat, hplace]
  have hgrows : Grows fs (fs.mkdirAllRev g cs).2 := grows_mkdirAllRev cs
  rw [mkdirAllRev, hstat]
  rcases hrest : fs.mkdirAllRev g cs with ⟨- | -, fs₁⟩
  · rfl
  · rw [hrest] at hgrows
    have hchanged := not_same_of_mkdirAllRev hclean hparent hrest
    refine iff_of_false (fun hsame ↦ hchanged (hgrows.same_of_same ?_ hsame)) hchanged
    dsimp only
    split
    · next hmk => exact (grows_of_newEntry (newEntry_of_mkdir hmk)).sub
    · exact sub_rfl

/-- Nothing is made exactly if all is there or nothing can be. -/
theorem same_mkdirAllRev_iff (hclean : ∀ c ∈ cs, IsPlain c) :
    Same fs (fs.mkdirAllRev g cs).2 ↔
      fs.entries.directory cs.reverse ≠ none ∨ Stuck g fs cs.reverse := by
  induction cs with
  | nil => exact iff_of_true same_rfl (.inl nofun)
  | cons c cs ih =>
    have hc : IsPlain c := hclean c List.mem_cons_self
    replace hclean : ∀ b ∈ cs, IsPlain b := fun b hb ↦ hclean b (List.mem_cons_of_mem c hb)
    by_cases hdir : fs.entries.directory (c :: cs).reverse ≠ none
    · rw [mkdirAllRev_of_directory hdir]
      exact iff_of_true same_rfl (.inl hdir)
    rw [or_iff_right hdir, List.reverse_cons]
    replace hdir : fs.entries.directory (cs.reverse ++ [c]) = none := by simpa using hdir
    cases hparent : fs.entries.directory cs.reverse with
    | some d =>
      rw [stuck_concat_of_some hparent hdir, mkdirAllRev_cons_of_some hc hparent hdir,
        ← mkdir_eq_none_iff hparent]
      cases hmk : fs.mkdir g (cs.reverse ++ [c]) with
      | none => exact iff_of_true same_rfl rfl
      | some fs₁ =>
        exact iff_of_false (not_same_of_newEntry grows_rfl (newEntry_of_mkdir hmk)) nofun
    | none =>
      rw [stuck_concat_of_none hparent, same_mkdirAllRev_cons_of_none hclean hparent, ih hclean,
        hparent, or_iff_right (not_not_intro rfl)]

/-- **`os.MkdirAll` changes nothing exactly if there is nothing to make or the first of the
directories cannot be made.** -/
theorem same_mkdirAll_iff (hclean : ∀ c ∈ p, IsPlain c) :
    Same fs (fs.mkdirAll g p).2 ↔ fs.entries.directory p ≠ none ∨ Stuck g fs p := by
  have hrev : Same fs (fs.mkdirAllRev g p.reverse).2 ↔ _ :=
    same_mkdirAllRev_iff (by simpa using hclean)
  rwa [List.reverse_reverse] at hrev

theorem directory_mkdirAll (hclean : ∀ c ∈ p, IsPlain c) (h : fs.mkdirAll g p = (true, fs₁)) :
    fs₁.entries.directory p ≠ none := by
  have hrev := directory_mkdirAllRev (by simpa using hclean) h
  rwa [List.reverse_reverse] at hrev

theorem not_same_of_mkdirAll (hclean : ∀ c ∈ p, IsPlain c)
    (hnone : fs.entries.directory p = none) (h : fs.mkdirAll g p = (true, fs₁)) : ¬ Same fs fs₁ :=
  not_same_of_mkdirAllRev (by simpa using hclean) (by rwa [List.reverse_reverse]) h

theorem mkdirAll_of_directory (h : fs.entries.directory p ≠ none) : fs.mkdirAll g p = (true, fs) :=
  mkdirAllRev_of_directory (by rwa [List.reverse_reverse])

/-! ### Making a link -/

/-- A link can be made at a path: it is about no entry that is there. -/
def Vacant (g : Grants) (fs : FileSystem) (p : Path) : Prop :=
  g.symlink p = true ∧ ∃ q, fs.entries.locate p = some q ∧ fs.entries.lookup q = none

theorem symlink_eq_none_iff {target : Path} :
    fs.symlink g target p = none ↔ ¬ Vacant g fs p := by
  rw [symlink, Vacant]
  split_ifs with hgrant
  · rw [newEntry_eq_none_iff]
    simp [hgrant]
  · exact iff_of_true rfl fun h ↦ hgrant h.1

/-! ### Writing a file -/

/-- `os.Create` opens the file at a path: the name ends there, at no directory. -/
structure Opens (g : Grants) (fs : FileSystem) (p q : Path) : Prop where
  place_eq : fs.entries.place p = some q
  not_isDir : ¬ fs.entries.IsDir q
  granted : g.create p = true

theorem Opens.lookup (h : Opens g fs p q) :
    fs.entries.lookup q = some .file ∨ fs.entries.lookup q = none :=
  ((fs.closed.ends_of_place h.place_eq).resolve_left h.not_isDir).2

theorem create_eq_none_iff : fs.create g p = none ↔ ∀ q, ¬ Opens g fs p q := by
  unfold create
  split
  · next hq =>
    refine iff_of_true rfl fun q h ↦ ?_
    rw [h.place_eq] at hq
    cases hq
  · next q hq =>
    split_ifs with hdir hgrant hfree
    · refine iff_of_true rfl fun r h ↦ h.not_isDir ?_
      obtain rfl := Option.some.inj (hq.symm.trans h.place_eq)
      exact hdir
    · refine iff_of_true rfl fun r h ↦ ?_
      rw [h.granted] at hgrant
      cases hgrant
    · exact iff_of_false nofun fun h ↦ h q ⟨hq, hdir, by simpa using hgrant⟩
    · exact iff_of_false nofun fun h ↦ h q ⟨hq, hdir, by simpa using hgrant⟩

/-- What `os.Create` does. -/
structure Created (g : Grants) (fs : FileSystem) (p q : Path) (fs₁ : FileSystem) : Prop where
  opens : Opens g fs p q
  sub : Sub fs.entries fs₁.entries
  isFile : fs₁.entries.lookup q = some .file
  lookup_of_ne : ∀ r, r ≠ q → fs₁.entries.lookup r = fs.entries.lookup r
  data_eq : fs₁.data = Function.update fs.data q []

theorem created_of_create (h : fs.create g p = some (q, fs₁)) : Created g fs p q fs₁ := by
  unfold create at h
  split at h
  · cases h
  · next q' hq =>
    split_ifs at h with hdir hgrant hfree
    · obtain ⟨rfl, rfl⟩ := Prod.mk.inj (Option.some.inj h)
      exact ⟨⟨hq, hdir, by simpa using hgrant⟩, sub_insert hfree _, AList.lookup_insert _,
        fun r hr ↦ AList.lookup_insert_ne hr, rfl⟩
    · obtain ⟨rfl, rfl⟩ := Prod.mk.inj (Option.some.inj h)
      have hopens : Opens g fs p q' := ⟨hq, hdir, by simpa using hgrant⟩
      exact ⟨hopens, sub_rfl, hopens.lookup.resolve_right hfree, fun _ _ ↦ rfl, rfl⟩

/-- The name is now that of the file. -/
theorem Created.place_eq (h : Created g fs p q fs₁) : fs₁.entries.place p = some q :=
  place_mono h.sub h.opens.place_eq (.inr h.isFile)

theorem Created.data_write (h : Created g fs p q fs₁) (text : List UInt8) :
    (fs₁.write q text).data = Function.update fs.data q text := by
  funext r
  by_cases hr : r = q
  · simp [write, h.data_eq, hr]
  · simp [write, h.data_eq, Function.update_of_ne hr]

/-- **Nothing is changed exactly if the file has been there, with that text.** -/
theorem Created.same_write_iff (h : Created g fs p q fs₁) (text : List UInt8) :
    Same fs (fs₁.write q text) ↔ fs.entries.lookup q = some .file ∧ fs.data q = text := by
  have hdata := h.data_write text
  constructor
  · intro hsame
    have hfile : fs.entries.lookup q = some .file := (hsame.lookup_eq q).symm.trans h.isFile
    refine ⟨hfile, ?_⟩
    rw [← hsame.data_eq q hfile, hdata, Function.update_self]
  · rintro ⟨hfile, rfl⟩
    rw [Function.update_eq_self] at hdata
    refine ⟨fun r ↦ ?_, fun r _ ↦ congrFun hdata r⟩
    by_cases hr : r = q
    · rw [hr, hfile]
      exact h.isFile
    · exact h.lookup_of_ne r hr

end FileSystem

/-! ### Joined names -/

theorem isPlain_of_mem_join {p : Path} (hp : ∀ c ∈ p, IsPlain c) (s : String) :
    ∀ c ∈ join p s, IsPlain c := by
  rw [join]
  induction components s generalizing p with
  | nil => exact hp
  | cons b bs ih =>
    refine ih fun c hc ↦ ?_
    unfold cleanStep at hc
    split_ifs at hc with hskip hup
    · exact hp c hc
    · exact hp c (List.mem_of_mem_dropLast hc)
    · rcases List.mem_append.1 hc with hc | hc
      · exact hp c hc
      · obtain rfl := List.mem_singleton.1 hc
        exact ⟨(not_or.1 hskip).1, (not_or.1 hskip).2, hup⟩

end Filepath
