import Isle.Go.Filepath
import Mathlib.Data.List.AList

/-!
# Directory entries and symbolic links

The entries of a file system by the path at which each of them is. A name is not such a path: the
directories on the way to an entry may be links, and `os.Symlink` and `os.Remove` follow them.
`locate` is where they end up. They do not follow the last component.

What is said about a change of the entries is said with `Sub`: where a name leads does not change
when entries are added (`locate_mono`).
-/

namespace Filepath

/-- What can be at a path. -/
inductive Node
  | file
  | dir
  /-- A link, with the components of its target, which is rooted or starts from the directory of the
  link. -/
  | link (rooted : Bool) (target : List String)
  deriving DecidableEq, Repr

/-- What is at each path. -/
abbrev Entries := AList fun _ : Path ↦ Node

namespace Entries

/-! ### Where a name leads -/

/-- Go through the components of a name from a directory; a link is left to `follow`. -/
def walk (fs : Entries) (follow : Path → List String → Option Path) :
    Path → List String → Option Path
  | d, [] => some d
  | d, c :: cs =>
    if c = "" ∨ c = "." then walk fs follow d cs
    else if c = ".." then walk fs follow d.dropLast cs
    else
      match fs.lookup (d ++ [c]) with
      | some .dir => walk fs follow (d ++ [c]) cs
      | some (.link rooted target) => follow (if rooted then [] else d) (target ++ cs)
      | some .file | none => none

/-- The directory that a name leads to, through so many links at most. -/
def resolve (fs : Entries) : ℕ → Path → List String → Option Path
  | 0 => walk fs fun _ _ ↦ none
  | n + 1 => walk fs (resolve fs n)

/-- The directory that a rooted name leads to. The system follows 40 links. -/
def directory (fs : Entries) (p : Path) : Option Path := fs.resolve 40 [] p

/-- The path of the entry that a rooted name is about. -/
def locate (fs : Entries) (p : Path) : Option Path :=
  match p.getLast? with
  | none => none
  | some c => (fs.directory p.dropLast).map (· ++ [c])

/-! ### Operations -/

/-- `os.Symlink`, for a rooted target. It fails where something is there, and may fail otherwise. -/
def symlink (fs : Entries) (target p : Path) (ok : Bool) : Entries :=
  match fs.locate p with
  | none => fs
  | some q => if ok = true ∧ fs.lookup q = none then fs.insert q (.link true target) else fs

/-- There is nothing below a path. -/
def isEmptyAt (fs : Entries) (q : Path) : Bool := fs.keys.all fun r ↦ ¬ (q <+: r ∧ r ≠ q)

/-- `os.Remove`: a file or a link is unlinked, and a directory is removed if it is empty. -/
def remove (fs : Entries) (p : Path) : Entries :=
  match fs.locate p with
  | none => fs
  | some q =>
    match fs.lookup q with
    | some .dir => if fs.isEmptyAt q then fs.erase q else fs
    | some .file | some (.link _ _) => fs.erase q
    | none => fs

/-! ### More entries -/

/-- All that is there is there too. -/
def Sub (fs fs' : Entries) : Prop := ∀ q n, fs.lookup q = some n → fs'.lookup q = some n

variable {fs fs' : Entries}

theorem sub_rfl : Sub fs fs := fun _ _ h ↦ h

theorem Sub.trans {fs'' : Entries} (h : Sub fs fs') (h' : Sub fs' fs'') : Sub fs fs'' :=
  fun q n hq ↦ h' q n (h q n hq)

theorem Sub.lookup_eq_none (h : Sub fs fs') {q : Path} (hq : fs'.lookup q = none) :
    fs.lookup q = none := by
  cases hn : fs.lookup q with
  | none => rfl
  | some n =>
    rw [h q n hn] at hq
    cases hq

theorem sub_erase (h : Sub fs fs') {q : Path} (hq : fs.lookup q = none) : Sub fs (fs'.erase q) := by
  intro r n hr
  have hne : r ≠ q := by
    rintro rfl
    rw [hq] at hr
    cases hr
  rw [AList.lookup_erase_ne hne]
  exact h r n hr

theorem erase_sub (h : Sub fs fs') (q : Path) : Sub (fs.erase q) fs' := by
  intro r n hr
  by_cases hne : r = q
  · rw [hne, AList.lookup_erase] at hr
    cases hr
  · rw [AList.lookup_erase_ne hne] at hr
    exact h r n hr

/-- With more files, a walk that ends still ends there. -/
theorem walk_mono (h : Sub fs fs') {follow follow' : Path → List String → Option Path}
    (hfollow : ∀ d cs q, follow d cs = some q → follow' d cs = some q) (cs : List String) :
    ∀ d q, walk fs follow d cs = some q → walk fs' follow' d cs = some q := by
  induction cs with
  | nil => exact fun d q hq ↦ hq
  | cons c cs ih =>
    intro d q hq
    unfold walk at hq ⊢
    split_ifs at hq ⊢
    · exact ih d q hq
    · exact ih _ q hq
    · cases hn : fs.lookup (d ++ [c]) with
      | none => simp [hn] at hq
      | some n =>
        rw [h _ n hn]
        rw [hn] at hq
        cases n with
        | file => exact hq
        | dir => exact ih _ q hq
        | link rooted target => exact hfollow _ _ q hq

theorem resolve_mono (h : Sub fs fs') (n : ℕ) :
    ∀ d cs q, fs.resolve n d cs = some q → fs'.resolve n d cs = some q := by
  induction n with
  | zero => exact fun d cs q ↦ walk_mono h (fun _ _ _ hq ↦ hq) cs d q
  | succ n ih => exact fun d cs q ↦ walk_mono h ih cs d q

theorem directory_mono (h : Sub fs fs') {p d : Path} (hd : fs.directory p = some d) :
    fs'.directory p = some d :=
  resolve_mono h 40 [] p d hd

theorem locate_mono (h : Sub fs fs') {p q : Path} (hq : fs.locate p = some q) :
    fs'.locate p = some q := by
  unfold locate at hq ⊢
  split at hq
  · cases hq
  · obtain ⟨d, hd, rfl⟩ := Option.map_eq_some_iff.1 hq
    rw [directory_mono h hd]
    rfl

/-- The entry with a name in a directory. -/
@[simp] theorem locate_concat (fs : Entries) (p : Path) (c : String) :
    fs.locate (p ++ [c]) = (fs.directory p).map (· ++ [c]) := by
  simp [locate]

/-- A removal takes the entry that the name is about, or nothing. -/
theorem remove_cases (fs : Entries) (p : Path) :
    fs.remove p = fs ∨
      ∃ q n, fs.locate p = some q ∧ fs.lookup q = some n ∧ fs.remove p = fs.erase q := by
  unfold remove
  cases hq : fs.locate p with
  | none => exact .inl rfl
  | some q =>
    cases hn : fs.lookup q with
    | none => exact .inl (by simp [hn])
    | some n =>
      cases n with
      | dir =>
        simp only [hn]
        split_ifs
        · exact .inr ⟨q, .dir, rfl, hn, rfl⟩
        · exact .inl rfl
      | file => exact .inr ⟨q, .file, rfl, hn, by simp [hn]⟩
      | link rooted target => exact .inr ⟨q, _, rfl, hn, by simp [hn]⟩

theorem remove_sub (fs : Entries) (p : Path) : Sub (fs.remove p) fs := by
  rcases remove_cases fs p with hsame | ⟨q, n, -, -, herase⟩
  · rw [hsame]
    exact sub_rfl
  · rw [herase]
    exact erase_sub sub_rfl q

theorem remove_of_link {p q : Path} {rooted : Bool} {target : List String}
    (hq : fs.locate p = some q) (hn : fs.lookup q = some (.link rooted target)) :
    fs.remove p = fs.erase q := by
  simp [remove, hq, hn]

/-- A link is made where the name leads to, or nothing is. -/
theorem symlink_cases (fs : Entries) (target p : Path) (ok : Bool) :
    fs.symlink target p ok = fs ∨
      ∃ q, fs.locate p = some q ∧ fs.lookup q = none ∧
        fs.symlink target p ok = fs.insert q (.link true target) := by
  unfold symlink
  cases hq : fs.locate p with
  | none => exact .inl rfl
  | some q =>
    dsimp only
    split_ifs with h
    · exact .inr ⟨q, rfl, h.2, rfl⟩
    · exact .inl rfl

end Entries

end Filepath
