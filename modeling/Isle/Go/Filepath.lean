import Mathlib.Data.List.Infix

/-!
# Paths and file trees

Rooted paths as Go's `path/filepath` computes them, and the file operations that the guest applies
to them.

A `Path` is a cleaned, rooted path: the list of its components. `join` is `filepath.Join` of such a
path with an arbitrary text, which may be empty, hold slashes, or climb with `..`; what comes out is
again clean, so **it need not be below the path it was joined to**. `join_of_isChildName` is the one
case in which it is a direct child.

A `FileTree` is the set of paths that exist, closed under parents: a tree that holds a file without
its directory cannot be built. Links are left out.
-/

namespace Filepath

/-- A rooted path without empty, `.` or `..` components. -/
abbrev Path := List String

/-! ### `filepath.Join` -/

/-- The components of a text, split at its slashes. -/
def components (s : String) : List String :=
  (s.toList.splitOn '/').map String.ofList

/-- One component of `filepath.Clean` on a rooted path: nothing is above the root. -/
def cleanStep (p : Path) (c : String) : Path :=
  if c = "" ∨ c = "." then p
  else if c = ".." then p.dropLast
  else p ++ [c]

/-- `filepath.Join` of a rooted path and a text. -/
def join (p : Path) (s : String) : Path :=
  (components s).foldl cleanStep p

/-- The names that a direct child of a directory can have. -/
structure IsChildName (name : String) : Prop where
  /-- The name is a component of its own. -/
  noSlash : '/' ∉ name.toList
  ne_empty : name ≠ ""
  ne_dot : name ≠ "."
  ne_dotdot : name ≠ ".."

variable {s : String}

theorem components_of_noSlash (h : '/' ∉ s.toList) : components s = [s] := by
  rw [components, List.splitOn_eq_singleton h, List.map_singleton, String.ofList_toList]

@[simp] theorem join_empty (p : Path) : join p "" = p := by
  rw [join, components_of_noSlash (by decide)]
  simp [cleanStep]

/-- **Joining the name of a child gives that child.** -/
theorem join_of_isChildName {name : String} (h : IsChildName name) (p : Path) :
    join p name = p ++ [name] := by
  rw [join, components_of_noSlash h.noSlash]
  simp [cleanStep, h.ne_empty, h.ne_dot, h.ne_dotdot]

example : join ["data", "containers"] "a/../.." = ["data"] := by decide

/-! ### Names that climb -/

/-- One component of a name that is not joined to anything yet: `..` takes back the one before, or
climbs. -/
def relativeStep (q : ℕ × Path) (c : String) : ℕ × Path :=
  if c = "" ∨ c = "." then q
  else if c = ".." then if q.2 = [] then (q.1 + 1, []) else (q.1, q.2.dropLast)
  else (q.1, q.2 ++ [c])

/-- How far a name climbs above the directory it is joined to, and where it goes from there. -/
def relative (s : String) : ℕ × Path := (components s).foldl relativeStep (0, [])

/-- **What a joined name leads to**: the directory without as many components as the name climbs,
and then the rest of the name. -/
theorem join_eq_take_append (p : Path) (s : String) :
    join p s = p.take (p.length - (relative s).1) ++ (relative s).2 := by
  suffices hgen : ∀ (cs : List String) (q : ℕ × Path),
      cs.foldl cleanStep (p.take (p.length - q.1) ++ q.2) =
        p.take (p.length - (cs.foldl relativeStep q).1) ++ (cs.foldl relativeStep q).2 by
    simpa [join, relative] using hgen (components s) (0, [])
  intro cs
  induction cs with
  | nil => exact fun q ↦ rfl
  | cons c cs ih =>
    intro q
    rw [List.foldl_cons, List.foldl_cons, ← ih]
    congr 1
    rw [cleanStep, relativeStep]
    split_ifs with hskip hup hnil
    · rfl
    · -- the climb takes one more component of the directory
      rw [hnil, List.append_nil, List.append_nil, List.dropLast_eq_take, List.take_take,
        List.length_take]
      congr 1
      omega
    · rw [List.dropLast_append_of_ne_nil hnil]
    · rw [List.append_assoc]

/-- A joined name leads to or below its directory exactly if it comes back from its climb. -/
theorem prefix_join_iff {p : Path} :
    p <+: join p s ↔ p.drop (p.length - (relative s).1) <+: (relative s).2 := by
  rw [join_eq_take_append]
  nth_rewrite 1 [← List.take_append_drop (p.length - (relative s).1) p]
  exact List.prefix_append_right_inj _

theorem join_eq_self_iff {p : Path} :
    join p s = p ↔ (relative s).2 = p.drop (p.length - (relative s).1) := by
  rw [join_eq_take_append]
  nth_rewrite 3 [← List.take_append_drop (p.length - (relative s).1) p]
  exact List.append_right_inj _

example : relative "a/../../b/./c" = (1, ["b", "c"]) := by decide

/-! ### File trees -/

/-- The paths that exist, with every directory on the way to each of them. -/
structure FileTree where
  /-- The existing files and directories. -/
  paths : List Path
  /-- Whatever exists is in directories that exist. -/
  closed : ∀ p ∈ paths, ∀ q, q <+: p → q ∈ paths

namespace FileTree

/-- The smallest tree with the given paths. -/
def ofPaths (ps : List Path) : FileTree where
  paths := ps.flatMap List.inits
  closed := by
    intro p hp q hq
    obtain ⟨r, hr, hpr⟩ := List.mem_flatMap.1 hp
    exact List.mem_flatMap.2 ⟨r, hr, (List.mem_inits q r).2 (hq.trans ((List.mem_inits p r).1 hpr))⟩

/-- A path goes away with its whole subtree unless something in the subtree is stuck. -/
def Removable (t : FileTree) (stuck : Path → Bool) (target p : Path) : Prop :=
  target <+: p ∧ ∀ q ∈ t.paths, p <+: q → stuck q = false

instance (t : FileTree) (stuck : Path → Bool) (target p : Path) :
    Decidable (t.Removable stuck target p) :=
  inferInstanceAs (Decidable (_ ∧ _))

/-- `os.RemoveAll`: remove a path and what is below it, as far as possible. The paths in `stuck`
cannot be removed, and neither can the directories that hold them. -/
def removeAll (t : FileTree) (stuck : Path → Bool) (target : Path) : FileTree where
  paths := t.paths.filter fun p ↦ ¬ t.Removable stuck target p
  closed := by
    intro p hp q hq
    simp only [List.mem_filter, decide_eq_true_eq] at hp ⊢
    refine ⟨t.closed p hp.1 q hq, fun hrem ↦ hp.2 ⟨hrem.1.trans hq, fun r hr hpr ↦ ?_⟩⟩
    exact hrem.2 r hr (hq.trans hpr)

/-- Whether `os.RemoveAll` reports an error: something below the path is stuck. -/
def removeAllFails (t : FileTree) (stuck : Path → Bool) (target : Path) : Bool :=
  t.paths.any fun p ↦ decide (target <+: p) && stuck p

variable {t : FileTree} {target : Path}

theorem mem_removeAll {stuck : Path → Bool} {p : Path} :
    p ∈ (t.removeAll stuck target).paths ↔ p ∈ t.paths ∧ ¬ t.Removable stuck target p := by
  simp [removeAll]

/-- Only what is at or below the target is removed. -/
theorem prefix_of_removed {stuck : Path → Bool} {p : Path} (hp : p ∈ t.paths)
    (hgone : p ∉ (t.removeAll stuck target).paths) : target <+: p := by
  by_contra hpre
  exact hgone (mem_removeAll.2 ⟨hp, fun hrem ↦ hpre hrem.1⟩)

/-- With nothing stuck, the target itself goes away. -/
theorem target_not_mem_removeAll : target ∉ (t.removeAll (fun _ ↦ false) target).paths := by
  intro hmem
  exact (mem_removeAll.1 hmem).2 ⟨List.prefix_refl _, fun _ _ _ ↦ rfl⟩

end FileTree

end Filepath
