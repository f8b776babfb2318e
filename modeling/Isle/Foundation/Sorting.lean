import Mathlib.Data.List.Sort

/-!
# Sorting by a key

A sort that is asked to order by a key returns **some** permutation in which the keys do not
decrease; where keys agree it may return the elements in any order. `SortBy` is such a sort, with
these two laws and no other.

What the first elements of the result are is then known exactly when they have smaller keys than all
the rest: `SortBy.take_perm` if so, and `SortBy.exists_not_take_perm` for a sort that goes wrong if
not. One element can be among the first `k` exactly when fewer than `k` have a smaller key:
`SortBy.exists_mem_take_iff`.
-/

/-- A sort by a key, not known to be stable. -/
structure SortBy {α κ : Type*} [LinearOrder κ] (key : α → κ) where
  sort : List α → List α
  perm : ∀ l, (sort l).Perm l
  ordered : ∀ l, (sort l).Pairwise (key · ≤ key ·)

namespace SortBy

variable {α κ : Type*} [LinearOrder κ] {key : α → κ} {l old new : List α}

/-- In a list ordered by key, the elements of a class that is closed under smaller keys come
first. -/
private theorem filter_eq_take {p : α → Bool} (hl : l.Pairwise (key · ≤ key ·))
    (hp : ∀ x y, key x ≤ key y → p y → p x) : l.filter p = l.take (l.filter p).length := by
  induction l with
  | nil => rfl
  | cons x l ih =>
    obtain ⟨hx, hl⟩ := List.pairwise_cons.1 hl
    by_cases hpx : p x
    · rw [List.filter_cons_of_pos hpx, List.length_cons, List.take_succ_cons, ← ih hl]
    · have hnone : l.filter p = [] := List.filter_eq_nil_iff.2 fun y hy hpy ↦
        hpx (hp x y (hx y hy) hpy)
      rw [List.filter_cons_of_neg hpx, hnone]
      rfl

/-- **The smallest come first.** If the keys of one part of a list are below those of the other, the
sorted list starts with that part, in some order. -/
theorem take_perm (s : SortBy key) (hl : l.Perm (old ++ new))
    (h : ∀ x ∈ old, ∀ y ∈ new, key x < key y) : ((s.sort l).take old.length).Perm old := by
  classical
  -- the class of the elements not above some element of `old`
  let p : α → Bool := fun x ↦ decide (∃ y ∈ old, key x ≤ key y)
  have hold : old.filter p = old := List.filter_eq_self.2 fun x hx ↦
    decide_eq_true ⟨x, hx, le_rfl⟩
  have hnew : new.filter p = [] := List.filter_eq_nil_iff.2 fun y hy hpy ↦ by
    obtain ⟨x, hx, hyx⟩ := of_decide_eq_true hpy
    exact absurd (h x hx y hy) hyx.not_gt
  have hperm : ((s.sort l).filter p).Perm old := by
    have hfilter := ((s.perm l).trans hl).filter p
    rwa [List.filter_append, hold, hnew, List.append_nil] at hfilter
  have htake := filter_eq_take (p := p) (s.ordered l) fun x y hxy hy ↦ by
    obtain ⟨z, hz, hyz⟩ := of_decide_eq_true hy
    exact decide_eq_true ⟨z, hz, hxy.trans hyz⟩
  rw [hperm.length_eq] at htake
  rwa [← htake]

section Stable

variable (key)

/-- The comparison of two keys. -/
def keyLe (x y : α) : Bool := decide (key x ≤ key y)

private theorem keyLe_trans (x y z : α) (hxy : keyLe key x y) (hyz : keyLe key y z) :
    keyLe key x z :=
  decide_eq_true ((of_decide_eq_true hxy).trans (of_decide_eq_true hyz))

private theorem keyLe_total (x y : α) : keyLe key x y || keyLe key y x := by
  simpa [keyLe] using le_total (key x) (key y)

/-- The sort that keeps the order of elements with the same key. -/
def stable : SortBy key where
  sort l := l.mergeSort (keyLe key)
  perm l := List.mergeSort_perm l _
  ordered l := (List.pairwise_mergeSort (keyLe_trans key) (keyLe_total key) l).imp of_decide_eq_true

end Stable

/-- A sort of rearranged lists. -/
def rearranged (s : SortBy key) (f : List α → List α) (hf : ∀ l, (f l).Perm l) : SortBy key where
  sort l := s.sort (f l)
  perm l := (s.perm (f l)).trans (hf l)
  ordered l := s.ordered (f l)

/-- Every arrangement in which the keys do not decrease is the result of some sort. -/
theorem exists_sort_eq {m : List α} (hm : m.Perm l) (hord : m.Pairwise (key · ≤ key ·)) :
    ∃ s : SortBy key, s.sort l = m := by
  classical
  let f : List α → List α := fun l' ↦ if l' = l then m else l'
  have hf : ∀ l', (f l').Perm l' := fun l' ↦ by
    by_cases hl' : l' = l
    · rw [show f l' = m from if_pos hl', hl']
      exact hm
    · rw [show f l' = l' from if_neg hl']
  refine ⟨(stable key).rearranged f hf, ?_⟩
  show (f l).mergeSort (keyLe key) = m
  rw [show f l = m from if_pos rfl]
  exact List.mergeSort_of_pairwise (hord.imp fun h ↦ decide_eq_true h)

/-- **Where the keys do not separate the parts, a sort may go wrong.** -/
theorem exists_not_take_perm (hl : l.Perm (old ++ new)) (hnd : l.Nodup) {x y : α} (hx : x ∈ old)
    (hy : y ∈ new) (hyx : key y ≤ key x) :
    ∃ s : SortBy key, ¬ ((s.sort l).take old.length).Perm old := by
  have hperm : ((stable key).sort (new ++ old)).Perm l :=
    ((stable key).perm _).trans (List.perm_append_comm.trans hl.symm)
  obtain ⟨s, hs⟩ := exists_sort_eq hperm ((stable key).ordered _)
  refine ⟨s, fun htake ↦ ?_⟩
  -- being stable it leaves `y` in front of `x`, so `y` is taken where `x` is
  have hsorted : [y, x].Sublist (s.sort l) := by
    rw [hs]
    refine List.pair_sublist_mergeSort (keyLe_trans key) (keyLe_total key) (decide_eq_true hyx) ?_
    exact (List.singleton_sublist.2 hy).append (List.singleton_sublist.2 hx)
  have hsnd : (s.sort l).Nodup := (s.perm l).nodup_iff.2 hnd
  have hdisj : y ∉ old := fun hyo ↦
    (List.nodup_append.1 (hl.nodup_iff.1 hnd)).2.2 y hyo y hy rfl
  rw [← List.take_append_drop old.length (s.sort l)] at hsorted hsnd
  have hxdrop : x ∉ (s.sort l).drop old.length := fun hxd ↦
    (List.nodup_append.1 hsnd).2.2 x (htake.mem_iff.2 hx) x hxd rfl
  obtain ⟨a, b, hab, ha, hb⟩ := List.sublist_append_iff.1 hsorted
  rcases a with - | ⟨z, a⟩
  · exact hxdrop (hb.subset (by rw [← List.nil_append b, ← hab]; simp))
  · obtain ⟨rfl, -⟩ := List.cons_eq_cons.1 hab
    exact hdisj (htake.subset (ha.subset List.mem_cons_self))

/-- Where the keys do not decrease, fewer elements have a smaller key than stand in front. -/
private theorem countP_lt_of_mem_take {m : List α} (hord : m.Pairwise (key · ≤ key ·)) {x : α}
    {k : ℕ} (hx : x ∈ m.take k) : m.countP (fun y ↦ key y < key x) < k := by
  obtain ⟨before, after, hsplit⟩ := List.append_of_mem hx
  have hlen : before.length < k := by
    have htake := congrArg List.length hsplit
    rw [List.length_take, List.length_append, List.length_cons] at htake
    omega
  have hm : m = before ++ (x :: after ++ m.drop k) := by
    rw [← List.append_assoc, ← hsplit, List.take_append_drop]
  have hbehind : ∀ y ∈ x :: after ++ m.drop k, ¬ key y < key x := by
    rw [hm] at hord
    obtain ⟨-, hord, -⟩ := List.pairwise_append.1 hord
    intro y hy
    rcases List.mem_cons.1 hy with rfl | hy
    · exact lt_irrefl _
    · exact ((List.pairwise_cons.1 hord).1 y hy).not_gt
  have hnone : (x :: after ++ m.drop k).countP (fun y ↦ key y < key x) = 0 :=
    List.countP_eq_zero.2 fun y hy ↦ by simpa using hbehind y hy
  rw [hm, List.countP_append, hnone, Nat.add_zero]
  exact List.countP_le_length.trans_lt hlen

variable (key) in
/-- An element can stand right behind those with smaller keys. -/
private theorem exists_ordered_split {x : α} (hx : x ∈ l) :
    ∃ below rest, (below ++ x :: rest).Perm l ∧ (below ++ x :: rest).Pairwise (key · ≤ key ·) ∧
      below.length = l.countP (fun y ↦ key y < key x) := by
  classical
  let below := (l.erase x).filter fun y ↦ key y < key x
  let rest := (l.erase x).filter fun y ↦ !decide (key y < key x)
  have hpb := (stable key).perm below
  have hpr := (stable key).perm rest
  have hbelow : ∀ y ∈ (stable key).sort below, key y < key x := fun y hy ↦ by
    simpa using (List.mem_filter.1 (hpb.subset hy)).2
  have hrest : ∀ y ∈ (stable key).sort rest, key x ≤ key y := fun y hy ↦ by
    simpa using (List.mem_filter.1 (hpr.subset hy)).2
  refine ⟨(stable key).sort below, (stable key).sort rest, ?_, ?_, ?_⟩
  · have hparts : (below ++ rest).Perm (l.erase x) := List.filter_append_perm _ _
    exact List.perm_middle.trans
      ((((hpb.append hpr).trans hparts).cons x).trans (List.perm_cons_erase hx).symm)
  · refine List.pairwise_append.2 ⟨(stable key).ordered below,
      List.pairwise_cons.2 ⟨hrest, (stable key).ordered rest⟩, fun y hy z hz ↦ ?_⟩
    rcases List.mem_cons.1 hz with rfl | hz
    · exact (hbelow y hy).le
    · exact (hbelow y hy).le.trans (hrest z hz)
  · rw [hpb.length_eq, ← List.countP_eq_length_filter, (List.perm_cons_erase hx).countP_eq]
    simp

/-- **What can be among the first**: what has fewer elements below it. -/
theorem exists_mem_take_iff {x : α} {k : ℕ} :
    (∃ s : SortBy key, x ∈ (s.sort l).take k) ↔
      x ∈ l ∧ l.countP (fun y ↦ key y < key x) < k := by
  constructor
  · rintro ⟨s, hx⟩
    refine ⟨(s.perm l).subset (List.mem_of_mem_take hx), ?_⟩
    rw [← (s.perm l).countP_eq]
    exact countP_lt_of_mem_take (s.ordered l) hx
  · rintro ⟨hx, hk⟩
    obtain ⟨below, rest, hperm, hord, hlen⟩ := exists_ordered_split key hx
    obtain ⟨s, hs⟩ := exists_sort_eq hperm hord
    obtain ⟨j, hj⟩ : ∃ j, k - below.length = j + 1 := ⟨k - below.length - 1, by omega⟩
    refine ⟨s, ?_⟩
    rw [hs, List.take_append, hj, List.take_succ_cons]
    exact List.mem_append_right _ List.mem_cons_self

end SortBy
