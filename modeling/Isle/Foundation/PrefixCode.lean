import Mathlib.Computability.Language
import Mathlib.Order.Antichain

/-!
# Prefix codes

A language none of whose words is a prefix of another, `IsAntichain (· <+: ·)`. A stream of such
words can be cut in one way only, from the left: a word of the language that begins it is the first
one (`eq_of_append_eq_append`). So once a reader has taken some words, what is left is a stream of
words exactly if the whole was (`append_mem_kstar_iff`), and a reader of such words finds the ends
of **other** words it is given, whatever they are, exactly if each of them is a stream of its own
(`forall_flatMap_mem_kstar_iff`).
-/

open Computability

namespace Language

variable {α : Type*} {l : Language α} {u v a b : List α}

theorem eq_of_append_eq_append (hl : IsAntichain (· <+: ·) l) (hu : u ∈ l) (hv : v ∈ l)
    (h : u ++ a = v ++ b) : u = v := by
  have hpu : u <+: v ++ b := h ▸ List.prefix_append u a
  have hpv : v <+: v ++ b := List.prefix_append v b
  rcases List.prefix_or_prefix_of_prefix hpu hpv with hp | hp
  · exact hl.eq hu hv hp
  · exact (hl.eq hv hu hp).symm

theorem append_mem_kstar (ha : a ∈ l∗) (hb : b ∈ l∗) : a ++ b ∈ l∗ :=
  kstar_mul_kstar l ▸ append_mem_mul ha hb

theorem mem_kstar_of_mem (hu : u ∈ l) : u ∈ l∗ := (le_kstar : l ≤ l∗) hu

/-- A stream that is not empty begins with a word. -/
theorem exists_append_of_mem_kstar (ha : a ∈ l∗) (hne : a ≠ []) :
    ∃ u ∈ l, ∃ b ∈ l∗, a = u ++ b := by
  obtain ⟨L, rfl, hL⟩ := mem_kstar.1 ha
  rcases L with - | ⟨u, L⟩
  · exact absurd rfl hne
  · exact ⟨u, hL u List.mem_cons_self, L.flatten,
      join_mem_kstar fun y hy ↦ hL y (List.mem_cons_of_mem u hy), rfl⟩

/-- **Taking words off a stream.** -/
theorem append_mem_kstar_iff (hl : IsAntichain (· <+: ·) l) (ha : a ∈ l∗) :
    a ++ b ∈ l∗ ↔ b ∈ l∗ := by
  refine ⟨fun h ↦ ?_, append_mem_kstar ha⟩
  obtain ⟨L, rfl, hL⟩ := mem_kstar.1 ha
  induction L with
  | nil => exact h
  | cons u L ih =>
    have hL' : ∀ y ∈ L, y ∈ l := fun y hy ↦ hL y (List.mem_cons_of_mem u hy)
    refine ih hL' (join_mem_kstar hL') ?_
    rw [List.flatten_cons, List.append_assoc] at h
    by_cases hne : u ++ (L.flatten ++ b) = []
    · rw [(List.append_eq_nil_iff.1 hne).2]
      exact nil_mem_kstar l
    · obtain ⟨v, hv, c, hc, hvc⟩ := exists_append_of_mem_kstar h hne
      obtain rfl := eq_of_append_eq_append hl (hL u List.mem_cons_self) hv hvc
      exact List.append_cancel_left hvc ▸ hc

/-- **Finding the ends of other words.** Every word but the last has to be a stream of its own. -/
theorem forall_flatMap_mem_kstar_iff (hl : IsAntichain (· <+: ·) l) {ι : Type*} {f : ι → List α}
    {xs : List ι} :
    (∀ pre x suf, xs = pre ++ x :: suf → pre.flatMap f ∈ l∗) ↔ ∀ x ∈ xs.dropLast, f x ∈ l∗ := by
  induction xs with
  | nil => simp
  | cons x xs ih =>
    rcases xs with - | ⟨y, xs⟩
    · refine ⟨fun _ w hw ↦ absurd hw List.not_mem_nil, fun _ pre w suf h ↦ ?_⟩
      rcases pre with - | ⟨z, pre⟩
      · exact nil_mem_kstar l
      · simp at h
    · rw [List.dropLast_cons_cons, List.forall_mem_cons, ← ih]
      constructor
      · intro h
        have hx : f x ∈ l∗ := by simpa using h [x] y xs rfl
        refine ⟨hx, fun pre w suf hxs ↦ ?_⟩
        exact (append_mem_kstar_iff hl hx).1 (h (x :: pre) w suf (by rw [hxs, List.cons_append]))
      · rintro ⟨hx, h⟩ pre w suf hxs
        rcases pre with - | ⟨z, pre⟩
        · exact nil_mem_kstar l
        · obtain ⟨rfl, htail⟩ := List.cons_eq_cons.1 (hxs.trans (List.cons_append ..))
          exact append_mem_kstar hx (h pre w suf htail)

end Language
