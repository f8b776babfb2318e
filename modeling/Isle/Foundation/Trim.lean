import Isle.Foundation.PrefixCode
import Mathlib.Data.List.Infix

/-!
# Trimming words

Cutting words of a finite code off the ends of a list, as often as it goes. What is cut off is a
stream of words and what is left begins with none (`trimLeft_spec`), and where no word is a prefix
of another that says which list is left (`trimLeft_eq`). So a stream in front makes no difference
(`trimLeft_append`), and an element that is in no word stops the trimming, whatever comes behind it
(`trimLeft_append_cons`).

The other end is the same of the reversed lists. A list is blank, of words alone, exactly if nothing
is left of it (`trim_eq_nil_iff`).
-/

open Computability

namespace Trim

variable {α : Type*} [DecidableEq α]

/-- The words as a language. -/
def language (W : List (List α)) : Language α := {w | w ∈ W}

/-- The list without the word it begins with, if there is one. -/
def strip (W : List (List α)) (l : List α) : Option (List α) :=
  W.findSome? fun w ↦ if w.isPrefixOf l then some (l.drop w.length) else none

/-- Cut so many words off, or as many as there are. -/
def trimLeftN (W : List (List α)) : ℕ → List α → List α
  | 0, l => l
  | n + 1, l =>
    match strip W l with
    | none => l
    | some rest => trimLeftN W n rest

/-- Cut words off the front. -/
def trimLeft (W : List (List α)) (l : List α) : List α := trimLeftN W l.length l

/-- Cut words off the back. -/
def trimRight (W : List (List α)) (l : List α) : List α :=
  (trimLeft (W.map List.reverse) l.reverse).reverse

variable {W : List (List α)} {l w ws r t : List α}

omit [DecidableEq α] in
@[simp] theorem mem_language : w ∈ language W ↔ w ∈ W := Iff.rfl

theorem strip_eq_none (h : strip W l = none) : ∀ w ∈ W, ¬ w <+: l := by
  intro w hw hpre
  have hnone := List.findSome?_eq_none_iff.1 h w hw
  rw [if_pos (List.isPrefixOf_iff_prefix.2 hpre)] at hnone
  exact Option.some_ne_none _ hnone

theorem strip_eq_some (h : strip W l = some r) : ∃ w ∈ W, l = w ++ r := by
  obtain ⟨w, hw, hsome⟩ := List.exists_of_findSome?_eq_some h
  split_ifs at hsome with hpre
  refine ⟨w, hw, ?_⟩
  obtain ⟨rest, rfl⟩ := List.isPrefixOf_iff_prefix.1 hpre
  rw [← Option.some.inj hsome, List.drop_left]

/-- A code: no word is empty, and none is a prefix of another. -/
structure IsCode (W : List (List α)) : Prop where
  ne_nil : ∀ w ∈ W, w ≠ []
  antichain : ∀ w ∈ W, ∀ v ∈ W, w <+: v → w = v

omit [DecidableEq α] in
theorem IsCode.isAntichain (hW : IsCode W) : IsAntichain (· <+: ·) (language W) :=
  fun w hw v hv hne hpre ↦ hne (hW.antichain w hw v hv hpre)

/-- Words are taken off until none is in front. -/
private theorem trimLeftN_spec (hne : ∀ w ∈ W, w ≠ []) {n : ℕ} (hn : l.length ≤ n) :
    (∃ ws ∈ (language W)∗, l = ws ++ trimLeftN W n l) ∧ ∀ w ∈ W, ¬ w <+: trimLeftN W n l := by
  induction n generalizing l with
  | zero =>
    obtain rfl := List.eq_nil_of_length_eq_zero (Nat.le_zero.1 hn)
    exact ⟨⟨[], Language.nil_mem_kstar _, rfl⟩,
      fun w hw hpre ↦ hne w hw (List.prefix_nil.1 hpre)⟩
  | succ n ih =>
    rw [trimLeftN]
    cases hstrip : strip W l with
    | none => exact ⟨⟨[], Language.nil_mem_kstar _, rfl⟩, strip_eq_none hstrip⟩
    | some rest =>
      obtain ⟨w, hw, rfl⟩ := strip_eq_some hstrip
      have hpos := List.length_pos_of_ne_nil (hne w hw)
      rw [List.length_append] at hn
      obtain ⟨⟨ws, hws, hrest⟩, hstop⟩ := ih (show rest.length ≤ n by omega)
      refine ⟨⟨w ++ ws, ?_, ?_⟩, hstop⟩
      · exact Language.append_mem_kstar (Language.mem_kstar_of_mem (mem_language.2 hw)) hws
      · dsimp only
        rw [List.append_assoc, ← hrest]

/-- **What trimming does.** -/
theorem trimLeft_spec (hW : IsCode W) (l : List α) :
    (∃ ws ∈ (language W)∗, l = ws ++ trimLeft W l) ∧ ∀ w ∈ W, ¬ w <+: trimLeft W l :=
  trimLeftN_spec hW.ne_nil le_rfl

omit [DecidableEq α] in
/-- What is left of a list, if it begins with no word, is left by every way to cut words off. -/
private theorem prefix_of_stops (hW : IsCode W) {ws' r' : List α} (hws : ws ∈ (language W)∗)
    (hws' : ws' ∈ (language W)∗) (hr : ∀ w ∈ W, ¬ w <+: r) (h : ws ++ r = ws' ++ r')
    (hpre : ws <+: ws') : r = r' := by
  obtain ⟨d, rfl⟩ := hpre
  rw [List.append_assoc, List.append_cancel_left_eq] at h
  have hd := (Language.append_mem_kstar_iff hW.isAntichain hws).1 hws'
  by_cases hnil : d = []
  · rw [h, hnil, List.nil_append]
  · obtain ⟨w, hw, b, -, rfl⟩ := Language.exists_append_of_mem_kstar hd hnil
    exact absurd ⟨b ++ r', by rw [h, List.append_assoc]⟩ (hr w hw)

/-- **It is the only way to do that.** -/
theorem trimLeft_eq (hW : IsCode W) (hws : ws ∈ (language W)∗) (hr : ∀ w ∈ W, ¬ w <+: r) :
    trimLeft W (ws ++ r) = r := by
  obtain ⟨⟨ws', hws', h⟩, hstop⟩ := trimLeft_spec hW (ws ++ r)
  rcases List.prefix_or_prefix_of_prefix (List.prefix_append ws r)
    (h ▸ List.prefix_append ws' _) with hpre | hpre
  · exact (prefix_of_stops hW hws hws' hr h hpre).symm
  · exact prefix_of_stops hW hws' hws hstop h.symm hpre

/-- Words in front make no difference. -/
theorem trimLeft_append (hW : IsCode W) (hws : ws ∈ (language W)∗) (l : List α) :
    trimLeft W (ws ++ l) = trimLeft W l := by
  obtain ⟨⟨ws', hws', h⟩, hstop⟩ := trimLeft_spec hW l
  have heq := trimLeft_eq hW (Language.append_mem_kstar hws hws') hstop
  rwa [List.append_assoc, ← h] at heq

variable {c : α}

/-- **An element of no word stops the trimming.** -/
theorem trimLeft_append_cons (hW : IsCode W) (hc : ∀ w ∈ W, c ∉ w) (l t : List α) :
    trimLeft W (l ++ c :: t) = trimLeft W l ++ c :: t := by
  obtain ⟨⟨ws, hws, h⟩, hstop⟩ := trimLeft_spec hW l
  have hstop' : ∀ w ∈ W, ¬ w <+: trimLeft W l ++ c :: t := by
    intro w hw hpre
    rcases List.prefix_or_prefix_of_prefix hpre (List.prefix_append _ _) with hp | ⟨x, rfl⟩
    · exact hstop w hw hp
    · rcases x with - | ⟨a, x⟩
      · exact hstop _ hw (by rw [List.append_nil])
      · have hx := (List.prefix_append_right_inj _).1 hpre
        obtain rfl : a = c := (List.cons_prefix_cons.1 hx).1
        exact hc _ hw (List.mem_append_right _ List.mem_cons_self)
  conv_lhs => rw [h, List.append_assoc]
  exact trimLeft_eq hW hws hstop'

omit [DecidableEq α] in
theorem not_mem_of_mem_kstar (hc : ∀ w ∈ W, c ∉ w) (hws : ws ∈ (language W)∗) : c ∉ ws := by
  obtain ⟨L, rfl, hL⟩ := Language.mem_kstar.1 hws
  intro hmem
  obtain ⟨w, hw, hcw⟩ := List.mem_flatten.1 hmem
  exact hc w (hL w hw) hcw

/-- All that is trimmed is in words. -/
theorem count_trimLeft (hW : IsCode W) (hc : ∀ w ∈ W, c ∉ w) (l : List α) :
    (trimLeft W l).count c = l.count c := by
  obtain ⟨⟨ws, hws, h⟩, -⟩ := trimLeft_spec hW l
  conv_rhs => rw [h, List.count_append,
    List.count_eq_zero_of_not_mem (not_mem_of_mem_kstar hc hws), Nat.zero_add]

/-! ### The other end -/

/-- A code from the right as well. -/
structure IsBicode (W : List (List α)) : Prop where
  left : IsCode W
  right : IsCode (W.map List.reverse)

omit [DecidableEq α] in
theorem reverse_mem_kstar (hws : ws ∈ (language W)∗) :
    ws.reverse ∈ (language (W.map List.reverse))∗ := by
  obtain ⟨L, rfl, hL⟩ := Language.mem_kstar.1 hws
  rw [List.reverse_flatten]
  refine Language.join_mem_kstar fun y hy ↦ ?_
  obtain ⟨x, hx, rfl⟩ := List.mem_map.1 (List.mem_reverse.1 hy)
  exact List.mem_map.2 ⟨x, hL x hx, rfl⟩

omit [DecidableEq α] in
theorem map_reverse_map_reverse : (W.map List.reverse).map List.reverse = W := by
  simp [List.map_map]

theorem trimRight_spec (hW : IsBicode W) (l : List α) :
    ∃ ws ∈ (language W)∗, l = trimRight W l ++ ws := by
  obtain ⟨⟨ws, hws, h⟩, -⟩ := trimLeft_spec hW.right l.reverse
  refine ⟨ws.reverse, ?_, ?_⟩
  · have := reverse_mem_kstar hws
    rwa [map_reverse_map_reverse] at this
  · have hrev := congrArg List.reverse h
    rwa [List.reverse_reverse, List.reverse_append] at hrev

/-- Words at the back make no difference. -/
theorem trimRight_append (hW : IsBicode W) (hws : ws ∈ (language W)∗) (l : List α) :
    trimRight W (l ++ ws) = trimRight W l := by
  rw [trimRight, List.reverse_append, trimLeft_append hW.right (reverse_mem_kstar hws), trimRight]

/-- An element of no word stops the trimming here too. -/
theorem trimRight_append_cons (hW : IsBicode W) (hc : ∀ w ∈ W, c ∉ w) (l t : List α) :
    trimRight W (l ++ c :: t) = l ++ c :: trimRight W t := by
  have hc' : ∀ w ∈ W.map List.reverse, c ∉ w := by
    intro w hw hcw
    obtain ⟨v, hv, rfl⟩ := List.mem_map.1 hw
    exact hc v hv (List.mem_reverse.1 hcw)
  rw [trimRight, List.reverse_append, List.reverse_cons, List.append_assoc, List.singleton_append,
    trimLeft_append_cons hW.right hc', List.reverse_append, List.reverse_cons, List.append_assoc,
    List.reverse_reverse, List.singleton_append, trimRight]

/-- **What comes behind a list is trimmed away, and no more than it, exactly if it is of words.** -/
theorem trimRight_append_eq_iff (hW : IsBicode W) :
    trimRight W (l ++ t) = trimRight W l ↔ t ∈ (language W)∗ := by
  refine ⟨fun h ↦ ?_, fun ht ↦ trimRight_append hW ht l⟩
  obtain ⟨ws, hws, hl⟩ := trimRight_spec hW l
  obtain ⟨ws', hws', hlt⟩ := trimRight_spec hW (l ++ t)
  rw [h] at hlt
  have heq : ws ++ t = ws' := by
    rw [← List.append_cancel_left_eq (trimRight W l), ← hlt, ← List.append_assoc, ← hl]
  exact (Language.append_mem_kstar_iff hW.left.isAntichain hws).1 (heq ▸ hws')

/-! ### Both ends -/

/-- Cut words off the front and then off the back. -/
def trim (W : List (List α)) (l : List α) : List α := trimRight W (trimLeft W l)

/-- No word begins inside another. -/
def Synchronizing (W : List (List α)) : Prop :=
  ∀ w ∈ W, ∀ v ∈ W, ∀ a ∈ w.tail, v.head? ≠ some a

omit [DecidableEq α] in
/-- Words behind the rest make no word in front of it. -/
private theorem not_prefix_append (hW : IsCode W) (hsync : Synchronizing W)
    (hws : ws ∈ (language W)∗) (hr : ∀ w ∈ W, ¬ w <+: r) (hne : r ≠ []) :
    ∀ w ∈ W, ¬ w <+: r ++ ws := by
  intro w hw hpre
  rcases List.prefix_or_prefix_of_prefix hpre (List.prefix_append r ws) with hp | ⟨x, rfl⟩
  · exact hr w hw hp
  · -- the rest of the word would be at the beginning of another
    rcases x with - | ⟨a, x⟩
    · exact hr _ hw (by rw [List.append_nil])
    · have hx : a :: x <+: ws := (List.prefix_append_right_inj r).1 hpre
      have hwsne : ws ≠ [] := fun h ↦ by simp [h] at hx
      obtain ⟨v, hv, b, -, rfl⟩ := Language.exists_append_of_mem_kstar hws hwsne
      rcases v with - | ⟨c, v⟩
      · exact hW.ne_nil _ hv rfl
      · obtain rfl : a = c := (List.cons_prefix_cons.1 hx).1
        refine hsync _ hw _ hv a ?_ rfl
        rw [List.tail_append_of_ne_nil hne]
        exact List.mem_append_right _ List.mem_cons_self

/-- **Words at the back make no difference.** -/
theorem trim_append (hW : IsBicode W) (hsync : Synchronizing W) (hws : ws ∈ (language W)∗)
    (l : List α) : trim W (l ++ ws) = trim W l := by
  obtain ⟨⟨ws₀, hws₀, h⟩, hstop⟩ := trimLeft_spec hW.left l
  have hleft : trimLeft W (l ++ ws) = trimLeft W (trimLeft W l ++ ws) := by
    conv_lhs => rw [h, List.append_assoc, trimLeft_append hW.left hws₀]
  rw [trim, trim, hleft]
  by_cases hne : trimLeft W l = []
  · have hnil : ∀ w ∈ W, ¬ w <+: ([] : List α) := fun w hw hpre ↦
      hW.left.ne_nil w hw (List.prefix_nil.1 hpre)
    have hws' : trimLeft W ws = [] := by simpa using trimLeft_eq hW.left hws hnil
    rw [hne, List.nil_append, hws']
  · have hall := trimLeft_eq hW.left (Language.nil_mem_kstar _)
      (not_prefix_append hW.left hsync hws hstop hne)
    rw [List.nil_append] at hall
    rw [hall, trimRight_append hW hws]

theorem trim_eq_nil_iff (hW : IsBicode W) (hsync : Synchronizing W) :
    trim W l = [] ↔ l ∈ (language W)∗ := by
  constructor
  · intro h
    obtain ⟨⟨ws, hws, hl⟩, -⟩ := trimLeft_spec hW.left l
    obtain ⟨ws', hws', hr⟩ := trimRight_spec hW (trimLeft W l)
    rw [← trim, h, List.nil_append] at hr
    rw [hl, hr]
    exact Language.append_mem_kstar hws hws'
  · intro h
    have hnil := trim_append hW hsync h []
    rwa [List.nil_append, show trim W [] = [] from rfl] at hnil

theorem count_trim (hW : IsBicode W) (hc : ∀ w ∈ W, c ∉ w) (l : List α) :
    (trim W l).count c = l.count c := by
  obtain ⟨ws, hws, h⟩ := trimRight_spec hW (trimLeft W l)
  rw [← count_trimLeft hW.left hc l]
  conv_rhs => rw [h, List.count_append,
    List.count_eq_zero_of_not_mem (not_mem_of_mem_kstar hc hws), Nat.add_zero, ← trim]

/-- An element of no word is kept, and what is on either side of it is trimmed there. -/
theorem trim_append_cons (hW : IsBicode W) (hc : ∀ w ∈ W, c ∉ w) (l t : List α) :
    trim W (l ++ c :: t) = trimLeft W l ++ c :: trimRight W t := by
  rw [trim, trimLeft_append_cons hW.left hc, trimRight_append_cons hW hc]

end Trim
