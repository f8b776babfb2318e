import Isle.Foundation.Trim

/-!
# Texts of bytes

A Go `string` or `[]byte` as the list of its bytes, with what the packages `strings` and `bytes`
make of it.

`trimSpace` trims the UTF-8 encodings of Unicode's white space. None of them is at the beginning or
at the end of another (`isBicode_spaces`), so it is the trimming of a code, and a byte that is in
none of them stops it.
-/

open Computability

namespace Text

/-- The bytes of a text of ASCII characters. -/
def ascii (s : String) : List UInt8 := s.toList.map fun c ↦ UInt8.ofNat c.toNat

/-! ### Splitting -/

/-- `strings.Split` at a separator of one byte. -/
def split (sep : UInt8) (s : List UInt8) : List (List UInt8) := s.splitOn sep

/-- `strings.SplitN` at a separator of one byte: so many parts at most, and the last is not split.
-/
def splitN (sep : UInt8) : ℕ → List UInt8 → List (List UInt8)
  | 0, _ => []
  | 1, s => [s]
  | n + 2, s =>
    if sep ∈ s then
      s.takeWhile (· ≠ sep) :: splitN sep (n + 1) (s.dropWhile (· ≠ sep)).tail
    else [s]

/-- `strings.Cut` at a separator of one byte: what is in front of it. -/
def cutBefore (sep : UInt8) (s : List UInt8) : List UInt8 := s.takeWhile (· ≠ sep)

variable {sep : UInt8} {s t : List UInt8}

theorem splitN_append (hs : sep ∉ s) (n : ℕ) :
    splitN sep (n + 2) (s ++ sep :: t) = s :: splitN sep (n + 1) t := by
  have hall : ∀ b ∈ s, decide (b ≠ sep) = true := fun b hb ↦
    decide_eq_true fun h ↦ hs (h ▸ hb)
  rw [splitN, if_pos (by simp), List.takeWhile_append_of_pos hall,
    List.dropWhile_append_of_pos hall]
  simp

theorem splitN_of_not_mem (hs : sep ∉ s) (n : ℕ) : splitN sep (n + 1) s = [s] := by
  rcases n with - | n
  · rfl
  · rw [splitN, if_neg hs]

/-- A text with a separator in it, cut at the first. -/
theorem exists_append_of_mem (h : sep ∈ s) : ∃ u v, s = u ++ sep :: v ∧ sep ∉ u :=
  List.eq_append_cons_of_mem h |>.imp fun _ ⟨v, heq, hu⟩ ↦ ⟨v, heq, hu⟩

/-- No part of a text that is split has a separator. -/
theorem not_mem_of_mem_split (h : t ∈ split sep s) : sep ∉ t := by
  induction hn : s.length using Nat.strongRecOn generalizing s with
  | ind n ih =>
    by_cases hsep : sep ∈ s
    · obtain ⟨u, v, rfl, hu⟩ := exists_append_of_mem hsep
      rw [split, List.splitOn_append_cons_self_of_not_mem hu] at h
      rcases List.mem_cons.1 h with rfl | h
      · exact hu
      · refine ih v.length ?_ h rfl
        rw [← hn, List.length_append, List.length_cons]
        omega
    · rw [split, List.splitOn_eq_singleton hsep, List.mem_singleton] at h
      rwa [h]

theorem length_splitN (n : ℕ) (s : List UInt8) :
    (splitN sep (n + 1) s).length = min (s.count sep) n + 1 := by
  induction n generalizing s with
  | zero => simp [splitN]
  | succ n ih =>
    by_cases hs : sep ∈ s
    · obtain ⟨u, v, rfl, hu⟩ := exists_append_of_mem hs
      rw [splitN_append hu, List.length_cons, ih, List.count_append, List.count_cons_self,
        List.count_eq_zero_of_not_mem hu]
      omega
    · rw [splitN_of_not_mem hs, List.count_eq_zero_of_not_mem hs]
      simp

/-- The first of several parts is in front of a separator. -/
theorem exists_append_of_splitN {n : ℕ} {a b : List UInt8} {parts : List (List UInt8)}
    (h : splitN sep (n + 2) s = a :: b :: parts) : ∃ t, s = a ++ sep :: t := by
  by_cases hs : sep ∈ s
  · obtain ⟨u, v, rfl, hu⟩ := exists_append_of_mem hs
    rw [splitN_append hu] at h
    obtain ⟨rfl, -⟩ := List.cons_eq_cons.1 h
    exact ⟨v, rfl⟩
  · rw [splitN_of_not_mem hs] at h
    cases h

/-- A text with enough separators in it, cut at one of them. -/
theorem exists_append_of_count {n : ℕ} (h : n + 1 ≤ s.count sep) :
    ∃ u v, s = u ++ sep :: v ∧ u.count sep = n := by
  induction n generalizing s with
  | zero =>
    obtain ⟨u, v, rfl, hu⟩ := exists_append_of_mem (List.count_pos_iff.1 h)
    exact ⟨u, v, rfl, List.count_eq_zero_of_not_mem hu⟩
  | succ n ih =>
    obtain ⟨u, v, rfl, hu⟩ :=
      exists_append_of_mem (List.count_pos_iff.1 (show 0 < s.count sep by omega))
    rw [List.count_append, List.count_cons_self, List.count_eq_zero_of_not_mem hu] at h
    obtain ⟨u', v', rfl, hu'⟩ := ih (show n + 1 ≤ v.count sep by omega)
    refine ⟨u ++ sep :: u', v', by simp, ?_⟩
    rw [List.count_append, List.count_cons_self, List.count_eq_zero_of_not_mem hu, hu']
    omega

/-- **As many parts as there are separators in front, and what is behind them.** -/
theorem splitN_append_of_count {n : ℕ} (h : s.count sep = n) (t : List UInt8) :
    splitN sep (n + 2) (s ++ sep :: t) = s.splitOn sep ++ [t] := by
  induction n generalizing s with
  | zero =>
    have hs : sep ∉ s := List.count_eq_zero.1 h
    rw [splitN_append hs, List.splitOn_eq_singleton hs]
    rfl
  | succ n ih =>
    have hmem : sep ∈ s := List.count_pos_iff.1 (by omega)
    obtain ⟨u, v, rfl, hu⟩ := exists_append_of_mem hmem
    rw [List.count_append, List.count_cons_self, List.count_eq_zero_of_not_mem hu] at h
    rw [List.append_assoc, List.cons_append, splitN_append hu, ih (by omega),
      List.splitOn_append_cons_self_of_not_mem hu, List.cons_append]

/-! ### White space -/

/-- What `unicode.IsSpace` holds of, in UTF-8. -/
def spaces : List (List UInt8) :=
  [[0x09], [0x0A], [0x0B], [0x0C], [0x0D], [0x20], [0xC2, 0x85], [0xC2, 0xA0],
    [0xE1, 0x9A, 0x80], [0xE2, 0x80, 0x80], [0xE2, 0x80, 0x81], [0xE2, 0x80, 0x82],
    [0xE2, 0x80, 0x83], [0xE2, 0x80, 0x84], [0xE2, 0x80, 0x85], [0xE2, 0x80, 0x86],
    [0xE2, 0x80, 0x87], [0xE2, 0x80, 0x88], [0xE2, 0x80, 0x89], [0xE2, 0x80, 0x8A],
    [0xE2, 0x80, 0xA8], [0xE2, 0x80, 0xA9], [0xE2, 0x80, 0xAF], [0xE2, 0x81, 0x9F],
    [0xE3, 0x80, 0x80]]

/-- `bytes.TrimSpace`. A byte that is not part of valid UTF-8 is no space. -/
def trimSpace (s : List UInt8) : List UInt8 := Trim.trim spaces s

/-- There is nothing but white space. -/
def IsBlank (s : List UInt8) : Prop := trimSpace s = []

instance (s : List UInt8) : Decidable (IsBlank s) := inferInstanceAs (Decidable (_ = _))

theorem isBicode_spaces : Trim.IsBicode spaces where
  left := ⟨by decide +kernel, by decide +kernel⟩
  right := ⟨by decide +kernel, by decide +kernel⟩

theorem synchronizing_spaces : Trim.Synchronizing spaces := by
  unfold Trim.Synchronizing
  decide +kernel

theorem isBlank_iff : IsBlank s ↔ s ∈ (Trim.language spaces)∗ :=
  Trim.trim_eq_nil_iff isBicode_spaces synchronizing_spaces

theorem isInfix_trimSpace (s : List UInt8) : trimSpace s <:+: s := by
  obtain ⟨⟨ws, -, hleft⟩, -⟩ := Trim.trimLeft_spec isBicode_spaces.left s
  obtain ⟨ws', -, hright⟩ := Trim.trimRight_spec isBicode_spaces (Trim.trimLeft spaces s)
  refine ⟨ws, ws', ?_⟩
  rw [List.append_assoc, trimSpace, Trim.trim, ← hright, ← hleft]

theorem trimSpace_append (ht : IsBlank t) : trimSpace (s ++ t) = trimSpace s :=
  Trim.trim_append isBicode_spaces synchronizing_spaces (isBlank_iff.1 ht) s

end Text
