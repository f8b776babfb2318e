import Isle.Go.Strconv
import Mathlib.Algebra.Order.Ring.Int
import Mathlib.Data.List.Find
import Mathlib.Data.List.Infix

/-!
# Byte sizes

`Parse` of `pkg/bytesize`: a number with a suffix for its unit. The suffixes are tried in the order
of the table, the last of which is empty and has the unit 0. The product is taken in 64 bits.

The order of the table does not matter to what is read: no suffix has a digit in it, so a text is a
number followed by a suffix in **at most one way** (`Reads.unique`), and the search stops at that
suffix (`find_suffix`). What goes wrong is behind that. A number without a suffix is multiplied with
0 (`parse_digits_append_iff`), and a product that is too large comes out as another one
(`faithful_iff`).
-/

namespace Bytesize

open Strconv

/-- A suffix, and what it stands for. -/
structure Suffix where
  str : String
  scale : Int64
  deriving DecidableEq, Repr

/-- The suffixes in the order in which they are tried. -/
def suffixes : List Suffix :=
  [⟨"KiB", 1024⟩, ⟨"kiB", 1024⟩, ⟨"K", 1024⟩, ⟨"k", 1024⟩,
    ⟨"MiB", 1048576⟩, ⟨"miB", 1048576⟩, ⟨"M", 1048576⟩, ⟨"m", 1048576⟩,
    ⟨"GiB", 1073741824⟩, ⟨"giB", 1073741824⟩, ⟨"G", 1073741824⟩, ⟨"g", 1073741824⟩,
    ⟨"KB", 1000⟩, ⟨"MB", 1000000⟩, ⟨"GB", 1000000000⟩, ⟨"", 0⟩]

/-- A size. -/
structure ByteSize where
  bytes : Int64
  deriving DecidableEq, Repr

/-- Why a text is no size. -/
inductive ParseError
  | number (e : NumError)
  /-- "no known suffix detected" -/
  | noSuffix
  deriving DecidableEq, Repr

/-- `Parse` -/
def parse (str : String) : Except ParseError ByteSize :=
  match suffixes.find? fun suf ↦ suf.str.toList.isSuffixOf str.toList with
  | none => .error .noSuffix
  | some suf =>
    match parseInt (str.toList.take (str.length - suf.str.length)) with
    | .error e => .error (.number e)
    | .ok num => .ok ⟨num * suf.scale⟩

example : parse "100G" = .ok ⟨107374182400⟩ := rfl

/-! ### What a size stands for -/

/-- The bytes that a suffix stands for. -/
def unit : String → ℕ
  | "KiB" | "kiB" | "K" | "k" => 1024
  | "MiB" | "miB" | "M" | "m" => 1024 ^ 2
  | "GiB" | "giB" | "G" | "g" => 1024 ^ 3
  | "KB" => 1000
  | "MB" => 1000 ^ 2
  | "GB" => 1000 ^ 3
  | "" => 1
  | _ => 0

/-- The text is the number `n`, with an optional sign, and the suffix `u` of the table. -/
def Reads (str : String) (n : ℤ) (u : String) : Prop :=
  u ∈ suffixes.map Suffix.str ∧
    ∃ num, str.toList = num ++ u.toList ∧ IsDecimal num ∧ decimalValue num = n

section Suffixes

variable {num : List Char} {suf : Suffix} {str u u' : String} {n n' : ℤ}

theorem not_isDigit_of_mem_suffix :
    ∀ suf ∈ suffixes, ∀ c ∈ suf.str.toList, ¬ IsDigit c := by
  have hall : suffixes.all fun suf ↦ suf.str.toList.all fun c ↦ !decide (IsDigit c) := by decide
  simpa only [List.all_eq_true, Bool.not_eq_true', decide_eq_false_iff_not] using hall

theorem scale_toInt :
    ∀ suf ∈ suffixes, suf.scale.toInt = if suf.str = "" then 0 else (unit suf.str : ℤ) := by
  decide

theorem one_le_unit : ∀ suf ∈ suffixes, 1 ≤ unit suf.str := by decide

theorem find_suffix_self :
    ∀ suf ∈ suffixes,
      suffixes.find? (fun s ↦ s.str.toList.isSuffixOf suf.str.toList) = some suf := by
  decide

theorem unsigned_suffix (s : List Char) : unsigned s <:+ s := by
  rw [unsigned]
  split_ifs
  · exact List.tail_suffix s
  · exact List.suffix_refl s

/-- A number ends in a digit, so what is without digits at the end of a text is behind it. -/
theorem suffix_append_iff {s t : List Char} (hnum : IsDecimal num) (hs : ∀ c ∈ s, ¬ IsDigit c) :
    s <:+ num ++ t ↔ s <:+ t := by
  refine ⟨fun h ↦ ?_, fun h ↦ h.trans (List.suffix_append num t)⟩
  rcases List.suffix_or_suffix_of_suffix h (List.suffix_append num t) with hst | ⟨r, rfl⟩
  · exact hst
  have hr : r <:+ num := (List.suffix_append_self_iff).1 h
  rcases r with - | ⟨c, r⟩
  · exact List.suffix_refl t
  · obtain ⟨hne, hdig⟩ := hnum
    rcases List.suffix_or_suffix_of_suffix hr (unsigned_suffix num) with hin | hin
    · exact absurd (hdig c (hin.mem List.mem_cons_self)) (hs c (by simp))
    · obtain ⟨d, hd⟩ := List.exists_mem_of_ne_nil _ hne
      exact absurd (hdig d hd) (hs d (List.mem_append_left t (hin.mem hd)))

/-- **The search stops at the suffix behind the number.** -/
theorem find_suffix (hnum : IsDecimal num) (hsuf : suf ∈ suffixes) :
    suffixes.find? (fun s ↦ s.str.toList.isSuffixOf (num ++ suf.str.toList)) = some suf := by
  rw [← find_suffix_self suf hsuf]
  refine List.find?_congr fun s hs ↦ ?_
  rw [Bool.eq_iff_iff, List.isSuffixOf_iff_suffix, List.isSuffixOf_iff_suffix,
    suffix_append_iff hnum (not_isDigit_of_mem_suffix s hs)]

/-- A text is read in at most one way. -/
theorem Reads.unique (h : Reads str n u) (h' : Reads str n' u') : n = n' ∧ u = u' := by
  obtain ⟨hu, num, hstr, hnum, rfl⟩ := h
  obtain ⟨hu', num', hstr', hnum', rfl⟩ := h'
  obtain ⟨suf, hsuf, rfl⟩ := List.mem_map.1 hu
  obtain ⟨suf', hsuf', rfl⟩ := List.mem_map.1 hu'
  have hfind := find_suffix hnum hsuf
  rw [← hstr, hstr', find_suffix hnum' hsuf'] at hfind
  cases hfind
  rw [hstr', List.append_left_inj] at hstr
  exact ⟨by rw [hstr], rfl⟩

/-! ### What is accepted -/

/-- **What a size is**: a number of 64 bits and a suffix, and its bytes are their product in 64
bits. -/
theorem parse_eq_ok_iff {b : ByteSize} :
    parse str = .ok b ↔ ∃ suf ∈ suffixes, ∃ n, Reads str n suf.str ∧ -2 ^ 63 ≤ n ∧ n < 2 ^ 63 ∧
      b = ⟨Int64.ofInt n * suf.scale⟩ := by
  constructor
  · intro h
    rw [parse] at h
    split at h
    · cases h
    next suf hfind =>
    split at h
    · cases h
    next num hnum =>
    obtain ⟨hdec, hlo, hhi, rfl⟩ := parseInt_eq_ok_iff.1 hnum
    have hsuf : suf.str.toList <:+ str.toList := by
      simpa using List.find?_some hfind
    have hmem : suf ∈ suffixes := List.mem_of_find?_eq_some hfind
    refine ⟨suf, hmem, _, ⟨List.mem_map_of_mem hmem, _, ?_, hdec, rfl⟩, hlo, hhi,
      (Except.ok.inj h).symm⟩
    obtain ⟨t, ht⟩ := hsuf
    rw [← ht, ← String.length_toList, ← String.length_toList, ← ht, List.length_append,
      Nat.add_sub_cancel, List.take_left]
  · rintro ⟨suf, hsuf, n, ⟨-, num, hstr, hdec, rfl⟩, hlo, hhi, rfl⟩
    have hnum : str.toList.take (str.length - suf.str.length) = num := by
      rw [← String.length_toList, ← String.length_toList, hstr, List.length_append,
        Nat.add_sub_cancel, List.take_left]
    have hfind := find_suffix hdec hsuf
    rw [← hstr] at hfind
    simp only [parse, hfind, hnum, parseInt_eq_ok_iff.2 ⟨hdec, hlo, hhi, rfl⟩]

/-- A product that fits in 64 bits is not changed. -/
theorem toInt_mul_of_lt {a b : Int64} {m : ℤ} (hm : a.toInt * b.toInt = m) (hlo : 0 ≤ m)
    (hhi : m < 2 ^ 63) : (a * b).toInt = m := by
  rw [Int64.toInt_mul, hm]
  exact Int.bmod_eq_of_le (by omega) (by omega)

/-- A number is not larger than its product with a unit. -/
theorem le_mul_unit (hsuf : suf ∈ suffixes) (hlo : 0 ≤ n) : n ≤ n * unit suf.str :=
  le_mul_of_one_le_right hlo (by exact_mod_cast one_le_unit suf hsuf)

/-- The bytes of a size that fits: with no suffix they are 0. -/
theorem toInt_bytes (hsuf : suf ∈ suffixes) (hlo : 0 ≤ n) (hhi : n * unit suf.str < 2 ^ 63) :
    (Int64.ofInt n * suf.scale).toInt = if suf.str = "" then 0 else n * unit suf.str := by
  have hle := le_mul_unit hsuf hlo
  have hnum : (Int64.ofInt n).toInt = n := Int64.toInt_ofInt_of_le (by omega) (by omega)
  have hscale := scale_toInt suf hsuf
  split_ifs with hempty
  · rw [if_pos hempty] at hscale
    exact toInt_mul_of_lt (by rw [hscale, mul_zero]) le_rfl (by decide)
  · rw [if_neg hempty] at hscale
    exact toInt_mul_of_lt (by rw [hnum, hscale]) (hlo.trans hle) hhi

end Suffixes

/-- A string of digits and a suffix are read as the product of the number and the unit. -/
def Exact (d u : String) : Prop :=
  ∃ b, parse (d ++ u) = .ok b ∧ b.bytes.toInt = digitsValue 0 d.toList * unit u

theorem reads_digits {d u : String} (hd : IsDigits d.toList) (hu : u ∈ suffixes.map Suffix.str) :
    Reads (d ++ u) (digitsValue 0 d.toList) u := by
  have hsign : ∀ c, ¬ IsDigit c → d.toList.head? ≠ some c := by
    intro c hc hhead
    exact hc (hd.2 c (List.mem_of_head? hhead))
  have hminus := hsign '-' (by decide)
  have hplus := hsign '+' (by decide)
  refine ⟨hu, d.toList, String.toList_append, ?_, by simp [decimalValue, hminus, hplus]⟩
  rwa [IsDecimal, unsigned, if_neg (by simp [hminus, hplus])]

/-- **Byte sizes stand for their products, except without a suffix.** A string of digits and a
suffix of the table are read as their product, if that fits, exactly when the suffix is not empty or
the number is 0; and what is not a number and a suffix is refused. -/
theorem parse_digits_append_iff (d u : String) (hd : IsDigits d.toList)
    (hu : u ∈ suffixes.map Suffix.str) (hlt : digitsValue 0 d.toList * unit u < 2 ^ 63) :
    (Exact d u ↔ u ≠ "" ∨ digitsValue 0 d.toList = 0) ∧
      ∀ str, (∀ n u, ¬ Reads str n u) → ∃ e, parse str = .error e := by
  constructor
  · have hreads := reads_digits hd hu
    obtain ⟨suf, hsuf, rfl⟩ := List.mem_map.1 hu
    have hle := le_mul_unit hsuf (Int.natCast_nonneg (digitsValue 0 d.toList))
    have hlt' : (digitsValue 0 d.toList : ℤ) * unit suf.str < 2 ^ 63 := by exact_mod_cast hlt
    have hok : parse (d ++ suf.str) =
        .ok ⟨Int64.ofInt (digitsValue 0 d.toList) * suf.scale⟩ :=
      parse_eq_ok_iff.2 ⟨suf, hsuf, _, hreads, by omega, by omega, rfl⟩
    rw [Exact, hok]
    simp only [Except.ok.injEq, exists_eq_left', toInt_bytes hsuf (Int.natCast_nonneg _) hlt']
    split_ifs with hempty
    · simp [hempty, show unit "" = 1 from rfl, eq_comm (a := (0 : ℤ))]
    · simp [hempty]
  · intro str hstr
    cases h : parse str with
    | error e => exact ⟨e, rfl⟩
    | ok b =>
      obtain ⟨suf, -, n, hreads, -⟩ := parse_eq_ok_iff.1 h
      exact absurd hreads (hstr n suf.str)

theorem parse_digits_append_hundred :
    Exact "100" "G" ∧ Exact "0" "" ∧ ∃ e, parse "ten" = .error e := by
  have hG := parse_digits_append_iff "100" "G" (by decide) (by decide) (by decide)
  have h0 := parse_digits_append_iff "0" "" (by decide) (by decide) (by decide)
  exact ⟨hG.1.2 (.inl (by decide)), h0.1.2 (.inr (by decide)), .number .invalid, rfl⟩

/-- A hundred bytes are read as none. -/
theorem not_exact_hundred :
    IsDigits "100".toList ∧ "" ∈ suffixes.map Suffix.str ∧
      digitsValue 0 "100".toList * unit "" < 2 ^ 63 ∧ parse ("100" ++ "") = .ok ⟨0⟩ ∧
        ¬ Exact "100" "" := by
  refine ⟨by decide, by decide, by decide, rfl, ?_⟩
  rintro ⟨b, hb, hbytes⟩
  cases hb
  exact absurd hbytes (by decide)

/-! ### Products that do not fit -/

/-- **A size is what the text says**: what is accepted stands for the product of its number and its
unit, which is not negative, and a negative number or a product that does not fit is refused. -/
def Faithful (str : String) : Prop :=
  (∀ b, parse str = .ok b →
    ∃ n u, Reads str n u ∧ b.bytes.toInt = n * unit u ∧ 0 ≤ b.bytes.toInt) ∧
    ∀ n u, Reads str n u → n < 0 ∨ 2 ^ 63 ≤ n * unit u → ∃ e, parse str = .error e

/-- The number of a size, if it fits in 64 bits, is not negative, fits with its unit as well, and
has a suffix unless it is 0. -/
def Fits (str : String) : Prop :=
  ∀ n u, Reads str n u → -2 ^ 63 ≤ n → n < 2 ^ 63 →
    0 ≤ n ∧ n * unit u < 2 ^ 63 ∧ (u ≠ "" ∨ n = 0)

/-- A size that fits is read as it is written. -/
theorem Fits.faithful {str : String} (h : Fits str) : Faithful str := by
  constructor
  · intro b hb
    obtain ⟨suf, hsuf, n, hreads, hlo, hhi, rfl⟩ := parse_eq_ok_iff.1 hb
    obtain ⟨hn, hlt, hne⟩ := h n suf.str hreads hlo hhi
    have hbytes : (Int64.ofInt n * suf.scale).toInt = n * unit suf.str := by
      rw [toInt_bytes hsuf hn hlt]
      split_ifs with hempty
      · rw [hne.resolve_left (not_not_intro hempty), zero_mul]
      · rfl
    exact ⟨n, suf.str, hreads, hbytes, by rw [hbytes]; exact hn.trans (le_mul_unit hsuf hn)⟩
  · intro n u hreads hout
    cases hp : parse str with
    | error e => exact ⟨e, rfl⟩
    | ok b =>
      obtain ⟨suf, -, m, hreads', hlo, hhi, -⟩ := parse_eq_ok_iff.1 hp
      obtain ⟨rfl, rfl⟩ := hreads.unique hreads'
      obtain ⟨hn, hlt, -⟩ := h n suf.str hreads hlo hhi
      omega

/-- And no other is. -/
theorem Faithful.fits {str : String} (h : Faithful str) : Fits str := by
  intro n u hreads hlo hhi
  obtain ⟨suf, hsuf, rfl⟩ := List.mem_map.1 hreads.1
  have hok : parse str = .ok ⟨Int64.ofInt n * suf.scale⟩ :=
    parse_eq_ok_iff.2 ⟨suf, hsuf, n, hreads, hlo, hhi, rfl⟩
  have hin : ¬ (n < 0 ∨ 2 ^ 63 ≤ n * unit suf.str) := fun hout ↦ by
    obtain ⟨e, he⟩ := h.2 n suf.str hreads hout
    rw [hok] at he
    cases he
  obtain ⟨hn, hlt⟩ : 0 ≤ n ∧ n * unit suf.str < 2 ^ 63 := by omega
  refine ⟨hn, hlt, ?_⟩
  obtain ⟨m, u, hreads', hbytes, -⟩ := h.1 _ hok
  obtain ⟨rfl, rfl⟩ := hreads.unique hreads'
  rw [toInt_bytes hsuf hn hlt] at hbytes
  split_ifs at hbytes with hempty
  · rw [hempty, show unit "" = 1 from rfl, Nat.cast_one, mul_one] at hbytes
    exact .inr hbytes.symm
  · exact .inl hempty

theorem faithful_iff {str : String} : Faithful str ↔ Fits str := ⟨Faithful.fits, Fits.faithful⟩

end Bytesize
