import Mathlib.Algebra.Group.Nat.Defs
import Mathlib.Algebra.Ring.Int.Defs
import Mathlib.Tactic.SplitIfs

/-!
# Numbers from texts

`strconv.ParseInt` for decimal numbers of 64 bits. The digits are read from the left, and a number
that gets too large is refused where it does so, before the rest of the text is looked at.
-/

namespace Strconv

/-- Why a text is not a number. -/
inductive NumError
  /-- `strconv.ErrSyntax` -/
  | invalid
  /-- `strconv.ErrRange` -/
  | range
  deriving DecidableEq, Repr

/-- The loop of `strconv.ParseUint`, from the number read so far. -/
def parseDigits (n : ℕ) : List Char → Except NumError ℕ
  | [] => .ok n
  | c :: cs =>
    if '0' ≤ c ∧ c ≤ '9' then
      let n := 10 * n + (c.toNat - '0'.toNat)
      if n < 2 ^ 64 then parseDigits n cs else .error .range
    else .error .invalid

/-- `strconv.ParseUint(s, 10, 64)` -/
def parseUint : List Char → Except NumError ℕ
  | [] => .error .invalid
  | cs => parseDigits 0 cs

/-- `strconv.ParseInt(s, 10, 64)` -/
def parseInt (s : List Char) : Except NumError Int64 :=
  let neg := s.head? = some '-'
  let cs := if neg ∨ s.head? = some '+' then s.tail else s
  match parseUint cs with
  | .error e => .error e
  | .ok n =>
    if neg then if n ≤ 2 ^ 63 then .ok (Int64.ofInt (-n)) else .error .range
    else if n < 2 ^ 63 then .ok (Int64.ofInt n) else .error .range

example : parseInt "-9223372036854775808".toList = .ok (-9223372036854775808) := rfl

/-! ### The number of a text -/

/-- The number that digits stand for, behind the digits of another. -/
def digitsValue (n : ℕ) (cs : List Char) : ℕ :=
  cs.foldl (fun n c ↦ 10 * n + (c.toNat - '0'.toNat)) n

/-- The number that a sign and digits stand for. -/
def decimalValue (s : List Char) : ℤ :=
  if s.head? = some '-' then -digitsValue 0 s.tail
  else if s.head? = some '+' then digitsValue 0 s.tail
  else digitsValue 0 s

/-- The digits of a decimal number. -/
def IsDigit (c : Char) : Prop := '0' ≤ c ∧ c ≤ '9'

instance : DecidablePred IsDigit := fun _ ↦ inferInstanceAs (Decidable (_ ∧ _))

/-- One digit or more. -/
def IsDigits (cs : List Char) : Prop := cs ≠ [] ∧ ∀ c ∈ cs, IsDigit c

instance (cs : List Char) : Decidable (IsDigits cs) :=
  decidable_of_iff (cs ≠ [] ∧ cs.all fun c ↦ decide (IsDigit c)) (by simp [IsDigits])

/-- What is behind a sign. -/
def unsigned (s : List Char) : List Char :=
  if s.head? = some '-' ∨ s.head? = some '+' then s.tail else s

/-- An optional sign and digits. -/
def IsDecimal (s : List Char) : Prop := IsDigits (unsigned s)

theorem le_digitsValue (n : ℕ) (cs : List Char) : n ≤ digitsValue n cs := by
  induction cs generalizing n with
  | nil => exact Nat.le_refl n
  | cons c cs ih => exact Nat.le_trans (by omega) (ih (10 * n + (c.toNat - '0'.toNat)))

/-- Digits are read exactly if their value fits. -/
theorem parseDigits_eq_ok_iff {n m : ℕ} {cs : List Char} (hn : n < 2 ^ 64) :
    parseDigits n cs = .ok m ↔
      (∀ c ∈ cs, IsDigit c) ∧ digitsValue n cs < 2 ^ 64 ∧ m = digitsValue n cs := by
  induction cs generalizing n with
  | nil =>
    rw [parseDigits, Except.ok.injEq, eq_comm]
    exact ⟨fun h ↦ ⟨by simp, hn, h⟩, fun h ↦ h.2.2⟩
  | cons c cs ih =>
    have hval : digitsValue n (c :: cs) = digitsValue (10 * n + (c.toNat - '0'.toNat)) cs := rfl
    rw [parseDigits, List.forall_mem_cons, hval]
    by_cases hc : '0' ≤ c ∧ c ≤ '9'
    · rw [if_pos hc]
      by_cases hlt : 10 * n + (c.toNat - '0'.toNat) < 2 ^ 64
      · simp only [if_pos hlt, ih hlt]
        exact and_congr_left fun _ ↦ (and_iff_right hc).symm
      · -- what follows only makes the number larger
        have hle := le_digitsValue (10 * n + (c.toNat - '0'.toNat)) cs
        simp only [if_neg hlt]
        exact iff_of_false (by simp) fun h ↦ hlt (Nat.lt_of_le_of_lt hle h.2.1)
    · rw [if_neg hc]
      exact iff_of_false (by simp) fun h ↦ hc h.1.1

theorem parseUint_eq_ok_iff {m : ℕ} {cs : List Char} :
    parseUint cs = .ok m ↔ IsDigits cs ∧ digitsValue 0 cs < 2 ^ 64 ∧ m = digitsValue 0 cs := by
  rcases cs with - | ⟨c, cs⟩
  · simp [parseUint, IsDigits]
  · rw [parseUint, parseDigits_eq_ok_iff (by decide), IsDigits,
      and_iff_right (List.cons_ne_nil c cs)]
    simp

/-- The value of a text is that of its digits, up to the sign. -/
theorem decimalValue_eq (s : List Char) :
    decimalValue s = if s.head? = some '-' then -(digitsValue 0 (unsigned s) : ℤ)
      else digitsValue 0 (unsigned s) := by
  rw [decimalValue, unsigned]
  by_cases hneg : s.head? = some '-'
  · simp [hneg]
  · by_cases hpos : s.head? = some '+' <;> simp [hneg, hpos]

/-- **What is a number**: a sign and digits whose value fits in 64 bits, and it is that value. -/
theorem parseInt_eq_ok_iff {s : List Char} {i : Int64} :
    parseInt s = .ok i ↔ IsDecimal s ∧ -2 ^ 63 ≤ decimalValue s ∧ decimalValue s < 2 ^ 63 ∧
      i = Int64.ofInt (decimalValue s) := by
  have hparse : parseInt s = match parseUint (unsigned s) with
      | .error e => .error e
      | .ok n =>
        if s.head? = some '-' then if n ≤ 2 ^ 63 then .ok (Int64.ofInt (-n)) else .error .range
        else if n < 2 ^ 63 then .ok (Int64.ofInt n) else .error .range := rfl
  rw [hparse, decimalValue_eq]
  cases hn : parseUint (unsigned s) with
  | error e =>
    refine iff_of_false (by simp) fun h ↦ ?_
    have hok : parseUint (unsigned s) = .ok (digitsValue 0 (unsigned s)) :=
      parseUint_eq_ok_iff.2 ⟨h.1, by split_ifs at h <;> omega, rfl⟩
    rw [hn] at hok
    cases hok
  | ok n =>
    obtain ⟨hdig, -, rfl⟩ := parseUint_eq_ok_iff.1 hn
    rw [and_iff_right (show IsDecimal s from hdig)]
    by_cases hneg : s.head? = some '-'
    · simp only [if_pos hneg]
      split_ifs with hle
      · rw [Except.ok.injEq, eq_comm]
        exact ⟨fun h ↦ ⟨by omega, by omega, h⟩, fun h ↦ h.2.2⟩
      · exact iff_of_false (by simp) (by omega)
    · simp only [if_neg hneg]
      split_ifs with hlt
      · rw [Except.ok.injEq, eq_comm]
        exact ⟨fun h ↦ ⟨by omega, by omega, h⟩, fun h ↦ h.2.2⟩
      · exact iff_of_false (by simp) (by omega)

/-- **A number that is read is the one in the text.** -/
theorem parseInt_eq_ok {s : List Char} {i : Int64} (h : parseInt s = .ok i) :
    i.toInt = decimalValue s := by
  obtain ⟨-, hlo, hhi, rfl⟩ := parseInt_eq_ok_iff.1 h
  exact Int64.toInt_ofInt_of_le (by omega) (by omega)

end Strconv
