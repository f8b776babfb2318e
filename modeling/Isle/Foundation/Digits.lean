import Mathlib.Algebra.Order.Group.Nat
import Mathlib.Data.List.Lex
import Mathlib.Tactic.Ring

/-!
# Numbers of a fixed width

A number written with a fixed number of digits, the most significant first, over any base. Two facts
are used of it: the number is read back from its digits (`ofDigits_digits`), and **the order of the
numbers is the lexicographic order of their digits** (`digits_lt_digits`), which is what makes names
built from such numbers sort by themselves.

The width is fixed; with the shortest representation the second fact fails.
-/

/-- The `w` lowest digits of a number, the most significant first. -/
def digits (b : ℕ) : ℕ → ℕ → List ℕ
  | 0, _ => []
  | w + 1, n => n / b ^ w % b :: digits b w n

/-- The number with the given digits. -/
def ofDigits (b : ℕ) (ds : List ℕ) : ℕ := ds.foldl (fun n d ↦ b * n + d) 0

section Digits

variable {b w n m : ℕ}

@[simp] theorem length_digits : (digits b w n).length = w := by
  induction w with
  | zero => rfl
  | succ w ih => rw [digits, List.length_cons, ih]

theorem lt_of_mem_digits (hb : 0 < b) {d : ℕ} (h : d ∈ digits b w n) : d < b := by
  induction w with
  | zero => simp [digits] at h
  | succ w ih =>
    rcases List.mem_cons.1 h with rfl | h
    · exact Nat.mod_lt _ hb
    · exact ih h

private theorem foldl_digits (a : ℕ) :
    (digits b w n).foldl (fun n d ↦ b * n + d) a = b ^ w * a + n % b ^ w := by
  induction w generalizing a with
  | zero => simp [digits, Nat.mod_one]
  | succ w ih =>
    have hsplit : n % b ^ (w + 1) = b ^ w * (n / b ^ w % b) + n % b ^ w := by
      rw [pow_succ, Nat.mod_mul]
      exact Nat.add_comm _ _
    rw [digits, List.foldl_cons, ih, hsplit]
    ring

/-- A number is read back from its digits. -/
theorem ofDigits_digits (h : n < b ^ w) : ofDigits b (digits b w n) = n := by
  rw [ofDigits, foldl_digits, Nat.mod_eq_of_lt h]
  simp

/-- The digits are those of the remainder. -/
theorem digits_mod (hle : w ≤ m) : digits b w (n % b ^ m) = digits b w n := by
  induction w with
  | zero => rfl
  | succ w ih =>
    have hdigit : n % b ^ m / b ^ w % b = n / b ^ w % b := by
      obtain ⟨k, rfl⟩ := Nat.exists_eq_add_of_le hle
      rw [show w + 1 + k = w + (1 + k) by omega, pow_add, Nat.mod_mul_right_div_self, pow_add,
        pow_one, Nat.mod_mul_right_mod]
    rw [digits, digits, hdigit, ih (by omega)]

/-- **Numbers of one width are ordered as their digits are.** -/
theorem digits_lt_digits (hnm : n < m) (hm : m < b ^ w) : digits b w n < digits b w m := by
  induction w generalizing n m with
  | zero =>
    rw [pow_zero] at hm
    omega
  | succ w ih =>
    have hpos : 0 < b ^ w := Nat.pos_of_ne_zero fun h0 ↦ by
      rw [pow_succ, h0] at hm
      omega
    have hlead : ∀ k < b ^ (w + 1), k / b ^ w % b = k / b ^ w := fun k hk ↦
      Nat.mod_eq_of_lt (Nat.div_lt_of_lt_mul (by rwa [pow_succ] at hk))
    rw [digits, digits, hlead n (by omega), hlead m hm]
    rcases (Nat.div_le_div_right hnm.le : n / b ^ w ≤ m / b ^ w).lt_or_eq with hlt | heq
    · exact List.Lex.rel hlt
    · -- the leading digits agree, so the remainders are ordered
      rw [heq]
      have hrem : n % b ^ w < m % b ^ w := by
        have hn := Nat.div_add_mod n (b ^ w)
        have hm' := Nat.div_add_mod m (b ^ w)
        rw [heq] at hn
        omega
      have htail := ih hrem (Nat.mod_lt _ hpos)
      rw [digits_mod le_rfl, digits_mod le_rfl] at htail
      exact List.Lex.cons htail

end Digits

/-- Of two texts of one length the order is decided before either ends. -/
theorem append_lt_append_of_lt {α : Type*} [LT α] {xs ys : List α} (h : xs < ys)
    (hlen : xs.length = ys.length) (zs ws : List α) : xs ++ zs < ys ++ ws := by
  induction h with
  | nil => cases hlen
  | rel hlt => exact List.Lex.rel hlt
  | cons _ ih => exact List.Lex.cons (ih (Nat.succ.inj hlen))

/-- A table in which the entries increase keeps the order of texts. -/
theorem map_lt_map {α β : Type*} [LT α] [LT β] {f : α → β} {xs ys : List α} (h : xs < ys)
    (hf : ∀ x ∈ xs, ∀ y ∈ ys, x < y → f x < f y) : xs.map f < ys.map f := by
  induction h with
  | nil => exact List.Lex.nil
  | rel hlt => exact List.Lex.rel (hf _ List.mem_cons_self _ List.mem_cons_self hlt)
  | cons _ ih =>
    exact List.Lex.cons (ih fun x hx y hy ↦ hf x (List.mem_cons_of_mem _ hx) y
      (List.mem_cons_of_mem _ hy))
