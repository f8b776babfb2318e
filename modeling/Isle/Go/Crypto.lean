import Mathlib.Data.List.Basic
import Mathlib.Tactic.SplitIfs

/-!
# Ciphers and reads as a protocol sees them

The interfaces of Go's `crypto/cipher` and `hash`, as far as a protocol that uses them can tell
them apart, and `io.ReadFull` on the bytes that a connection delivers.

* A `Stream` xors with a sequence of bytes, from where it is. What two ends that are at the same
  place do cancels (`Stream.crypt_crypt`), in however many calls (`Stream.crypt_append`).
* A `Hash` gives so many bytes for what was written to it.
* An `Aead` opens what it sealed.
* A `Block` turns blocks into blocks. **Chaining is not a parameter**: `cbcEncrypt` and `cbcDecrypt`
  are `cipher.NewCBCEncrypter` and `NewCBCDecrypter`, with the last block of ciphertext as their
  state, and `cbcDecrypt_cbcEncrypt` is proved of them.
-/

/-- `io.ReadFull`: so many bytes, and what is left. -/
def readFull (n : ℕ) (bs : List UInt8) : Except String (List UInt8 × List UInt8) :=
  if n ≤ bs.length then .ok (bs.take n, bs.drop n)
  else .error (if bs.isEmpty then "EOF" else "unexpected EOF")

theorem readFull_append {xs : List UInt8} {n : ℕ} (h : xs.length = n) (rest : List UInt8) :
    readFull n (xs ++ rest) = .ok (xs, rest) := by
  rw [readFull, if_pos (by rw [List.length_append]; omega), List.take_left' h, List.drop_left' h]

theorem readFull_eq_ok {n : ℕ} {bs xs rest : List UInt8} (h : readFull n bs = .ok (xs, rest)) :
    xs.length = n ∧ bs = xs ++ rest := by
  unfold readFull at h
  split_ifs at h with hle
  cases h
  exact ⟨List.length_take_of_le hle, (List.take_append_drop n bs).symm⟩

namespace Crypto

/-! ### Streams -/

/-- `cipher.Stream`: the bytes that it xors with, and how many of them were used. -/
structure Stream where
  keyStream : ℕ → UInt8
  used : ℕ

namespace Stream

/-- `XORKeyStream` -/
def crypt (s : Stream) (src : List UInt8) : List UInt8 × Stream :=
  (src.mapIdx fun i b ↦ b ^^^ s.keyStream (s.used + i), { s with used := s.used + src.length })

@[simp] theorem length_crypt (s : Stream) (src : List UInt8) :
    (s.crypt src).1.length = src.length :=
  List.length_mapIdx

/-- The two ends cancel. -/
theorem crypt_crypt (s : Stream) (src : List UInt8) :
    s.crypt (s.crypt src).1 = (src, (s.crypt src).2) := by
  refine Prod.ext (List.ext_getElem (by simp) fun i _ _ ↦ ?_) (by simp [crypt])
  simp only [crypt, List.getElem_mapIdx, UInt8.xor_assoc, UInt8.xor_self, UInt8.xor_zero]

/-- A call on two pieces is a call on each. -/
theorem crypt_append (s : Stream) (xs ys : List UInt8) :
    s.crypt (xs ++ ys) =
      ((s.crypt xs).1 ++ ((s.crypt xs).2.crypt ys).1, ((s.crypt xs).2.crypt ys).2) := by
  refine Prod.ext ?_ (by simp [crypt, Nat.add_assoc])
  simp [crypt, List.mapIdx_append, Nat.add_comm xs.length, Nat.add_assoc]

end Stream

/-! ### Hashes and sealed boxes -/

/-- A keyed `hash.Hash`: what `Sum` gives for all that was written since `Reset`. -/
structure Hash where
  size : ℕ
  sum : List UInt8 → List UInt8
  length_sum : ∀ written, (sum written).length = size

/-- `cipher.AEAD` under a key, with tags of sixteen bytes. -/
structure Aead where
  /-- `Seal`, of a text under a nonce and additional data. -/
  sealed : (nonce text additional : List UInt8) → List UInt8
  /-- `Open` -/
  opened : (nonce text additional : List UInt8) → Option (List UInt8)
  length_sealed : ∀ nonce text additional, (sealed nonce text additional).length = text.length + 16
  opened_sealed : ∀ nonce text additional,
    opened nonce (sealed nonce text additional) additional = some text

/-! ### Blocks -/

/-- `cipher.Block` under a key. -/
structure Block where
  size : ℕ
  size_pos : 0 < size
  encrypt : List UInt8 → List UInt8
  decrypt : List UInt8 → List UInt8
  length_encrypt : ∀ {b}, b.length = size → (encrypt b).length = size
  decrypt_encrypt : ∀ {b}, b.length = size → decrypt (encrypt b) = b

/-- The bytes of two texts, one against the other. -/
def xorBytes (xs ys : List UInt8) : List UInt8 := List.zipWith (· ^^^ ·) xs ys

theorem length_xorBytes {xs ys : List UInt8} (h : xs.length = ys.length) :
    (xorBytes xs ys).length = xs.length := by
  rw [xorBytes, List.length_zipWith, h, Nat.min_self]

theorem xorBytes_xorBytes {xs ys : List UInt8} (h : xs.length = ys.length) :
    xorBytes (xorBytes xs ys) ys = xs := by
  induction xs generalizing ys with
  | nil => rfl
  | cons x xs ih =>
    obtain ⟨y, ys, rfl⟩ := List.exists_cons_of_length_eq_add_one h.symm
    have htail := ih (Nat.succ.inj h)
    rw [xorBytes, xorBytes] at *
    simp only [List.zipWith_cons_cons, UInt8.xor_assoc, UInt8.xor_self, UInt8.xor_zero, htail]

/-- `CryptBlocks` of `cipher.NewCBCEncrypter`, on so many blocks: the text, and the block that the
next call is chained to. -/
def cbcEncrypt (c : Block) : ℕ → List UInt8 → List UInt8 → List UInt8 × List UInt8
  | 0, iv, _ => ([], iv)
  | n + 1, iv, src =>
    let block := c.encrypt (xorBytes (src.take c.size) iv)
    let rest := cbcEncrypt c n block (src.drop c.size)
    (block ++ rest.1, rest.2)

/-- `CryptBlocks` of `cipher.NewCBCDecrypter` -/
def cbcDecrypt (c : Block) : ℕ → List UInt8 → List UInt8 → List UInt8 × List UInt8
  | 0, iv, _ => ([], iv)
  | n + 1, iv, src =>
    let block := src.take c.size
    let rest := cbcDecrypt c n block (src.drop c.size)
    (xorBytes (c.decrypt block) iv ++ rest.1, rest.2)

section Chaining

variable (c : Block) {n m : ℕ} {iv src : List UInt8}

/-- The first block and what follows it have their lengths. -/
theorem length_first_block (hiv : iv.length = c.size) (hsrc : src.length = (n + 1) * c.size) :
    (src.take c.size).length = iv.length ∧ (xorBytes (src.take c.size) iv).length = c.size ∧
      (src.drop c.size).length = n * c.size := by
  rw [Nat.succ_mul] at hsrc
  have hblock : (src.take c.size).length = iv.length := by
    rw [List.length_take_of_le (by omega), hiv]
  refine ⟨hblock, (length_xorBytes hblock).trans (hblock.trans hiv), ?_⟩
  rw [List.length_drop, hsrc, Nat.add_sub_cancel]

theorem length_cbcEncrypt (hiv : iv.length = c.size) (hsrc : src.length = n * c.size) :
    (cbcEncrypt c n iv src).1.length = n * c.size := by
  induction n generalizing iv src with
  | zero => simp [cbcEncrypt]
  | succ n ih =>
    obtain ⟨-, hxor, hdrop⟩ := length_first_block c hiv hsrc
    have henc := c.length_encrypt hxor
    rw [cbcEncrypt, List.length_append, henc, ih henc hdrop, Nat.succ_mul, Nat.add_comm]

theorem length_cbcEncrypt_snd (hiv : iv.length = c.size) (hsrc : src.length = n * c.size) :
    (cbcEncrypt c n iv src).2.length = c.size := by
  induction n generalizing iv src with
  | zero => exact hiv
  | succ n ih =>
    obtain ⟨-, hxor, hdrop⟩ := length_first_block c hiv hsrc
    exact ih (c.length_encrypt hxor) hdrop

/-- **What was chained is unchained**, and the next call of either is chained to the same block. -/
theorem cbcDecrypt_cbcEncrypt (hiv : iv.length = c.size) (hsrc : src.length = n * c.size)
    (rest : List UInt8) :
    cbcDecrypt c n iv ((cbcEncrypt c n iv src).1 ++ rest) = (src, (cbcEncrypt c n iv src).2) := by
  induction n generalizing iv src with
  | zero =>
    rw [Nat.zero_mul] at hsrc
    rw [List.length_eq_zero_iff.1 hsrc]
    rfl
  | succ n ih =>
    obtain ⟨hblock, hxor, hdrop⟩ := length_first_block c hiv hsrc
    have henc := c.length_encrypt hxor
    rw [cbcEncrypt, cbcDecrypt]
    dsimp only
    rw [List.append_assoc, List.take_left' henc, List.drop_left' henc, ih henc hdrop,
      c.decrypt_encrypt hxor, xorBytes_xorBytes hblock, List.take_append_drop]

/-- What was chained at once can be unchained in two calls, the first for one block. -/
theorem exists_first_block (hiv : iv.length = c.size) (hsrc : src.length = (n + 1) * c.size) :
    ∃ first rest, (cbcEncrypt c (n + 1) iv src).1 = first ++ rest ∧
      first.length = c.size ∧ rest.length = n * c.size ∧
      cbcDecrypt c 1 iv first = (src.take c.size, first) ∧
      cbcDecrypt c n first rest = (src.drop c.size, (cbcEncrypt c (n + 1) iv src).2) := by
  obtain ⟨hblock, hxor, hdrop⟩ := length_first_block c hiv hsrc
  have henc := c.length_encrypt hxor
  refine ⟨_, _, rfl, henc, length_cbcEncrypt c henc hdrop, ?_, ?_⟩
  · rw [cbcDecrypt, List.take_of_length_le (Nat.le_of_eq henc), c.decrypt_encrypt hxor,
      xorBytes_xorBytes hblock]
    simp only [cbcDecrypt, List.append_nil]
  · have hrest := cbcDecrypt_cbcEncrypt c henc hdrop []
    rw [List.append_nil] at hrest
    exact hrest

end Chaining

end Crypto
