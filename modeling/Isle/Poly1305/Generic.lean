import Isle.Go.Bits
import Mathlib.Data.Nat.ModEq

/-!
# The arithmetic of Poly1305

`sum_generic.go` of `pkg/crypto/internal/poly1305`: a number modulo `2^130 - 5` in three words of 64
bits, multiplied by a number of two words and reduced in part after every chunk of the message.

The functions are those of the source, on machine words. The reasons why nothing overflows are in
the source as comments and as calls of `panic`; here they are one invariant (`MacState.Reduced`),
which every chunk keeps, and `round_spec` says that with it no call of `panic` is reached and the
accumulator is multiplied as it should be.
-/

namespace Poly1305

open Bits

/-- A key, a message or a tag. -/
abbrev Bytes := List UInt8

/-- `TagSize` -/
def tagSize : ℕ := 16

/-! ### The source -/

/-- The accumulator and the two halves of the key, in limbs of 64 bits. -/
structure MacState where
  h0 : UInt64
  h1 : UInt64
  h2 : UInt64
  r0 : UInt64
  r1 : UInt64
  s0 : UInt64
  s1 : UInt64
  deriving DecidableEq, Repr

/-- The bits of the key that are kept, in its first limb. -/
def rMask0 : UInt64 := 0x0FFFFFFC0FFFFFFF

/-- The bits of the key that are kept, in its second limb. -/
def rMask1 : UInt64 := 0x0FFFFFFC0FFFFFFC

/-- `initialize`, on a fresh state. -/
def initializeState (key : Bytes) : MacState where
  h0 := 0
  h1 := 0
  h2 := 0
  r0 := uint64 key &&& rMask0
  r1 := uint64 (key.drop 8) &&& rMask1
  s0 := uint64 (key.drop 16)
  s1 := uint64 (key.drop 24)

/-- A number of 128 bits. -/
structure Uint128 where
  lo : UInt64
  hi : UInt64
  deriving DecidableEq, Repr

/-- The product of two limbs. -/
def mul64 (a b : UInt64) : Uint128 :=
  let p := Bits.mul64 a b
  ⟨p.2, p.1⟩

/-- The text of every call of `panic` in the arithmetic. -/
def unexpectedOverflow : String := "poly1305: unexpected overflow"

/-- A sum, which must not overflow. -/
def add128 (a b : Uint128) : Except String Uint128 :=
  let lo := add64 a.lo b.lo 0
  let hi := add64 a.hi b.hi lo.2
  if hi.2 ≠ 0 then .error unexpectedOverflow else .ok ⟨lo.1, hi.1⟩

/-- A quarter of a number, rounded down. -/
def shiftRightBy2 (a : Uint128) : Uint128 :=
  ⟨a.lo >>> 2 ||| (a.hi &&& 3) <<< 62, a.hi >>> 2⟩

/-- The bits of the third limb that are below 2^130. -/
def maskLow2Bits : UInt64 := 0x0000000000000003

/-- The bits of the third limb that are not. -/
def maskNotLow2Bits : UInt64 := ~~~maskLow2Bits

/-- `updateGeneric`, the first step on a chunk: `h + m`, with a bit set above the chunk. -/
def addChunk (st : MacState) (msg : Bytes) : MacState :=
  if tagSize ≤ msg.length then
    let a0 := add64 st.h0 (uint64 msg) 0
    let a1 := add64 st.h1 (uint64 (msg.drop 8)) a0.2
    { st with h0 := a0.1, h1 := a1.1, h2 := st.h2 + (a1.2 + 1) }
  else
    let buf := msg ++ 1 :: List.replicate (tagSize - 1 - msg.length) 0
    let a0 := add64 st.h0 (uint64 buf) 0
    let a1 := add64 st.h1 (uint64 (buf.drop 8)) a0.2
    { st with h0 := a0.1, h1 := a1.1, h2 := st.h2 + a1.2 }

/-- `updateGeneric`, the second step on a chunk: the four words of `h * r`. -/
def product (st : MacState) : Except String (UInt64 × UInt64 × UInt64 × UInt64) := do
  let h0r0 := mul64 st.h0 st.r0
  let h1r0 := mul64 st.h1 st.r0
  let h2r0 := mul64 st.h2 st.r0
  let h0r1 := mul64 st.h0 st.r1
  let h1r1 := mul64 st.h1 st.r1
  let h2r1 := mul64 st.h2 st.r1
  if h2r0.hi ≠ 0 then throw unexpectedOverflow
  if h2r1.hi ≠ 0 then throw unexpectedOverflow
  let m0 := h0r0
  let m1 ← add128 h1r0 h0r1
  let m2 ← add128 h2r0 h1r1
  let m3 := h2r1
  let t1 := add64 m1.lo m0.hi 0
  let t2 := add64 m2.lo m1.hi t1.2
  let t3 := add64 m3.lo m2.hi t2.2
  return (m0.lo, t1.1, t2.1, t3.1)

/-- `updateGeneric`, the third step on a chunk: what is above `2^130` is added five times. -/
def reduce (st : MacState) (t0 t1 t2 t3 : UInt64) : MacState :=
  let cc : Uint128 := ⟨t2 &&& maskNotLow2Bits, t3⟩
  let a0 := add64 t0 cc.lo 0
  let a1 := add64 t1 cc.hi a0.2
  let h2 := (t2 &&& maskLow2Bits) + a1.2
  let cc := shiftRightBy2 cc
  let b0 := add64 a0.1 cc.lo 0
  let b1 := add64 a1.1 cc.hi b0.2
  { st with h0 := b0.1, h1 := b1.1, h2 := h2 + b1.2 }

/-- `updateGeneric`, the body of its loop. -/
def round (st : MacState) (msg : Bytes) : Except String MacState := do
  let st := addChunk st msg
  let (t0, t1, t2, t3) ← product st
  return reduce st t0 t1 t2 t3

/-- The blocks of a message, one after the other. -/
def updateGeneric (st : MacState) (msg : Bytes) : Except String MacState :=
  if msg.length = 0 then .ok st
  else do updateGeneric (← round st msg) (msg.drop tagSize)
termination_by msg.length
decreasing_by
  rw [List.length_drop, tagSize]
  omega

/-- `select64`: `x` if `v` is 1 and `y` if it is 0. -/
def select64 (v x y : UInt64) : UInt64 := (~~~(v - 1) &&& x) ||| ((v - 1) &&& y)

/-- The first limb of the prime. -/
def p0 : UInt64 := 0xFFFFFFFFFFFFFFFB

/-- The second limb of the prime. -/
def p1 : UInt64 := 0xFFFFFFFFFFFFFFFF

/-- The third limb of the prime. -/
def p2 : UInt64 := 0x0000000000000003

/-- The tag: the accumulator, reduced without a branch, and the second half of the key. -/
def finalize (st : MacState) : Bytes :=
  let d0 := sub64 st.h0 p0 0
  let d1 := sub64 st.h1 p1 d0.2
  let d2 := sub64 st.h2 p2 d1.2
  let h0 := select64 d2.2 st.h0 d0.1
  let h1 := select64 d2.2 st.h1 d1.1
  let a0 := add64 h0 st.s0 0
  let a1 := add64 h1 st.s1 a0.2
  putUint64 a0.1 ++ putUint64 a1.1

/-! ### What the words stand for -/

/-- The modulus. -/
def prime : ℕ := 2 ^ 130 - 5

/-- The value of a number of 128 bits. -/
def Uint128.val (a : Uint128) : ℕ := a.lo.toNat + 2 ^ 64 * a.hi.toNat

namespace MacState

/-- The accumulator. -/
def h (st : MacState) : ℕ := st.h0.toNat + 2 ^ 64 * st.h1.toNat + 2 ^ 128 * st.h2.toNat

/-- The point that the message polynomial is evaluated at. -/
def r (st : MacState) : ℕ := st.r0.toNat + 2 ^ 64 * st.r1.toNat

/-- What is added at the end. -/
def s (st : MacState) : ℕ := st.s0.toNat + 2 ^ 64 * st.s1.toNat

/-- The key is clamped and the accumulator is reduced in part: what a chunk needs and leaves. -/
structure Reduced (st : MacState) : Prop where
  r0 : st.r0.toNat < 2 ^ 60
  r1 : st.r1.toNat < 2 ^ 60
  h2 : st.h2.toNat ≤ 5

end MacState

/-- The number that a chunk of the message stands for. -/
def chunkValue (chunk : Bytes) : ℕ := littleEndian chunk + 256 ^ chunk.length

/-! ### One lemma for each function -/

theorem val_mul64 (a b : UInt64) : (mul64 a b).val = a.toNat * b.toNat := toNat_mul64 a b

theorem hi_eq_zero_of_val_lt {a : Uint128} (h : a.val < 2 ^ 64) : a.hi = 0 := by
  refine UInt64.toNat_inj.1 ?_
  rw [Uint128.val] at h
  show a.hi.toNat = 0
  omega

theorem add128_spec {a b : Uint128} (h : a.val + b.val < 2 ^ 128) :
    ∃ c, add128 a b = .ok c ∧ c.val = a.val + b.val := by
  have hsum := toNat_add64_pair a.lo a.hi b.lo b.hi
  have hcarry : (add64 a.hi b.hi (add64 a.lo b.lo 0).2).2 = 0 := by
    refine UInt64.toNat_inj.1 ?_
    simp only [Uint128.val] at h
    show _ = 0
    omega
  refine ⟨_, if_neg (not_not.2 hcarry), ?_⟩
  rw [hcarry] at hsum
  simpa only [Uint128.val, UInt64.toNat_zero, Nat.mul_zero, Nat.add_zero] using hsum

theorem toNat_and_maskLow2Bits (x : UInt64) : (x &&& maskLow2Bits).toNat = x.toNat % 4 := by
  rw [UInt64.toNat_and]
  exact Nat.and_two_pow_sub_one_eq_mod x.toNat 2

theorem toNat_and_maskNotLow2Bits (x : UInt64) :
    (x &&& maskNotLow2Bits).toNat = 4 * (x.toNat / 4) := by
  have hx := x.toNat_lt
  have hmask : maskNotLow2Bits.toNat = 2 ^ 64 - 4 := rfl
  have hdiv : (x.toNat &&& (2 ^ 64 - 4)) / 2 ^ 2 = x.toNat / 2 ^ 2 % 2 ^ 62 := by
    rw [Nat.and_div_two_pow]
    exact Nat.and_two_pow_sub_one_eq_mod _ 62
  have hmod : (x.toNat &&& (2 ^ 64 - 4)) % 2 ^ 2 = 0 := by
    rw [Nat.and_mod_two_pow]
    exact Nat.and_zero _
  rw [UInt64.toNat_and, hmask]
  omega

private theorem toNat_shiftRight_2 (x : UInt64) : (x >>> 2).toNat = x.toNat / 4 := by
  rw [UInt64.toNat_shiftRight, Nat.shiftRight_eq_div_pow]
  rfl

theorem val_shiftRightBy2 (a : Uint128) : (shiftRightBy2 a).val = a.val / 4 := by
  have hlo := a.lo.toNat_lt
  have hhi := a.hi.toNat_lt
  have hlow : ((a.hi &&& 3) <<< 62).toNat = 2 ^ 62 * (a.hi.toNat % 4) := by
    rw [UInt64.toNat_shiftLeft, show (a.hi &&& 3).toNat = a.hi.toNat % 4 from
      toNat_and_maskLow2Bits a.hi, Nat.shiftLeft_eq]
    show a.hi.toNat % 4 * 2 ^ 62 % 2 ^ 64 = _
    omega
  -- the two parts of the low word have no bit in common
  have hword : (a.lo >>> 2 ||| (a.hi &&& 3) <<< 62).toNat =
      2 ^ 62 * (a.hi.toNat % 4) + a.lo.toNat / 4 := by
    rw [UInt64.toNat_or, toNat_shiftRight_2, hlow, Nat.or_comm]
    exact (Nat.two_pow_add_eq_or_of_lt (by omega) _).symm
  simp only [Uint128.val, shiftRightBy2, hword, toNat_shiftRight_2]
  omega

theorem select64_eq (x y : UInt64) {v : UInt64} (hv : v.toNat ≤ 1) :
    select64 v x y = if v.toNat = 1 then x else y := by
  rcases (by omega : v.toNat = 0 ∨ v.toNat = 1) with h | h
  · obtain rfl : v = 0 := UInt64.toNat_inj.1 h
    simp [select64]
  · obtain rfl : v = 1 := UInt64.toNat_inj.1 h
    simp [select64]

/-! ### One chunk -/

/-- The state of the key is the same. -/
structure SameKey (st st' : MacState) : Prop where
  r0 : st'.r0 = st.r0
  r1 : st'.r1 = st.r1
  s0 : st'.s0 = st.s0
  s1 : st'.s1 = st.s1

variable {st st' : MacState}

theorem SameKey.trans {st'' : MacState} (h : SameKey st st') (h' : SameKey st' st'') :
    SameKey st st'' :=
  ⟨h'.r0.trans h.r0, h'.r1.trans h.r1, h'.s0.trans h.s0, h'.s1.trans h.s1⟩

theorem SameKey.r_eq (h : SameKey st st') : st'.r = st.r := by
  rw [MacState.r, MacState.r, h.r0, h.r1]

theorem SameKey.s_eq (h : SameKey st st') : st'.s = st.s := by
  rw [MacState.s, MacState.s, h.s0, h.s1]

/-- The last chunk, filled up. -/
theorem littleEndian_padded {msg : Bytes} (h : msg.length < tagSize) :
    littleEndian ((msg ++ 1 :: List.replicate (tagSize - 1 - msg.length) 0).take 16) =
      chunkValue msg := by
  have hlen : (msg ++ 1 :: List.replicate (tagSize - 1 - msg.length) 0).length = 16 := by
    simp only [List.length_append, List.length_cons, List.length_replicate, tagSize] at *
    omega
  rw [List.take_of_length_le hlen.le, littleEndian_append, littleEndian_cons,
    littleEndian_replicate_zero]
  simp [chunkValue]

theorem sameKey_addChunk (st : MacState) (msg : Bytes) : SameKey st (addChunk st msg) := by
  unfold addChunk
  split_ifs <;> exact ⟨rfl, rfl, rfl, rfl⟩

/-- The value of a chunk is added. -/
theorem h_addChunk (hst : st.h2.toNat ≤ 5) (msg : Bytes) :
    (addChunk st msg).h = st.h + chunkValue (msg.take tagSize) ∧
      (addChunk st msg).h2.toNat ≤ 7 := by
  unfold addChunk
  split_ifs with hlen
  · have hsum := toNat_add64_pair st.h0 st.h1 (uint64 msg) (uint64 (msg.drop 8))
    have hcarry := carry_add64_pair_le st.h0 st.h1 (uint64 msg) (uint64 (msg.drop 8))
    have hmsg := toNat_uint64_pair msg
    have hvalue : chunkValue (msg.take tagSize) = littleEndian (msg.take 16) + 2 ^ 128 := by
      rw [chunkValue, List.length_take_of_le hlen]
      rfl
    rw [hvalue]
    simp only [MacState.h, UInt64.toNat_add, UInt64.toNat_one]
    omega
  · rw [List.take_of_length_le (Nat.le_of_not_le hlen),
      ← littleEndian_padded (Nat.lt_of_not_le hlen)]
    generalize msg ++ 1 :: List.replicate (tagSize - 1 - msg.length) 0 = buf
    have hsum := toNat_add64_pair st.h0 st.h1 (uint64 buf) (uint64 (buf.drop 8))
    have hcarry := carry_add64_pair_le st.h0 st.h1 (uint64 buf) (uint64 (buf.drop 8))
    have hmsg := toNat_uint64_pair buf
    simp only [MacState.h, UInt64.toNat_add]
    omega

/-- The product of a word of the accumulator and one of the clamped key. -/
theorem val_mul64_lt (a : UInt64) {b : UInt64} (hb : b.toNat < 2 ^ 60) :
    (mul64 a b).val < 2 ^ 124 := by
  rw [val_mul64]
  calc a.toNat * b.toNat < 2 ^ 64 * 2 ^ 60 := Nat.mul_lt_mul'' a.toNat_lt hb
    _ = 2 ^ 124 := by norm_num

theorem val_mul64_lt_of_le {a b : UInt64} (ha : a.toNat ≤ 7) (hb : b.toNat < 2 ^ 60) :
    (mul64 a b).val < 2 ^ 63 := by
  rw [val_mul64]
  calc a.toNat * b.toNat ≤ 7 * 2 ^ 60 := Nat.mul_le_mul ha hb.le
    _ < 2 ^ 63 := by norm_num

/-- The limbs of the product are those of the product of the numbers. -/
theorem product_spec (h2 : st.h2.toNat ≤ 7) (hr0 : st.r0.toNat < 2 ^ 60)
    (hr1 : st.r1.toNat < 2 ^ 60) :
    ∃ t0 t1 t2 t3, product st = .ok (t0, t1, t2, t3) ∧
      t0.toNat + 2 ^ 64 * t1.toNat + 2 ^ 128 * t2.toNat + 2 ^ 192 * t3.toNat = st.h * st.r := by
  have h00 := val_mul64_lt st.h0 hr0
  have h10 := val_mul64_lt st.h1 hr0
  have h01 := val_mul64_lt st.h0 hr1
  have h11 := val_mul64_lt st.h1 hr1
  have h20 := val_mul64_lt_of_le h2 hr0
  have h21 := val_mul64_lt_of_le h2 hr1
  have hhi20 := hi_eq_zero_of_val_lt (h20.trans (by norm_num))
  have hhi21 := hi_eq_zero_of_val_lt (h21.trans (by norm_num))
  obtain ⟨m1, hm1, hval1⟩ := add128_spec (a := mul64 st.h1 st.r0) (b := mul64 st.h0 st.r1)
    (by omega)
  obtain ⟨m2, hm2, hval2⟩ := add128_spec (a := mul64 st.h2 st.r0) (b := mul64 st.h1 st.r1)
    (by omega)
  set m0 := mul64 st.h0 st.r0 with hm0
  set m3 := mul64 st.h2 st.r1 with hm3
  have hc1 := carry_add64_le m1.lo m0.hi (c := 0) (Nat.zero_le 1)
  have hc2 := carry_add64_le m2.lo m1.hi hc1
  have ht1 := toNat_add64 m1.lo m0.hi (c := 0) (Nat.zero_le 1)
  have ht2 := toNat_add64 m2.lo m1.hi hc1
  have ht3 := toNat_add64 m3.lo m2.hi hc2
  have hprod : st.h * st.r = m0.val + 2 ^ 64 * m1.val + 2 ^ 128 * m2.val + 2 ^ 192 * m3.val := by
    rw [hval1, hval2, hm0, hm3]
    simp only [val_mul64, MacState.h, MacState.r]
    ring
  refine ⟨m0.lo, (add64 m1.lo m0.hi 0).1,
    (add64 m2.lo m1.hi (add64 m1.lo m0.hi 0).2).1,
    (add64 m3.lo m2.hi (add64 m2.lo m1.hi (add64 m1.lo m0.hi 0).2).2).1, ?_, ?_⟩
  · simp only [product, hhi20, ← hm3, hhi21, hm1, hm2, ne_eq, not_true_eq_false, if_false]
    rfl
  · have hlo0 := m0.lo.toNat_lt
    rw [hprod]
    simp only [Uint128.val, UInt64.toNat_zero, Nat.add_zero, hhi21] at *
    omega

theorem sameKey_reduce (st : MacState) (t0 t1 t2 t3 : UInt64) :
    SameKey st (reduce st t0 t1 t2 t3) := ⟨rfl, rfl, rfl, rfl⟩

/-- The reduction takes off a multiple of the prime. -/
theorem reduce_spec (st : MacState) (t0 t1 t2 t3 : UInt64) :
    t0.toNat + 2 ^ 64 * t1.toNat + 2 ^ 128 * t2.toNat + 2 ^ 192 * t3.toNat =
        (reduce st t0 t1 t2 t3).h + prime * (t2.toNat / 4 + 2 ^ 62 * t3.toNat) ∧
      (reduce st t0 t1 t2 t3).h2.toNat ≤ 5 := by
  set cc : Uint128 := ⟨t2 &&& maskNotLow2Bits, t3⟩ with hcc
  have hval : cc.val = 4 * (t2.toNat / 4) + 2 ^ 64 * t3.toNat := by
    rw [Uint128.val, hcc, toNat_and_maskNotLow2Bits]
  have hshift := val_shiftRightBy2 cc
  have hsum := toNat_add64_pair t0 t1 cc.lo cc.hi
  have hcarry := carry_add64_pair_le t0 t1 cc.lo cc.hi
  have hlow := toNat_and_maskLow2Bits t2
  simp only [MacState.h, reduce, UInt64.toNat_add, ← hcc, prime]
  set a0 := add64 t0 cc.lo 0
  set a1 := add64 t1 cc.hi a0.2
  have hsum' := toNat_add64_pair a0.1 a1.1 (shiftRightBy2 cc).lo (shiftRightBy2 cc).hi
  have hcarry' := carry_add64_pair_le a0.1 a1.1 (shiftRightBy2 cc).lo (shiftRightBy2 cc).hi
  simp only [Uint128.val] at hval hshift
  omega

/-- **One chunk.** No call of `panic` is reached, and the accumulator is multiplied as the message
polynomial asks. -/
theorem round_spec (hst : st.Reduced) (msg : Bytes) :
    ∃ st', round st msg = .ok st' ∧ st'.Reduced ∧ SameKey st st' ∧
      st'.h ≡ (st.h + chunkValue (msg.take tagSize)) * st.r [MOD prime] := by
  obtain ⟨hadd, h2⟩ := h_addChunk hst.h2 msg
  have hkey := sameKey_addChunk st msg
  obtain ⟨t0, t1, t2, t3, hprod, hval⟩ :=
    product_spec h2 (by rw [hkey.r0]; exact hst.r0) (by rw [hkey.r1]; exact hst.r1)
  obtain ⟨hred, hle⟩ := reduce_spec (addChunk st msg) t0 t1 t2 t3
  have hkey' := sameKey_reduce (addChunk st msg) t0 t1 t2 t3
  refine ⟨_, by simp only [round, hprod]; rfl, ⟨?_, ?_, hle⟩, hkey.trans hkey', ?_⟩
  · rw [hkey'.r0, hkey.r0]
    exact hst.r0
  · rw [hkey'.r1, hkey.r1]
    exact hst.r1
  · rw [← hadd, ← hkey.r_eq, ← hval, hred]
    exact (Nat.add_mul_mod_self_left _ _ _).symm

/-! ### The end -/

theorem h_lt (h2 : st.h2.toNat ≤ 5) : st.h < 2 * prime := by
  have h0 := st.h0.toNat_lt
  have h1 := st.h1.toNat_lt
  rw [MacState.h, prime]
  omega

/-- **The end.** The tag is the accumulator modulo the prime, and what is added to it. -/
theorem finalize_spec (h2 : st.h2.toNat ≤ 5) :
    (finalize st).length = tagSize ∧
      littleEndian (finalize st) = (st.h % prime + st.s) % 2 ^ 128 := by
  refine ⟨rfl, ?_⟩
  have hlt := h_lt h2
  have hd0 := toNat_sub64 st.h0 p0 (b := 0) (Nat.zero_le 1)
  have hb0 := borrow_sub64_le st.h0 p0 (b := 0) (Nat.zero_le 1)
  have hd1 := toNat_sub64 st.h1 p1 hb0
  have hb1 := borrow_sub64_le st.h1 p1 hb0
  have hd2 := toNat_sub64 st.h2 p2 hb1
  have hb2 := borrow_sub64_le st.h2 p2 hb1
  set d0 := sub64 st.h0 p0 0
  set d1 := sub64 st.h1 p1 d0.2
  set d2 := sub64 st.h2 p2 d1.2
  have hp : p0.toNat = 2 ^ 64 - 5 ∧ p1.toNat = 2 ^ 64 - 1 ∧ p2.toNat = 3 := ⟨rfl, rfl, rfl⟩
  -- the low 128 bits of the remainder, whichever way the comparison goes
  have hsel : (select64 d2.2 st.h0 d0.1).toNat + 2 ^ 64 * (select64 d2.2 st.h1 d1.1).toNat =
      st.h % prime % 2 ^ 128 := by
    have hl0 := st.h0.toNat_lt
    have hl1 := st.h1.toNat_lt
    have hl0' := d0.1.toNat_lt
    have hl1' := d1.1.toNat_lt
    have hl2' := d2.1.toNat_lt
    rw [select64_eq _ _ hb2, select64_eq _ _ hb2]
    rw [UInt64.toNat_zero] at hd0
    rcases (by omega : d2.2.toNat = 1 ∨ d2.2.toNat = 0) with hb | hb
    · have hsmall : st.h < prime := by
        rw [MacState.h, prime]
        omega
      rw [if_pos hb, if_pos hb, Nat.mod_eq_of_lt hsmall, MacState.h]
      omega
    · have hlarge : prime ≤ st.h := by
        rw [MacState.h, prime]
        omega
      have hmod : st.h % prime = st.h - prime := by
        rw [Nat.mod_eq_sub_mod hlarge]
        exact Nat.mod_eq_of_lt (by omega)
      rw [if_neg (by omega), if_neg (by omega), hmod, MacState.h, prime]
      omega
  have hsum := toNat_add64_pair (select64 d2.2 st.h0 d0.1) (select64 d2.2 st.h1 d1.1)
    st.s0 st.s1
  have hfin : finalize st =
      putUint64 (add64 (select64 d2.2 st.h0 d0.1) st.s0 0).1 ++
        putUint64 (add64 (select64 d2.2 st.h1 d1.1) st.s1
          (add64 (select64 d2.2 st.h0 d0.1) st.s0 0).2).1 := rfl
  rw [hfin, littleEndian_append, littleEndian_putUint64, littleEndian_putUint64,
    length_putUint64, MacState.s]
  rw [hsel] at hsum
  set a0 := add64 (select64 d2.2 st.h0 d0.1) st.s0 0
  set a1 := add64 (select64 d2.2 st.h1 d1.1) st.s1 a0.2
  have ha0 := a0.1.toNat_lt
  have ha1 := a1.1.toNat_lt
  omega

/-! ### The key -/

theorem toNat_and_le_right (x y : UInt64) : (x &&& y).toNat ≤ y.toNat := by
  rw [UInt64.toNat_and]
  exact Nat.and_le_right

theorem reduced_initializeState (key : Bytes) : (initializeState key).Reduced where
  r0 := Nat.lt_of_le_of_lt (toNat_and_le_right _ rMask0) (by decide)
  r1 := Nat.lt_of_le_of_lt (toNat_and_le_right _ rMask1) (by decide)
  h2 := Nat.zero_le 5

theorem h_initializeState (key : Bytes) : (initializeState key).h = 0 := rfl

end Poly1305
