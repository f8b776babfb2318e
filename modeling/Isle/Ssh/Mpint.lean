import Isle.Ssh.Framing

/-!
# Numbers of any size

`marshalInt`, `intLength` and `parseInt` of `pkg/crypto/ssh/messages.go`: a `big.Int` as the bytes
of its two's complement, the most significant first, with their length in front. Zero has no bytes.
A byte of the sign is added where the first byte would have the wrong one.

The number is read back from its bytes (`ofTwosComplement_twosComplement`), and the buffer that is
made for it has exactly their length (`length_marshalInt`). A reader also takes bytes that repeat
the sign; of all bytes that are read as a number those that are written are the fewest
(`length_twosComplement_le`).
-/

namespace Ssh

open Forward (toBigEndian ofBigEndian length_toBigEndian ofBigEndian_toBigEndian)

/-- `BitLen` of `big.Int` -/
def bitLen (n : ℕ) : ℕ := if n = 0 then 0 else n.log2 + 1

/-- `Bytes` of `big.Int` -/
def bigBytes (n : ℕ) : Bytes := toBigEndian ((bitLen n + 7) / 8) n

/-- The first byte has its highest bit. -/
def highBit : Bytes → Bool
  | [] => false
  | b :: _ => b &&& 0x80 ≠ 0

/-- `marshalInt`, without the length. -/
def twosComplement (n : ℤ) : Bytes :=
  if n < 0 then
    let bytes := (bigBytes (-n - 1).toNat).map (· ^^^ 0xff)
    if highBit bytes then bytes else 0xff :: bytes
  else if n = 0 then []
  else
    let bytes := bigBytes n.toNat
    if highBit bytes then 0 :: bytes else bytes

/-- `marshalInt` -/
def marshalInt (n : ℤ) : Bytes :=
  putUint32 (twosComplement n).length ++ twosComplement n

/-- The length of the buffer that `marshalInt` writes to. -/
def intLength (n : ℤ) : ℕ :=
  if n < 0 then
    let bitLen := bitLen (-n - 1).toNat
    4 + (if bitLen % 8 = 0 then 1 else 0) + (bitLen + 7) / 8
  else if n = 0 then 4
  else
    let bitLen := bitLen n.toNat
    4 + (if bitLen % 8 = 0 then 1 else 0) + (bitLen + 7) / 8

/-- `parseInt`, of the bytes behind the length. -/
def ofTwosComplement (contents : Bytes) : ℤ :=
  if highBit contents then -(ofBigEndian (contents.map (~~~ ·)) + 1) else ofBigEndian contents

/-! ### Bytes of a natural number -/

theorem highBit_cons (b : UInt8) (bs : Bytes) :
    highBit (b :: bs) = decide (128 ≤ b.toNat) := by
  have hbyte : ∀ n < 256, (UInt8.ofNat n &&& 0x80 ≠ 0) = (128 ≤ n) := by decide +kernel
  have h := hbyte b.toNat b.toNat_lt
  rw [UInt8.ofNat_toNat] at h
  simp only [highBit, h]

theorem foldl_bigEndian (bs : Bytes) (a : ℕ) :
    bs.foldl (fun n b ↦ 256 * n + b.toNat) a = a * 256 ^ bs.length + ofBigEndian bs := by
  induction bs generalizing a with
  | nil => simp [ofBigEndian]
  | cons b bs ih =>
    rw [ofBigEndian, List.foldl_cons, List.foldl_cons, ih, ih (256 * 0 + b.toNat), List.length_cons]
    ring

theorem ofBigEndian_cons (b : UInt8) (bs : Bytes) :
    ofBigEndian (b :: bs) = b.toNat * 256 ^ bs.length + ofBigEndian bs := by
  rw [ofBigEndian, List.foldl_cons, foldl_bigEndian, Nat.mul_zero, Nat.zero_add]

theorem ofBigEndian_lt (bs : Bytes) : ofBigEndian bs < 256 ^ bs.length := by
  induction bs with
  | nil => decide
  | cons b bs ih =>
    have hb : b.toNat ≤ 255 := Nat.le_of_lt_succ b.toNat_lt
    have hmul := Nat.mul_le_mul_right (256 ^ bs.length) hb
    rw [ofBigEndian_cons, List.length_cons, Nat.pow_succ]
    omega

/-- A number without the highest bit of its first byte. -/
theorem ofBigEndian_lt_of_highBit {bs : Bytes} (h : highBit bs = false) (hne : bs ≠ []) :
    ofBigEndian bs < 2 ^ (8 * bs.length - 1) := by
  rcases bs with - | ⟨b, bs⟩
  · exact absurd rfl hne
  · rw [highBit_cons, decide_eq_false_iff_not] at h
    have hmul := Nat.mul_le_mul_right (256 ^ bs.length) (show b.toNat ≤ 127 by omega)
    have hlt := ofBigEndian_lt bs
    have hpow : 2 ^ (8 * (b :: bs).length - 1) = 128 * 256 ^ bs.length := by
      rw [List.length_cons, show 8 * (bs.length + 1) - 1 = 7 + 8 * bs.length by omega,
        Nat.pow_add, Nat.pow_mul]
    rw [ofBigEndian_cons, hpow]
    omega

theorem bitLen_le_iff {n k : ℕ} : bitLen n ≤ k ↔ n < 2 ^ k := by
  unfold bitLen
  split_ifs with h
  · simp [h]
  · exact Nat.log2_lt h

theorem length_bigBytes (n : ℕ) : (bigBytes n).length = (bitLen n + 7) / 8 :=
  length_toBigEndian _ _

theorem ofBigEndian_bigBytes (n : ℕ) : ofBigEndian (bigBytes n) = n := by
  have hlt : n < 2 ^ (8 * ((bitLen n + 7) / 8)) := bitLen_le_iff.1 (by omega)
  rw [Nat.pow_mul] at hlt
  exact ofBigEndian_toBigEndian hlt

/-- The first byte of a number has its highest bit if the bits of the number fill its bytes. -/
theorem highBit_bigBytes {n : ℕ} (hn : n ≠ 0) :
    highBit (bigBytes n) = decide (bitLen n % 8 = 0) := by
  have hpos : 0 < bitLen n := by
    rw [bitLen, if_neg hn]
    exact Nat.succ_pos _
  obtain ⟨w, hw⟩ : ∃ w, (bitLen n + 7) / 8 = w + 1 :=
    Nat.exists_eq_succ_of_ne_zero (by omega)
  have hlt : n < 256 ^ w * 256 := by
    have hlt : n < 2 ^ (8 * (w + 1)) := bitLen_le_iff.1 (by omega)
    rwa [Nat.pow_mul, Nat.pow_succ] at hlt
  have hhead : (UInt8.ofNat (n / 256 ^ w % 256)).toNat = n / 256 ^ w := by
    rw [Nat.mod_eq_of_lt (Nat.div_lt_of_lt_mul hlt), toNat_ofNat_of_lt (Nat.div_lt_of_lt_mul hlt)]
  have hiff : 128 ≤ n / 256 ^ w ↔ ¬ bitLen n ≤ 7 + 8 * w := by
    rw [bitLen_le_iff, Nat.not_lt, Nat.pow_add, Nat.pow_mul,
      Nat.le_div_iff_mul_le (Nat.pow_pos (by decide))]
  rw [bigBytes, hw, toBigEndian, highBit_cons, hhead, decide_eq_decide, hiff]
  omega

/-! ### The sign -/

/-- The bytes of a number with a bit of the sign in front. -/
def signed (m : ℕ) : Bytes := if bitLen m % 8 = 0 then 0 :: bigBytes m else bigBytes m

theorem length_signed (m : ℕ) : (signed m).length = bitLen m / 8 + 1 := by
  unfold signed
  split_ifs <;> simp only [List.length_cons, length_bigBytes] <;> omega

theorem signed_ne_nil (m : ℕ) : signed m ≠ [] :=
  List.ne_nil_of_length_pos (by rw [length_signed]; exact Nat.succ_pos _)

theorem ofBigEndian_signed (m : ℕ) : ofBigEndian (signed m) = m := by
  unfold signed
  split_ifs
  · rw [ofBigEndian_cons, ofBigEndian_bigBytes]
    exact (congrArg (· + m) (Nat.zero_mul _)).trans (Nat.zero_add m)
  · exact ofBigEndian_bigBytes m

theorem highBit_signed (m : ℕ) : highBit (signed m) = false := by
  unfold signed
  split_ifs with h
  · rfl
  · have hm : m ≠ 0 := by
      rintro rfl
      exact h rfl
    rw [highBit_bigBytes hm, decide_eq_false h]

theorem toNat_xor_ff (b : UInt8) : (b ^^^ 0xff).toNat = 255 - b.toNat := by
  have hbyte : ∀ n < 256, (UInt8.ofNat n ^^^ 0xff).toNat = 255 - n := by decide +kernel
  have h := hbyte b.toNat b.toNat_lt
  rwa [UInt8.ofNat_toNat] at h

theorem not_eq_xor_ff (b : UInt8) : ~~~ b = b ^^^ 0xff := by
  have hbyte : ∀ n < 256, ~~~ UInt8.ofNat n = UInt8.ofNat n ^^^ 0xff := by decide +kernel
  have h := hbyte b.toNat b.toNat_lt
  rwa [UInt8.ofNat_toNat] at h

/-- The complement changes the sign of what has one. -/
theorem highBit_map_xor {bs : Bytes} (h : bs ≠ []) :
    highBit (bs.map (· ^^^ 0xff)) = !highBit bs := by
  rcases bs with - | ⟨b, bs⟩
  · exact absurd rfl h
  · have hb := b.toNat_lt
    rw [List.map_cons, highBit_cons, highBit_cons, toNat_xor_ff, ← decide_not, decide_eq_decide]
    omega

theorem map_xor_map_not (bs : Bytes) : (bs.map (· ^^^ 0xff)).map (~~~ ·) = bs := by
  rw [List.map_map]
  refine List.map_id'' (fun b ↦ ?_) bs
  rw [Function.comp_apply, not_eq_xor_ff, UInt8.xor_assoc, UInt8.xor_self, UInt8.xor_zero]

theorem twosComplement_of_pos {n : ℤ} (h : 0 < n) : twosComplement n = signed n.toNat := by
  have hn : n.toNat ≠ 0 := by omega
  rw [twosComplement, if_neg (by omega), if_neg (by omega), signed]
  simp only [highBit_bigBytes hn, decide_eq_true_eq]

theorem twosComplement_of_neg {n : ℤ} (h : n < 0) :
    twosComplement n = (signed (-n - 1).toNat).map (· ^^^ 0xff) := by
  rw [twosComplement, if_pos h, signed]
  generalize (-n - 1).toNat = m
  rcases eq_or_ne m 0 with rfl | hm
  · rfl
  · have hne : bigBytes m ≠ [] := by
      intro hnil
      have hzero := ofBigEndian_bigBytes m
      rw [hnil] at hzero
      exact hm hzero.symm
    simp only [highBit_map_xor hne, highBit_bigBytes hm]
    by_cases h8 : bitLen m % 8 = 0 <;> simp [h8]

theorem ofTwosComplement_twosComplement (n : ℤ) : ofTwosComplement (twosComplement n) = n := by
  rcases lt_trichotomy n 0 with h | rfl | h
  · rw [twosComplement_of_neg h, ofTwosComplement, highBit_map_xor (signed_ne_nil _),
      highBit_signed, map_xor_map_not, ofBigEndian_signed]
    simp only [Bool.not_false, if_true]
    omega
  · rfl
  · rw [twosComplement_of_pos h, ofTwosComplement, highBit_signed, ofBigEndian_signed]
    simp only [Bool.false_eq_true, if_false]
    omega

/-- **The buffer for a number is exactly filled.** -/
theorem length_marshalInt (n : ℤ) : (marshalInt n).length = intLength n := by
  rw [marshalInt, List.length_append, length_putUint32, intLength]
  rcases lt_trichotomy n 0 with h | rfl | h
  · rw [if_pos h, twosComplement_of_neg h, List.length_map, length_signed]
    dsimp only
    split_ifs <;> omega
  · rfl
  · rw [if_neg (by omega), if_neg (by omega), twosComplement_of_pos h, length_signed]
    dsimp only
    split_ifs <;> omega

/-- **No bytes that are read as a number are fewer than those that are written.** -/
theorem length_twosComplement_le (bs : Bytes) :
    (twosComplement (ofTwosComplement bs)).length ≤ bs.length := by
  rcases eq_or_ne bs [] with rfl | hne
  · exact Nat.le_refl 0
  have hpos := List.length_pos_of_ne_nil hne
  have hfits {m : ℕ} (h : m < 2 ^ (8 * bs.length - 1)) : (signed m).length ≤ bs.length := by
    have hbits := bitLen_le_iff.2 h
    rw [length_signed]
    omega
  rcases hhigh : highBit bs with - | -
  · have hlt := ofBigEndian_lt_of_highBit hhigh hne
    rw [ofTwosComplement, hhigh, if_neg Bool.false_ne_true]
    rcases Nat.eq_zero_or_pos (ofBigEndian bs) with h0 | h0
    · rw [h0]
      exact Nat.zero_le _
    · rw [twosComplement_of_pos (by omega)]
      exact hfits hlt
  · have hflip : (bs.map (~~~ ·)) = bs.map (· ^^^ 0xff) :=
      List.map_congr_left fun b _ ↦ not_eq_xor_ff b
    have hhigh' : highBit (bs.map (· ^^^ 0xff)) = false := by
      rw [highBit_map_xor hne, hhigh]
      rfl
    have hlt := ofBigEndian_lt_of_highBit hhigh' (by simpa using hne)
    rw [List.length_map] at hlt
    rw [ofTwosComplement, hhigh, if_pos rfl, hflip, twosComplement_of_neg (by omega),
      List.length_map]
    have hm : (-(-((ofBigEndian (bs.map (· ^^^ 0xff)) : ℤ) + 1)) - 1).toNat =
        ofBigEndian (bs.map (· ^^^ 0xff)) := by omega
    rw [hm]
    exact hfits hlt

end Ssh
