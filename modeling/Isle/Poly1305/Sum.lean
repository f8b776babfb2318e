import Isle.Poly1305.Generic
import Mathlib.Algebra.BigOperators.Intervals

/-!
# The tags of Poly1305

What the arithmetic of `Poly1305.Generic` is for. A message is cut into chunks of sixteen bytes,
each of which is a number (`chunkValue`), and the numbers are the coefficients of a polynomial that
is evaluated at one half of the key; the other half is added (`poly1305`). This is the formula in
the comment at the head of `sum_generic.go`, over `ℕ`.

`updateGeneric_spec` is the loop: one induction over the chunks, with `round_spec` for each. A
message may be written in pieces of any lengths, of which `macGeneric` keeps what does not fill a
chunk yet (`Absorbed`); `sum_writes` says that the pieces do not matter, that the tag is that of the
formula and that no call of `panic` is reached.
-/

namespace Poly1305

open Bits

/-! ### The formula -/

/-- The number of chunks of a message. -/
def chunkCount (msg : Bytes) : ℕ := (msg.length + 15) / 16

/-- A block of a message, of which the last may be shorter. -/
def chunk (msg : Bytes) (i : ℕ) : Bytes := (msg.drop (16 * i)).take 16

/-- The polynomial of a message, at a point. -/
def messagePoly (r : ℕ) (msg : Bytes) : ℕ :=
  ∑ i ∈ Finset.range (chunkCount msg), chunkValue (chunk msg i) * r ^ (chunkCount msg - i)

/-- The bits of the key that are used of the point. -/
def clamp (n : ℕ) : ℕ := n &&& 0x0ffffffc0ffffffc0ffffffc0fffffff

/-- The tag of a message, as a number. -/
def poly1305 (key msg : Bytes) : ℕ :=
  (messagePoly (clamp (littleEndian (key.take 16))) msg % prime +
    littleEndian ((key.drop 16).take 16)) % 2 ^ 128

variable {msg : Bytes} {h : MAC}

theorem chunkCount_drop (h : msg.length ≠ 0) : chunkCount msg = chunkCount (msg.drop 16) + 1 := by
  rw [chunkCount, chunkCount, List.length_drop]
  omega

theorem messagePoly_nil (r : ℕ) : messagePoly r [] = 0 := rfl

/-- The polynomial, one chunk after the other. -/
theorem messagePoly_eq (h : msg.length ≠ 0) (r : ℕ) :
    messagePoly r msg =
      chunkValue (msg.take 16) * r ^ chunkCount msg + messagePoly r (msg.drop 16) := by
  rw [messagePoly, chunkCount_drop h, Finset.sum_range_succ', messagePoly, Nat.sub_zero, add_comm]
  congr 1
  refine Finset.sum_congr rfl fun i _ ↦ ?_
  rw [Nat.add_sub_add_right, chunk, chunk, List.drop_drop, Nat.mul_succ, Nat.add_comm 16]

/-- Two words of a number are masked by themselves. -/
theorem and_add_mul_two_pow {a m : ℕ} (b n : ℕ) (ha : a < 2 ^ 64) (hm : m < 2 ^ 64) :
    (a + 2 ^ 64 * b) &&& (m + 2 ^ 64 * n) = (a &&& m) + 2 ^ 64 * (b &&& n) := by
  have hmod : ((a + 2 ^ 64 * b) &&& (m + 2 ^ 64 * n)) % 2 ^ 64 = a &&& m := by
    rw [Nat.and_mod_two_pow, Nat.add_mul_mod_self_left, Nat.add_mul_mod_self_left,
      Nat.mod_eq_of_lt ha, Nat.mod_eq_of_lt hm]
  have hdiv : ((a + 2 ^ 64 * b) &&& (m + 2 ^ 64 * n)) / 2 ^ 64 = b &&& n := by
    rw [Nat.and_div_two_pow, Nat.add_mul_div_left _ _ (Nat.two_pow_pos 64),
      Nat.add_mul_div_left _ _ (Nat.two_pow_pos 64), Nat.div_eq_of_lt ha, Nat.div_eq_of_lt hm,
      Nat.zero_add, Nat.zero_add]
  omega

theorem r_initializeState (key : Bytes) :
    (initializeState key).r = clamp (littleEndian (key.take 16)) := by
  have hmask : (0x0ffffffc0ffffffc0ffffffc0fffffff : ℕ) =
      rMask0.toNat + 2 ^ 64 * rMask1.toNat := rfl
  rw [clamp, ← toNat_uint64_pair key, hmask,
    and_add_mul_two_pow _ _ (UInt64.toNat_lt _) (UInt64.toNat_lt _), ← UInt64.toNat_and,
    ← UInt64.toNat_and]
  rfl

theorem s_initializeState (key : Bytes) :
    (initializeState key).s = littleEndian ((key.drop 16).take 16) := by
  rw [← toNat_uint64_pair (key.drop 16), List.drop_drop]
  rfl

/-! ### The loop -/

theorem updateGeneric_nil (st : MacState) : updateGeneric st [] = .ok st := by
  rw [updateGeneric]
  rfl

theorem updateGeneric_eq (st : MacState) (h : msg.length ≠ 0) :
    updateGeneric st msg = (round st msg).bind (updateGeneric · (msg.drop tagSize)) := by
  rw [updateGeneric, if_neg h]
  rfl

/-- **The loop.** The chunks of the message are absorbed, and no call of `panic` is reached. -/
theorem updateGeneric_spec {st : MacState} (hst : st.Reduced) (msg : Bytes) :
    ∃ st', updateGeneric st msg = .ok st' ∧ st'.Reduced ∧ SameKey st st' ∧
      st'.h ≡ st.h * st.r ^ chunkCount msg + messagePoly st.r msg [MOD prime] := by
  induction hn : msg.length using Nat.strongRecOn generalizing st msg with
  | ind n ih =>
    rcases eq_or_ne msg.length 0 with h0 | h0
    · obtain rfl := List.length_eq_zero_iff.1 h0
      refine ⟨st, updateGeneric_nil st, hst, ⟨rfl, rfl, rfl, rfl⟩, ?_⟩
      simp [messagePoly_nil, chunkCount, Nat.ModEq.refl]
    · obtain ⟨st₁, hround, hred, hkey, hval⟩ := round_spec hst msg
      have hlt : (msg.drop tagSize).length < n := by
        rw [List.length_drop, tagSize]
        omega
      obtain ⟨st₂, hrest, hred', hkey', hval'⟩ := ih _ hlt hred (msg.drop tagSize) rfl
      refine ⟨st₂, by rw [updateGeneric_eq st h0, hround]; exact hrest, hred', hkey.trans hkey',
        hval'.trans ?_⟩
      rw [hkey.r_eq, messagePoly_eq h0, chunkCount_drop h0, pow_succ]
      have hmul := (hval.mul_right (st.r ^ chunkCount (msg.drop tagSize))).add_right
        (messagePoly st.r (msg.drop tagSize))
      refine hmul.trans (congrArg (· % prime) ?_)
      simp only [tagSize]
      ring

/-! ### Messages in pieces -/

/-- A MAC in the making: the bytes of an incomplete block are kept. -/
structure MacGeneric where
  state : MacState
  buffer : Bytes
  offset : ℕ
  deriving DecidableEq, Repr

/-- A MAC of nothing. -/
def newMACGeneric (key : Bytes) : MacGeneric :=
  ⟨initializeState key, List.replicate tagSize 0, 0⟩

namespace MacGeneric

/-- `copy(h.buffer[h.offset:], p)`: the buffer after it. -/
def copyIn (h : MacGeneric) (p : Bytes) : Bytes :=
  let n := min (tagSize - h.offset) p.length
  h.buffer.take h.offset ++ p.take n ++ h.buffer.drop (h.offset + n)

/-- `updateGeneric(&h.macState, p)`, unless there is nothing to absorb. -/
def absorb (h : MacGeneric) (p : Bytes) : Except String MacGeneric :=
  if 0 < p.length then (updateGeneric h.state p).map fun st ↦ { h with state := st } else .ok h

/-- `h.offset += copy(h.buffer[h.offset:], p)`, unless there is nothing to keep. -/
def keep (h : MacGeneric) (p : Bytes) : MacGeneric :=
  if 0 < p.length then
    { h with buffer := h.copyIn p, offset := h.offset + min (tagSize - h.offset) p.length }
  else h

/-- `Write`, from where the buffer is empty. -/
def writeChunks (h : MacGeneric) (p : Bytes) : Except String MacGeneric :=
  let n := p.length - p.length % tagSize
  (h.absorb (p.take n)).map (·.keep (p.drop n))

/-- Bytes are added: the buffer is filled up first, and what is no whole block is kept. -/
def write (h : MacGeneric) (p : Bytes) : Except String MacGeneric :=
  if 0 < h.offset then
    let n := min (tagSize - h.offset) p.length
    let buffer := h.copyIn p
    if h.offset + n < tagSize then .ok { h with buffer := buffer, offset := h.offset + n }
    else do writeChunks ⟨← updateGeneric h.state buffer, buffer, 0⟩ (p.drop n)
  else writeChunks h p

/-- The tag of what was written so far. -/
def sum (h : MacGeneric) : Except String Bytes :=
  (h.absorb (h.buffer.take h.offset)).map (finalize ·.state)

end MacGeneric

/-- `MAC`, of `poly1305.go`: `Write` after `Sum` panics. -/
structure MAC where
  mac : MacGeneric
  finalized : Bool
  deriving DecidableEq, Repr

/-- A MAC of nothing, which can be written to. -/
def new (key : Bytes) : MAC := ⟨newMACGeneric key, false⟩

namespace MAC

/-- Bytes are added, unless the tag was asked for. -/
def write (h : MAC) (p : Bytes) : Except String MAC :=
  if h.finalized then .error "poly1305: write to MAC after Sum or Verify"
  else do return { h with mac := ← h.mac.write p }

/-- The tag, behind which nothing can be written. -/
def sum (h : MAC) : Except String (Bytes × MAC) := do
  return (← h.mac.sum, { h with finalized := true })

end MAC

/-! ### The pieces do not matter -/

/-- What comes behind sixteen bytes is not part of the chunk. -/
theorem round_append (st : MacState) {xs : Bytes} (h : tagSize ≤ xs.length)
    (ys : Bytes) : round st (xs ++ ys) = round st xs := by
  have hchunk : addChunk st (xs ++ ys) = addChunk st xs := by
    have h8 : 8 ≤ xs.length := Nat.le_trans (by decide) h
    have hlow : uint64 (xs ++ ys) = uint64 xs := by
      rw [uint64, List.take_append_of_le_length h8, uint64]
    have hhigh : uint64 ((xs ++ ys).drop 8) = uint64 (xs.drop 8) := by
      have h8' : 8 ≤ (xs.drop 8).length := by
        rw [List.length_drop]
        exact Nat.le_sub_of_add_le h
      rw [uint64, List.drop_append_of_le_length h8, List.take_append_of_le_length h8',
        uint64]
    rw [addChunk, if_pos (by rw [List.length_append]; omega), hlow, hhigh, addChunk, if_pos h]
  rw [round, hchunk, round]

/-- The loop goes on behind whole chunks. -/
theorem updateGeneric_append (st : MacState) {xs : Bytes} (h : tagSize ∣ xs.length) (ys : Bytes) :
    updateGeneric st (xs ++ ys) = (updateGeneric st xs).bind (updateGeneric · ys) := by
  obtain ⟨k, hk⟩ := h
  induction k generalizing st xs with
  | zero =>
    obtain rfl := List.length_eq_zero_iff.1 hk
    rw [updateGeneric_nil]
    rfl
  | succ k ih =>
    have hle : tagSize ≤ xs.length := by rw [hk, Nat.mul_succ]; omega
    have hpos : xs.length ≠ 0 := by rw [tagSize] at hle; omega
    have hlen : (xs.drop tagSize).length = tagSize * k := by
      rw [List.length_drop, hk, Nat.mul_succ, Nat.add_sub_cancel]
    rw [updateGeneric_eq st (by rw [List.length_append]; omega), round_append st hle,
      updateGeneric_eq st hpos, List.drop_append_of_le_length hle]
    rcases round st xs with e | st'
    · rfl
    · exact ih st' hlen

theorem exists_updateGeneric (key msg : Bytes) :
    ∃ st, updateGeneric (initializeState key) msg = .ok st := by
  obtain ⟨st, hst, -⟩ := updateGeneric_spec (reduced_initializeState key) msg
  exact ⟨st, hst⟩

namespace MacGeneric

/-- The message written so far: whole chunks, which the state has absorbed, and what the buffer
holds. -/
def Absorbed (key : Bytes) (h : MacGeneric) (msg : Bytes) : Prop :=
  ∃ chunks, msg = chunks ++ h.buffer.take h.offset ∧ tagSize ∣ chunks.length ∧
    updateGeneric (initializeState key) chunks = .ok h.state ∧ h.offset < tagSize ∧
    h.buffer.length = tagSize

variable {key msg : Bytes} {h : MacGeneric}

theorem absorbed_new (key : Bytes) : Absorbed key (newMACGeneric key) [] :=
  ⟨[], rfl, Nat.dvd_zero _, updateGeneric_nil _, Nat.zero_lt_succ 15, rfl⟩

theorem take_copyIn (hle : h.offset ≤ tagSize) (hbuf : h.buffer.length = tagSize) (p : Bytes) :
    (h.copyIn p).take (h.offset + min (tagSize - h.offset) p.length) =
      h.buffer.take h.offset ++ p.take (min (tagSize - h.offset) p.length) := by
  refine List.take_left' ?_
  rw [List.length_append, List.length_take_of_le (hbuf ▸ hle),
    List.length_take_of_le (Nat.min_le_right _ _)]

theorem length_copyIn (hle : h.offset ≤ tagSize) (hbuf : h.buffer.length = tagSize)
    (p : Bytes) : (h.copyIn p).length = tagSize := by
  have hmin : min (tagSize - h.offset) p.length ≤ tagSize - h.offset := Nat.min_le_left _ _
  simp only [copyIn, List.length_append, List.length_take_of_le (hbuf ▸ hle : _ ≤ h.buffer.length),
    List.length_take_of_le (Nat.min_le_right (tagSize - h.offset) p.length), List.length_drop, hbuf]
  omega

/-- What the state has absorbed goes on from there. -/
theorem updateGeneric_state {chunks : Bytes} (hdvd : tagSize ∣ chunks.length)
    (hst : updateGeneric (initializeState key) chunks = .ok h.state) (p : Bytes) :
    updateGeneric h.state p = updateGeneric (initializeState key) (chunks ++ p) := by
  rw [updateGeneric_append _ hdvd, hst]
  rfl

theorem absorb_eq (h : MacGeneric) (p : Bytes) :
    h.absorb p = (updateGeneric h.state p).map fun st ↦ { h with state := st } := by
  unfold absorb
  split_ifs with hpos
  · rfl
  · obtain rfl := List.length_eq_zero_iff.1 (Nat.eq_zero_of_not_pos hpos)
    rw [updateGeneric_nil]
    rfl

variable {p : Bytes}

/-- Less than a chunk is kept for later. -/
theorem absorbed_copyIn (habs : Absorbed key h msg) (hlt : h.offset + p.length < tagSize) :
    Absorbed key
      { h with buffer := h.copyIn p, offset := h.offset + min (tagSize - h.offset) p.length }
      (msg ++ p) := by
  obtain ⟨chunks, rfl, hdvd, hst, hoff, hbuf⟩ := habs
  have hmin : min (tagSize - h.offset) p.length = p.length := Nat.min_eq_right (by omega)
  refine ⟨chunks, ?_, hdvd, hst, ?_, length_copyIn hoff.le hbuf p⟩
  · rw [take_copyIn hoff.le hbuf, hmin, List.take_length, List.append_assoc]
  · rw [hmin]
    exact hlt

theorem absorbed_keep (habs : Absorbed key h msg) (hlt : h.offset + p.length < tagSize) :
    Absorbed key (h.keep p) (msg ++ p) := by
  unfold keep
  split_ifs with hpos
  · exact absorbed_copyIn habs hlt
  · rw [List.length_eq_zero_iff.1 (Nat.eq_zero_of_not_pos hpos), List.append_nil]
    exact habs

/-- Whole chunks are absorbed. -/
theorem absorb_spec (habs : Absorbed key h msg) (h0 : h.offset = 0) (hp : tagSize ∣ p.length) :
    ∃ h', h.absorb p = .ok h' ∧ h'.offset = 0 ∧
      Absorbed key h' (msg ++ p) := by
  obtain ⟨chunks, rfl, hdvd, hst, hoff, hbuf⟩ := habs
  obtain ⟨st, hst'⟩ := exists_updateGeneric key (chunks ++ p)
  refine ⟨{ h with state := st }, ?_, h0, chunks ++ p, ?_, ?_, hst', hoff, hbuf⟩
  · rw [absorb_eq, updateGeneric_state hdvd hst, hst']
    rfl
  · rw [h0, List.take_zero, List.append_nil, List.append_nil]
  · rw [List.length_append]
    exact Nat.dvd_add hdvd hp

theorem writeChunks_spec (habs : Absorbed key h msg) (h0 : h.offset = 0) (p : Bytes) :
    ∃ h', h.writeChunks p = .ok h' ∧ Absorbed key h' (msg ++ p) := by
  set n := p.length - p.length % tagSize with hn
  have hdvd : tagSize ∣ (p.take n).length := by
    rw [List.length_take_of_le (Nat.sub_le _ _)]
    exact Nat.dvd_sub_mod p.length
  have hrest : (p.drop n).length < tagSize := by
    rw [List.length_drop, hn, Nat.sub_sub_self (Nat.mod_le _ _)]
    exact Nat.mod_lt _ (by decide)
  obtain ⟨h₁, habsorb, hoff, habs₁⟩ := absorb_spec habs h0 hdvd
  have hkeep := absorbed_keep habs₁ (p := p.drop n) (by rwa [hoff, Nat.zero_add])
  rw [List.append_assoc, List.take_append_drop] at hkeep
  exact ⟨h₁.keep (p.drop n), by rw [writeChunks, ← hn, habsorb]; rfl, hkeep⟩

/-- **A piece of the message**, whatever its length, joins what was written. -/
theorem write_spec (habs : Absorbed key h msg) (p : Bytes) :
    ∃ h', h.write p = .ok h' ∧ Absorbed key h' (msg ++ p) := by
  unfold write
  dsimp only
  split_ifs with hpos hlt
  · -- the piece does not fill the buffer
    exact ⟨_, rfl, absorbed_copyIn habs (by omega)⟩
  · -- it fills the buffer, which is a chunk of its own
    obtain ⟨chunks, rfl, hdvd, hst, hoff, hbuf⟩ := habs
    set n := min (tagSize - h.offset) p.length with hn
    have hfull : h.copyIn p = h.buffer.take h.offset ++ p.take n := by
      rw [← take_copyIn hoff.le hbuf, List.take_of_length_le]
      rw [length_copyIn hoff.le hbuf]
      omega
    have hlen := length_copyIn hoff.le hbuf p
    obtain ⟨st, hst'⟩ := exists_updateGeneric key (chunks ++ h.copyIn p)
    have habs' : Absorbed key ⟨st, h.copyIn p, 0⟩ (chunks ++ h.copyIn p) := by
      refine ⟨chunks ++ h.copyIn p, (List.append_nil _).symm, ?_, hst', Nat.zero_lt_succ 15, hlen⟩
      rw [List.length_append, hlen]
      exact Nat.dvd_add hdvd (dvd_refl _)
    obtain ⟨h', hwrite, habs''⟩ := writeChunks_spec habs' rfl (p.drop n)
    refine ⟨h', ?_, ?_⟩
    · rw [updateGeneric_state hdvd hst, hst']
      exact hwrite
    · rwa [hfull, List.append_assoc, List.append_assoc, List.take_append_drop,
        ← List.append_assoc] at habs''
  · exact writeChunks_spec habs (Nat.eq_zero_of_not_pos hpos) p

theorem sum_spec (habs : Absorbed key h msg) :
    ∃ tag, h.sum = .ok tag ∧ tag.length = tagSize ∧ littleEndian tag = poly1305 key msg := by
  obtain ⟨chunks, rfl, hdvd, hst, -, -⟩ := habs
  obtain ⟨st, hst', hred, hkey, hval⟩ := updateGeneric_spec (reduced_initializeState key)
    (chunks ++ h.buffer.take h.offset)
  obtain ⟨hlen, htag⟩ := finalize_spec hred.h2
  refine ⟨finalize st, ?_, hlen, ?_⟩
  · rw [sum, absorb_eq, updateGeneric_state hdvd hst, hst']
    rfl
  · rw [htag, hkey.s_eq, s_initializeState, poly1305, ← r_initializeState]
    rw [h_initializeState, Nat.zero_mul, Nat.zero_add] at hval
    rw [show st.h % prime = _ from hval]

end MacGeneric

/-- `Sum` -/
def sum (m key : Bytes) : Except String Bytes := do
  let h ← (new key).write m
  return (← h.sum).1

/-- `Verify` -/
def verify (mac m key : Bytes) : Except String Bool := do
  return decide ((← sum m key) = mac)

theorem MAC.write_eq {p : Bytes} {mac : MacGeneric} (hfin : h.finalized = false)
    (hmac : h.mac.write p = .ok mac) : h.write p = .ok { h with mac := mac } := by
  rw [MAC.write, if_neg (by simp [hfin]), hmac]
  rfl

theorem MAC.sum_eq {tag : Bytes} (htag : h.mac.sum = .ok tag) :
    h.sum = .ok (tag, { h with finalized := true }) := by
  rw [MAC.sum, htag]
  rfl

theorem MAC.foldlM_write_spec {key : Bytes} (hfin : h.finalized = false)
    (habs : h.mac.Absorbed key msg) (ps : List Bytes) :
    ∃ h', ps.foldlM MAC.write h = .ok h' ∧ h'.mac.Absorbed key (msg ++ ps.flatten) := by
  induction ps generalizing h msg with
  | nil => exact ⟨h, rfl, by simpa using habs⟩
  | cons p ps ih =>
    obtain ⟨mac, hmac, habs'⟩ := MacGeneric.write_spec habs p
    have hwrite := MAC.write_eq hfin hmac
    obtain ⟨h', hrest, habs''⟩ := ih (h := { h with mac := mac }) hfin habs'
    refine ⟨h', by rw [List.foldlM_cons, hwrite]; exact hrest, ?_⟩
    rwa [List.flatten_cons, ← List.append_assoc]

theorem exists_sum (key m : Bytes) :
    ∃ tag, sum m key = .ok tag ∧ tag.length = tagSize ∧ littleEndian tag = poly1305 key m := by
  obtain ⟨mac, hmac, habs⟩ := MacGeneric.write_spec (MacGeneric.absorbed_new key) m
  obtain ⟨tag, htag, hlen, hval⟩ := MacGeneric.sum_spec habs
  refine ⟨tag, ?_, hlen, hval⟩
  rw [sum, MAC.write_eq (h := new key) rfl hmac]
  show (do return (← MAC.sum ⟨mac, false⟩).1) = _
  rw [MAC.sum_eq (h := ⟨mac, false⟩) htag]
  rfl

/-- `Verify` accepts the tag of the message and nothing else. -/
theorem verify_eq (mac m key : Bytes) :
    verify mac m key =
      .ok (decide (mac.length = tagSize ∧ littleEndian mac = poly1305 key m)) := by
  obtain ⟨tag, htag, hlen, hval⟩ := exists_sum key m
  have hiff : tag = mac ↔ mac.length = tagSize ∧ littleEndian mac = poly1305 key m := by
    constructor
    · rintro rfl
      exact ⟨hlen, hval⟩
    · rintro ⟨hlen', hval'⟩
      exact littleEndian_inj (hlen.trans hlen'.symm) (hval.trans hval'.symm)
  rw [verify, htag]
  show Except.ok (decide (tag = mac)) = _
  rw [decide_eq_decide.2 hiff]

/-- **The tag of a message.** However a message is cut into pieces, writing them and taking the sum
gives sixteen bytes, which are the value of the message polynomial at the clamped point modulo
`2^130 - 5`, with the other half of the key added; no call of `panic` is reached on the way. -/
theorem sum_writes (key : List UInt8) (ps : List (List UInt8)) :
    ∃ tag h, (ps.foldlM MAC.write (new key) >>= MAC.sum) = .ok (tag, h) ∧ tag.length = tagSize ∧
      littleEndian tag = poly1305 key ps.flatten := by
  obtain ⟨h, hwrites, habs⟩ :=
    MAC.foldlM_write_spec (h := new key) rfl (MacGeneric.absorbed_new key) ps
  obtain ⟨tag, htag, hlen, hval⟩ := MacGeneric.sum_spec habs
  refine ⟨tag, { h with finalized := true }, ?_, hlen, hval⟩
  rw [hwrites]
  exact MAC.sum_eq htag

end Poly1305
