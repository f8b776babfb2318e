import Isle.Ssh.Cipher
import Mathlib.Tactic.NormNum

/-!
# Packets survive their ciphers

For each cipher of `Ssh.Cipher`: what one end writes for a packet, the other end reads as that
packet, if the two are at the same place of their streams, vectors or chains (`PacketCipher.Sync`),
and then they are at the same place again. The reader looks at nothing behind the packet.

There is a limit to it. The writers either check no length or that of the packet alone, while the
readers check the length with the padding, and reject a packet without bytes. `Readable` is the
exact condition (`read_write_iff`): the last few lengths that a writer accepts are refused by every
reader.
-/

namespace Ssh

open Crypto (Stream Hash Aead Block cbcEncrypt cbcDecrypt)

/-! ### Lengths and numbers -/

variable {n : ℕ} {bs : Bytes}

theorem readFrom_append {xs : Bytes} (h : xs.length = n) (rest : Bytes) :
    readFrom n (xs ++ rest) = .ok (xs, rest) := by
  rw [readFrom, readFull_append h]
  rfl

theorem readFrom_eq_ok {xs rest : Bytes} (h : readFrom n bs = .ok (xs, rest)) :
    xs.length = n ∧ bs = xs ++ rest := by
  unfold readFrom at h
  rcases hr : readFull n bs with e | r
  · rw [hr] at h
    cases h
  · rw [hr] at h
    cases h
    exact readFull_eq_ok hr

/-- A read that goes on well has taken the bytes that come first. -/
theorem bind_readFrom_eq_ok {α : Type} {f : Bytes × Bytes → Except Failure α} {a : α}
    (h : (readFrom n bs >>= f) = .ok a) :
    ∃ xs rest, xs.length = n ∧ bs = xs ++ rest ∧ f (xs, rest) = .ok a := by
  rcases hr : readFrom n bs with e | ⟨xs, rest⟩
  · rw [hr] at h
    cases h
  · rw [hr] at h
    obtain ⟨hlen, hbs⟩ := readFrom_eq_ok hr
    exact ⟨xs, rest, hlen, hbs, h⟩

@[simp] theorem length_putUint32 (n : ℕ) : (putUint32 n).length = 4 :=
  Forward.length_toBigEndian 4 n

theorem getUint32_putUint32_append (h : n < 2 ^ 32) (rest : Bytes) :
    getUint32 (putUint32 n ++ rest) = n := by
  rw [getUint32, List.take_left' (length_putUint32 n)]
  exact Forward.ofBigEndian_toBigEndian h

theorem getUint32_putUint32 (h : n < 2 ^ 32) : getUint32 (putUint32 n) = n := by
  simpa using getUint32_putUint32_append h []

theorem getUint32_take (h : 4 ≤ n) : getUint32 (bs.take n) = getUint32 bs := by
  rw [getUint32, List.take_take, Nat.min_eq_left h, getUint32]

theorem getD_putUint32_append (n : ℕ) (b : UInt8) (rest : Bytes) :
    (putUint32 n ++ b :: rest).getD 4 0 = b := by
  rw [List.getD_eq_getElem?_getD,
    List.getElem?_append_right (Nat.le_of_eq (length_putUint32 n)), length_putUint32]
  rfl

/-- The tag is as long as the reader expects. -/
theorem length_macSum (mac : Option Hash) (seqNum : UInt32) (written : Bytes) :
    (macSum mac seqNum written).length = macSize mac := by
  rcases mac with - | mac
  · rfl
  · exact mac.length_sum _

/-- The protocol wants at least four bytes of padding. -/
theorem le_padTo {multiple : ℕ} (h : 4 ≤ multiple) (n : ℕ) : 4 ≤ padTo multiple n := by
  unfold padTo
  dsimp only
  split_ifs <;> omega

theorem padTo_lt {multiple : ℕ} (h : 0 < multiple) (n : ℕ) : padTo multiple n < multiple + 4 := by
  have hmod := Nat.mod_lt n h
  unfold padTo
  dsimp only
  split_ifs <;> omega

theorem toNat_ofNat_of_lt (h : n < 256) : (UInt8.ofNat n).toNat = n :=
  UInt8.toNat_ofNat_of_lt' h

theorem not_ofNat_lt_four (h : 4 ≤ n) (h' : n < 256) : ¬ UInt8.ofNat n < 4 := by
  rw [UInt8.lt_iff_toNat_lt, toNat_ofNat_of_lt h']
  exact Nat.not_lt.2 h

/-! ### Stream ciphers -/

namespace StreamPacketCipher

/-- The padding always fits the byte that counts it. -/
theorem paddingLength_bounds (s : StreamPacketCipher) (n : ℕ) :
    4 ≤ s.paddingLength n ∧ s.paddingLength n < 20 :=
  ⟨le_padTo (by decide) _, padTo_lt (by decide) _⟩

/-- The reader, on what has the form of a packet. -/
theorem read_eq {s : StreamPacketCipher} {seqNum : UInt32} {start header data mac plain : Bytes}
    {cipher cipher' : Stream} (hstart : start.length = prefixLen)
    (hopen : s.openHeader start = (header, cipher)) (hlen : getUint32 header = data.length + 1)
    (hpad : (header.getD 4 0).toNat < data.length) (hmax : data.length + 1 ≤ maxPacket)
    (hmac : mac.length = macSize s.mac) (hcrypt : cipher.crypt data = (plain, cipher'))
    (htag : macSum s.mac seqNum (if s.isEtm then start ++ data else header ++ plain) = mac)
    (rest : Bytes) :
    s.readCipherPacket seqNum (start ++ (data ++ mac ++ rest)) =
      .ok (plain.take (data.length - (header.getD 4 0).toNat), { s with cipher := cipher' },
        rest) := by
  have hbody : (data ++ mac).length = data.length + macSize s.mac := by
    rw [List.length_append, hmac]
  have hsmall : ¬ data.length + 1 ≤ (header.getD 4 0).toNat + 1 := by omega
  have hplain : data.length + 1 - (header.getD 4 0).toNat - 1 =
      data.length - (header.getD 4 0).toNat := by omega
  simp only [readCipherPacket, readFrom_append hstart, hopen, hlen, bind, Except.bind,
    if_neg hsmall, if_neg (Nat.not_lt.2 hmax), Nat.add_sub_cancel, readFrom_append hbody,
    List.take_left, List.drop_left, hcrypt, htag, ne_eq, not_true_eq_false, if_false, hplain]
  rfl

/-- What is sent for a packet, as the reader sees it: five bytes that open to the header, and bytes
that the stream behind them opens to the packet and its padding. -/
theorem frame_eq (s : StreamPacketCipher) (seqNum : UInt32) (packet padding : Bytes) :
    ∃ start header data cipher cipher',
      s.frame seqNum packet padding =
        (start ++ (data ++ macSum s.mac seqNum
          (if s.isEtm then start ++ data else header ++ (packet ++ padding))),
          { s with cipher := cipher' }) ∧
      start.length = prefixLen ∧ s.openHeader start = (header, cipher) ∧
      header = putUint32 (packet.length + 1 + padding.length) ++ [UInt8.ofNat padding.length] ∧
      data.length = packet.length + padding.length ∧
      cipher.crypt data = (packet ++ padding, cipher') := by
  set header := putUint32 (packet.length + 1 + padding.length) ++ [UInt8.ofNat padding.length]
    with hheader
  have hlen : header.length = prefixLen := by
    rw [hheader, List.length_append, length_putUint32]
    rfl
  have hdata (c : Stream) : c.crypt ((c.crypt packet).1 ++ ((c.crypt packet).2.crypt padding).1) =
      (packet ++ padding, ((c.crypt packet).2.crypt padding).2) := by
    simpa only [c.crypt_append packet padding] using c.crypt_crypt (packet ++ padding)
  by_cases hetm : s.isEtm = true
  · -- only the last byte of the header is encrypted
    have hsplit : (header.take 4 ++ (s.cipher.crypt (header.drop 4)).1).length = prefixLen := by
      rw [List.length_append, Stream.length_crypt, ← List.length_append, List.take_append_drop,
        hlen]
    refine ⟨header.take 4 ++ (s.cipher.crypt (header.drop 4)).1, header, _,
      (s.cipher.crypt (header.drop 4)).2, _, ?_, hsplit, ?_, rfl, ?_, hdata _⟩
    · simp only [frame, ← hheader, hetm, if_true, List.append_assoc]
    · have h4 : (header.take 4).length = 4 := List.length_take_of_le (by rw [hlen]; decide)
      simp only [openHeader, hetm, if_true, List.take_left' h4, List.drop_left' h4,
        Stream.crypt_crypt, List.take_append_drop]
    · simp
  · refine ⟨(s.cipher.crypt header).1, header, _, (s.cipher.crypt header).2, _, ?_,
      by rw [Stream.length_crypt, hlen], ?_, rfl, ?_, hdata _⟩
    · simp only [frame, ← hheader, hetm, List.append_assoc]
      rfl
    · rw [openHeader, if_neg hetm, Stream.crypt_crypt]
    · simp

variable {packet : Bytes}

/-- **A packet survives a stream cipher**, with any hash and in either order of encryption and
authentication. -/
theorem read_frame (s : StreamPacketCipher) (seqNum : UInt32) {padding : Bytes}
    (hpad : padding.length < 256) (hpos : 0 < packet.length)
    (hmax : packet.length + 1 + padding.length ≤ maxPacket) (rest : Bytes) :
    s.readCipherPacket seqNum ((s.frame seqNum packet padding).1 ++ rest) =
      .ok (packet, (s.frame seqNum packet padding).2, rest) := by
  obtain ⟨start, header, data, cipher, cipher', hframe, hstart, hopen, hheader, hlen, hcrypt⟩ :=
    s.frame_eq seqNum packet padding
  have hlength : getUint32 header = data.length + 1 := by
    have hlt : maxPacket < 2 ^ 32 := by decide
    rw [hheader, getUint32_putUint32_append (by omega), hlen]
    omega
  have hbyte : (header.getD 4 0).toNat = padding.length := by
    rw [hheader, getD_putUint32_append, toNat_ofNat_of_lt hpad]
  have hread := read_eq hstart hopen hlength (by rw [hbyte]; omega) (by omega)
    (length_macSum s.mac seqNum _) hcrypt rfl rest
  rw [hframe, List.append_assoc]
  rw [hread, hbyte, hlen, Nat.add_sub_cancel, List.take_left]

/-- A packet of the wrong size is refused. -/
theorem read_frame_refused (s : StreamPacketCipher) (seqNum : UInt32) {padding : Bytes}
    (hpad : padding.length < 256) (hlt : packet.length + 1 + padding.length < 2 ^ 32)
    (hbad : packet.length = 0 ∨ maxPacket < packet.length + 1 + padding.length) (rest : Bytes) :
    ∃ text, s.readCipherPacket seqNum ((s.frame seqNum packet padding).1 ++ rest) =
      .error (.error text) := by
  obtain ⟨start, header, data, cipher, cipher', hframe, hstart, hopen, hheader, -, -⟩ :=
    s.frame_eq seqNum packet padding
  have hlength : getUint32 header = packet.length + 1 + padding.length := by
    rw [hheader, getUint32_putUint32_append hlt]
  have hbyte : (header.getD 4 0).toNat = padding.length := by
    rw [hheader, getD_putUint32_append, toNat_ofNat_of_lt hpad]
  simp only [hframe, List.append_assoc, readCipherPacket, readFrom_append hstart, hopen, hlength,
    hbyte, bind, Except.bind]
  by_cases hsmall : packet.length + 1 + padding.length ≤ padding.length + 1
  · rw [if_pos hsmall]
    exact ⟨_, rfl⟩
  · rw [if_neg hsmall, if_pos (by omega)]
    exact ⟨_, rfl⟩

/-- What was written is a frame, with the next random bytes as its padding. -/
theorem exists_padding {s s' : StreamPacketCipher} {seqNum : UInt32} {rand rand' : Bytes}
    (h : s.writeCipherPacket seqNum rand packet = .ok (bs, s', rand')) :
    ∃ padding, padding.length = s.paddingLength packet.length ∧ rand = padding ++ rand' ∧
      s.frame seqNum packet padding = (bs, s') := by
  rw [writeCipherPacket] at h
  split_ifs at h
  obtain ⟨padding, rest, hlen, hrand, hout⟩ := bind_readFrom_eq_ok h
  cases hout
  exact ⟨padding, hlen, hrand, rfl⟩

end StreamPacketCipher

/-! ### AES-GCM -/

namespace GcmCipher

theorem paddingLength_bounds (n : ℕ) : 4 ≤ paddingLength n ∧ paddingLength n < 20 :=
  ⟨le_padTo (by decide) _, padTo_lt (by decide) _⟩

section Frame

variable {packet padding : Bytes}

theorem toNat_ofNat_add_one (h : n < 255) : (UInt8.ofNat n + 1).toNat = n + 1 := by
  rw [UInt8.toNat_add, toNat_ofNat_of_lt (by omega)]
  exact Nat.mod_eq_of_lt (by show n + 1 < 256; omega)

theorem payload_eq (hpad : 4 ≤ padding.length) (hpad' : padding.length < 255)
    (hpos : 0 < packet.length) :
    payload (packet.length + padding.length + 1)
      (UInt8.ofNat padding.length :: (packet ++ padding)) = .ok packet := by
  have hlen : (UInt8.ofNat padding.length :: (packet ++ padding)).length =
      packet.length + padding.length + 1 := by
    rw [List.length_cons, List.length_append]
  rw [payload, if_neg (not_ofNat_lt_four hpad (by omega)), toNat_ofNat_add_one hpad', hlen,
    if_neg (by omega), toNat_ofNat_of_lt (by omega), if_neg (by omega),
    show packet.length + padding.length + 1 - padding.length = packet.length + 1 by omega,
    List.take_succ_cons, List.drop_succ_cons, List.drop_zero, List.take_left]

theorem payload_nil (hpad : 4 ≤ padding.length) (hpad' : padding.length < 255) :
    ∃ text, payload (padding.length + 1) (UInt8.ofNat padding.length :: padding) =
      .error (.error text) := by
  rw [payload, if_neg (not_ofNat_lt_four hpad (by omega)), toNat_ofNat_add_one hpad',
    List.length_cons, if_pos (Nat.le_refl _)]
  exact ⟨_, rfl⟩

/-- The reader opens what was sealed, and is left with the payload. -/
theorem read_frame_eq (c : GcmCipher) (seqNum : UInt32)
    (hlt : packet.length + padding.length + 1 < 2 ^ 32) (rest : Bytes) :
    c.readCipherPacket seqNum ((c.frame packet padding).1 ++ rest) =
      if maxPacket < packet.length + padding.length + 1 then
        .error (.error "ssh: max packet length exceeded")
      else
        (payload (packet.length + padding.length + 1)
          (UInt8.ofNat padding.length :: (packet ++ padding))).map
          fun packet ↦ (packet, c.incIV, rest) := by
  set start := putUint32 (packet.length + padding.length + 1) with hstart
  set plain := UInt8.ofNat padding.length :: (packet ++ padding) with hplain
  have hlen : start.length = 4 := length_putUint32 _
  have hlength : getUint32 start = packet.length + padding.length + 1 := getUint32_putUint32 hlt
  have hbuf : (c.aead.sealed c.iv plain start).length =
      packet.length + padding.length + 1 + gcmTagSize := by
    rw [c.aead.length_sealed, hplain, List.length_cons, List.length_append]
    rfl
  have hframe : c.frame packet padding = (start ++ c.aead.sealed c.iv plain start, c.incIV) := rfl
  simp only [hframe, List.append_assoc, readCipherPacket, readFrom_append hlen, bind, Except.bind,
    hlength, readFrom_append hbuf, c.aead.opened_sealed]
  split_ifs
  · rfl
  · rcases payload (packet.length + padding.length + 1) plain <;> rfl

/-- **A packet survives AES-GCM.** -/
theorem read_frame (c : GcmCipher) (seqNum : UInt32) (hpad : 4 ≤ padding.length)
    (hpad' : padding.length < 255) (hpos : 0 < packet.length)
    (hmax : packet.length + 1 + padding.length ≤ maxPacket) (rest : Bytes) :
    c.readCipherPacket seqNum ((c.frame packet padding).1 ++ rest) =
      .ok (packet, (c.frame packet padding).2, rest) := by
  have hlt : maxPacket < 2 ^ 32 := by decide
  rw [c.read_frame_eq seqNum (by omega), if_neg (by omega), payload_eq hpad hpad' hpos]
  rfl

/-- An empty packet leaves nothing but padding, and is refused like one too long. -/
theorem read_frame_refused (c : GcmCipher) (seqNum : UInt32) (hpad : 4 ≤ padding.length)
    (hpad' : padding.length < 255) (hlt : packet.length + 1 + padding.length < 2 ^ 32)
    (hbad : packet.length = 0 ∨ maxPacket < packet.length + 1 + padding.length) (rest : Bytes) :
    ∃ text, c.readCipherPacket seqNum ((c.frame packet padding).1 ++ rest) =
      .error (.error text) := by
  rw [c.read_frame_eq seqNum (by omega)]
  split_ifs with hlarge
  · exact ⟨_, rfl⟩
  · have hempty : packet = [] := List.eq_nil_of_length_eq_zero (by omega)
    obtain ⟨text, htext⟩ := payload_nil hpad hpad'
    rw [hempty, List.nil_append, List.length_nil, Nat.zero_add, htext]
    exact ⟨text, rfl⟩

end Frame

theorem exists_padding {c c' : GcmCipher} {seqNum : UInt32} {rand rand' packet : Bytes}
    (h : c.writeCipherPacket seqNum rand packet = .ok (bs, c', rand')) :
    ∃ padding, padding.length = paddingLength packet.length ∧ rand = padding ++ rand' ∧
      c.frame packet padding = (bs, c') := by
  obtain ⟨padding, rest, hlen, hrand, hout⟩ := bind_readFrom_eq_ok h
  cases hout
  exact ⟨padding, hlen, hrand, rfl⟩

end GcmCipher

/-! ### Block ciphers -/

namespace CbcCipher

/-- The blocks of the ciphers that are used in this way: 3DES and AES. -/
def BlockSize (c : CbcCipher) : Prop := c.block.size = 8 ∨ c.block.size = 16

instance (c : CbcCipher) : Decidable c.BlockSize := inferInstanceAs (Decidable (_ ∨ _))

variable {c : CbcCipher}

/-- Neither size is below the smallest that is allowed. -/
theorem effectiveBlockSize_eq (hc : c.BlockSize) :
    max cbcMinPacketSizeMultiple c.block.size = c.block.size := by
  rcases hc with h | h <;> rw [h] <;> rfl

/-- The encrypted length, as the next multiple of the block. -/
theorem encLength_spec (hc : c.BlockSize) (n : ℕ) :
    c.encLength n = n + 9 + (c.block.size - 1 - (n + 8) % c.block.size) ∧
      c.encLength n % c.block.size = 0 ∧ 16 ≤ c.encLength n := by
  have henc : c.encLength n = (n + 8 + c.block.size) / c.block.size * c.block.size := by
    rw [encLength, effectiveBlockSize_eq hc, Nat.max_eq_left (Nat.le_add_left _ _)]
    unfold prefixLen cbcMinPaddingSize
    rw [show 5 + n + 4 + c.block.size - 1 = n + 8 + c.block.size by omega]
  rw [henc]
  rcases hc with h | h <;> rw [h] <;> omega

theorem paddingLength_bounds (hc : c.BlockSize) (n : ℕ) :
    4 ≤ c.paddingLength n ∧ c.paddingLength n < 20 ∧
      c.encLength n = 5 + n + c.paddingLength n := by
  obtain ⟨heq, -⟩ := encLength_spec hc n
  unfold paddingLength
  rcases hc with h | h <;> rw [h] at heq <;> omega

/-- One block is enough for the length and the size of the padding. -/
theorem firstBlockLength_eq (hc : c.BlockSize) :
    (prefixLen + c.block.size - 1) / c.block.size * c.block.size = c.block.size := by
  rcases hc with h | h <;> rw [h] <;> rfl

/-- The reader, on what has the form of a packet. -/
theorem read_eq {r : CbcCipher} (hc : r.BlockSize) (seqNum : UInt32)
    {start crypted first remaining tag mid last : Bytes} (hstart : start.length = r.block.size)
    (hcrypted : crypted.length = n * r.block.size)
    (hfirst : cbcDecrypt r.block 1 r.decrypter start = (first, mid))
    (hremaining : cbcDecrypt r.block n mid crypted = (remaining, last))
    (hlen : getUint32 first + 4 = (n + 1) * r.block.size) (hmin : 16 ≤ (n + 1) * r.block.size)
    (hmax : getUint32 first ≤ maxPacket) (hpad : 4 ≤ (first.getD 4 0).toNat)
    (hpad' : (first.getD 4 0).toNat + 1 < getUint32 first)
    (hmac : macSum r.mac seqNum (first ++ remaining) = tag) (rest : Bytes) :
    r.readCipherPacket seqNum (start ++ (crypted ++ tag ++ rest)) =
      .ok
        (((first ++ remaining).take (4 + getUint32 first - (first.getD 4 0).toNat)).drop prefixLen,
        { r with decrypter := last }, rest) := by
  have hpos := r.block.size_pos
  have hmul : (n + 1) * r.block.size = n * r.block.size + r.block.size := Nat.succ_mul _ _
  have hleft : 4 + getUint32 first - r.block.size = n * r.block.size := by omega
  have hbody : (crypted ++ tag).length =
      4 + getUint32 first + macSize r.mac - r.block.size := by
    rw [List.length_append, hcrypted, ← hmac, length_macSum]
    omega
  have hsmall : ¬ getUint32 first + 4 < max cbcMinPacketSize r.block.size := by
    rw [hlen, Nat.not_lt, Nat.max_le]
    exact ⟨hmin, by omega⟩
  have hmultiple : ¬ (getUint32 first + 4) % max cbcMinPacketSizeMultiple r.block.size ≠ 0 := by
    rw [hlen, effectiveBlockSize_eq hc, Nat.mul_mod_left]
    exact not_not_intro rfl
  have hlegal : ¬ ((first.getD 4 0).toNat < cbcMinPaddingSize ∨
      getUint32 first ≤ (first.getD 4 0).toNat + 1) := by
    unfold cbcMinPaddingSize
    omega
  simp only [readCipherPacket, firstBlockLength_eq hc, readFrom_append hstart, bind, Except.bind,
    Nat.div_self hpos, hfirst, if_neg (Nat.not_lt.2 hmax), if_neg hsmall, if_neg hmultiple,
    if_neg hlegal, readFrom_append hbody, hleft, Nat.mul_div_cancel _ hpos,
    List.take_left' hcrypted, List.drop_left' hcrypted, hremaining, hmac, ne_eq, not_true_eq_false,
    if_false]
  rfl

/-- The first block alone is enough to refuse a packet. -/
theorem read_refused {r : CbcCipher} (hc : r.BlockSize) (seqNum : UInt32) {start first mid : Bytes}
    (hstart : start.length = r.block.size)
    (hfirst : cbcDecrypt r.block 1 r.decrypter start = (first, mid))
    (hbad : getUint32 first ≤ (first.getD 4 0).toNat + 1 ∨ maxPacket < getUint32 first)
    (rest : Bytes) : ∃ text, r.readCipherPacket seqNum (start ++ rest) = .error (.error text) := by
  simp only [readCipherPacket, firstBlockLength_eq hc, readFrom_append hstart, bind, Except.bind,
    Nat.div_self r.block.size_pos, hfirst]
  split_ifs with hlarge hsmall hmultiple hlegal
  · exact ⟨_, rfl⟩
  · exact ⟨_, rfl⟩
  · exact ⟨_, rfl⟩
  · exact ⟨_, rfl⟩
  · exact absurd (Or.inr (hbad.resolve_right hlarge)) hlegal

section PacketData

variable {c : CbcCipher} {packet padding : Bytes}

theorem length_packetData (henc : c.encLength packet.length = 5 + packet.length + padding.length) :
    (c.packetData packet padding).length = c.encLength packet.length := by
  rw [packetData, List.length_append, length_putUint32, List.length_cons, List.length_append]
  omega

theorem getUint32_packetData (h : c.encLength packet.length - 4 < 2 ^ 32) :
    getUint32 (c.packetData packet padding) = c.encLength packet.length - 4 :=
  getUint32_putUint32_append h _

theorem getD_take_packetData (hn : 4 < n) (hpad : padding.length < 256) :
    (((c.packetData packet padding).take n).getD 4 0).toNat = padding.length := by
  rw [List.getD_eq_getElem?_getD, List.getElem?_take_of_lt hn, ← List.getD_eq_getElem?_getD,
    packetData, getD_putUint32_append, toNat_ofNat_of_lt hpad]

theorem drop_take_packetData :
    ((c.packetData packet padding).take (5 + packet.length)).drop prefixLen = packet := by
  have hsplit : c.packetData packet padding =
      (putUint32 (c.encLength packet.length - 4) ++ [UInt8.ofNat padding.length]) ++
        (packet ++ padding) := by simp [packetData]
  have hlen : (putUint32 (c.encLength packet.length - 4) ++ [UInt8.ofNat padding.length]).length =
      5 := by simp
  rw [hsplit, List.take_append, List.take_of_length_le (by omega), hlen, Nat.add_sub_cancel_left,
    List.take_left]
  exact List.drop_left' hlen

end PacketData

/-- The two ends of a direction are at the same place of its chain. -/
structure Sync (w r : CbcCipher) : Prop where
  mac : w.mac = r.mac
  block : w.block = r.block
  chain : w.encrypter = r.decrypter
  length : r.decrypter.length = r.block.size
  blockSize : r.BlockSize

section Frame

variable {w r : CbcCipher} {packet padding : Bytes}

theorem Sync.blockSize_writer (h : Sync w r) : w.BlockSize := by
  rw [BlockSize, h.block]
  exact h.blockSize

/-- What is sent for a packet, as the reader sees it: a first block that opens to the header and
what is behind it, and other blocks. -/
theorem Sync.frame_eq (h : Sync w r) (seqNum : UInt32)
    (hpad : padding.length = w.paddingLength packet.length) :
    ∃ n first crypted last, w.frame seqNum packet padding =
        (first ++ (crypted ++ macSum r.mac seqNum (w.packetData packet padding)),
          { w with encrypter := last }) ∧
      w.encLength packet.length = (n + 1) * r.block.size ∧ first.length = r.block.size ∧
      crypted.length = n * r.block.size ∧ last.length = r.block.size ∧
      cbcDecrypt r.block 1 r.decrypter first =
        ((w.packetData packet padding).take r.block.size, first) ∧
      cbcDecrypt r.block n first crypted =
        ((w.packetData packet padding).drop r.block.size, last) := by
  obtain ⟨-, -, henc⟩ := paddingLength_bounds h.blockSize_writer packet.length
  obtain ⟨-, hdvd, hmin⟩ := encLength_spec h.blockSize_writer packet.length
  rw [← hpad] at henc
  obtain ⟨m, hm⟩ := Nat.dvd_of_mod_eq_zero hdvd
  obtain ⟨n, rfl⟩ : ∃ n, m = n + 1 := by
    refine Nat.exists_eq_succ_of_ne_zero fun h ↦ ?_
    rw [h, Nat.mul_zero] at hm
    omega
  rw [Nat.mul_comm, h.block] at hm
  have hlen := (length_packetData henc).trans hm
  obtain ⟨first, crypted, hout, hfirst, hcrypted, hopenFirst, hopenRest⟩ :=
    Crypto.exists_first_block r.block h.length hlen
  refine ⟨n, first, crypted, _, ?_, hm, hfirst, hcrypted,
    Crypto.length_cbcEncrypt_snd _ h.length hlen, hopenFirst, hopenRest⟩
  rw [frame, hm, h.block, Nat.mul_div_cancel _ r.block.size_pos, h.chain, h.mac,
    ← List.append_assoc, ← hout]

theorem eight_le_size (hc : r.BlockSize) : 8 ≤ r.block.size := by
  rcases hc with h | h <;> omega

/-- **A packet survives a block cipher**, the first block of which is opened before the reader
knows how many there are. -/
theorem Sync.read_frame (h : Sync w r) (seqNum : UInt32)
    (hpad : padding.length = w.paddingLength packet.length) (hpos : 0 < packet.length)
    (hmax : packet.length + 1 + padding.length ≤ maxPacket) :
    ∃ r', Sync (w.frame seqNum packet padding).2 r' ∧ ∀ rest,
      r.readCipherPacket seqNum ((w.frame seqNum packet padding).1 ++ rest) =
        .ok (packet, r', rest) := by
  obtain ⟨hpad₄, hpad₂₀, henc⟩ := paddingLength_bounds h.blockSize_writer packet.length
  obtain ⟨-, -, hmin⟩ := encLength_spec h.blockSize_writer packet.length
  rw [← hpad] at hpad₄ hpad₂₀ henc
  obtain ⟨n, first, crypted, last, hframe, hm, hfirst, hcrypted, hlast, hopenFirst, hopenRest⟩ :=
    h.frame_eq seqNum hpad
  have hsize := eight_le_size h.blockSize
  have hlt : maxPacket < 2 ^ 32 := by decide
  have hlength : getUint32 ((w.packetData packet padding).take r.block.size) =
      w.encLength packet.length - 4 := by
    rw [getUint32_take (by omega), getUint32_packetData (by omega)]
  have hpadding : (((w.packetData packet padding).take r.block.size).getD 4 0).toNat =
      padding.length := getD_take_packetData (by omega) (by omega)
  have htake : 4 + (w.encLength packet.length - 4) - padding.length = 5 + packet.length := by omega
  refine ⟨{ r with decrypter := last }, ⟨?_, ?_, ?_, hlast, h.blockSize⟩, fun rest ↦ ?_⟩
  · rw [hframe]
    exact h.mac
  · rw [hframe]
    exact h.block
  · rw [hframe]
  · have hread := read_eq h.blockSize seqNum hfirst hcrypted hopenFirst hopenRest (by omega)
      (by omega) (by omega) (by omega) (by omega) rfl rest
    rw [List.take_append_drop, hlength, hpadding, htake, drop_take_packetData] at hread
    rw [hframe, List.append_assoc]
    exact hread

theorem Sync.read_frame_refused (h : Sync w r) (seqNum : UInt32)
    (hpad : padding.length = w.paddingLength packet.length)
    (hlt : packet.length + 1 + padding.length < 2 ^ 32)
    (hbad : packet.length = 0 ∨ maxPacket < packet.length + 1 + padding.length) (rest : Bytes) :
    ∃ text, r.readCipherPacket seqNum ((w.frame seqNum packet padding).1 ++ rest) =
      .error (.error text) := by
  obtain ⟨hpad₄, hpad₂₀, henc⟩ := paddingLength_bounds h.blockSize_writer packet.length
  rw [← hpad] at hpad₄ hpad₂₀ henc
  obtain ⟨n, first, crypted, last, hframe, -, hfirst, -, -, hopenFirst, -⟩ :=
    h.frame_eq seqNum hpad
  have hsize := eight_le_size h.blockSize
  have hlength : getUint32 ((w.packetData packet padding).take r.block.size) =
      w.encLength packet.length - 4 := by
    rw [getUint32_take (by omega), getUint32_packetData (by omega)]
  have hpadding : (((w.packetData packet padding).take r.block.size).getD 4 0).toNat =
      padding.length := getD_take_packetData (by omega) (by omega)
  rw [hframe, List.append_assoc]
  exact read_refused h.blockSize seqNum hfirst hopenFirst (by omega) _

end Frame

theorem exists_padding {c' : CbcCipher} {seqNum : UInt32} {rand rand' packet : Bytes}
    (h : c.writeCipherPacket seqNum rand packet = .ok (bs, c', rand')) :
    ∃ padding, padding.length = c.paddingLength packet.length ∧ rand = padding ++ rand' ∧
      c.frame seqNum packet padding = (bs, c') := by
  obtain ⟨padding, rest, hlen, hrand, hout⟩ := bind_readFrom_eq_ok h
  cases hout
  exact ⟨padding, hlen, hrand, rfl⟩

end CbcCipher

/-! ### ChaCha20 and Poly1305 -/

namespace ChaCha20Poly1305Cipher

theorem paddingLength_bounds (n : ℕ) : 4 ≤ paddingLength n ∧ paddingLength n < 12 :=
  ⟨le_padTo (by decide) _, padTo_lt (by decide) _⟩

section Frame

variable {packet padding : Bytes}

theorem payload_eq (hpad : 4 ≤ padding.length) (hpad' : padding.length < 256)
    (hpos : 0 < packet.length) :
    payload (UInt8.ofNat padding.length :: (packet ++ padding)) = .ok packet := by
  have hlen : (UInt8.ofNat padding.length :: (packet ++ padding)).length =
      packet.length + padding.length + 1 := by
    rw [List.length_cons, List.length_append]
  rw [payload, if_neg (not_ofNat_lt_four hpad hpad'), toNat_ofNat_of_lt hpad', hlen,
    if_neg (by omega),
    show packet.length + padding.length + 1 - padding.length = packet.length + 1 by omega,
    List.take_succ_cons, List.drop_succ_cons, List.drop_zero, List.take_left]

theorem payload_nil (hpad : 4 ≤ padding.length) (hpad' : padding.length < 256) :
    ∃ text, payload (UInt8.ofNat padding.length :: padding) = .error (.error text) := by
  rw [payload, if_neg (not_ofNat_lt_four hpad hpad'), toNat_ofNat_of_lt hpad', List.length_cons,
    if_pos (Nat.le_refl _)]
  exact ⟨_, rfl⟩

/-- The writer's tag is computed without a panic and is the one that the reader accepts, which is
left with the payload. -/
theorem exists_frame (c : ChaCha20Poly1305Cipher) (seqNum : UInt32)
    (hlt : 1 + packet.length + padding.length < 2 ^ 32) :
    ∃ out, c.frame seqNum packet padding = .ok out ∧ ∀ rest,
      c.readCipherPacket seqNum (out ++ rest) =
        if maxPacket < packet.length + padding.length + 1 then
          .error (.error "ssh: invalid packet length, packet too large")
        else
          (payload (UInt8.ofNat padding.length :: (packet ++ padding))).map
            fun packet ↦ (packet, c, rest) := by
  set start := ((c.lengthStream seqNum).crypt
    (putUint32 (1 + packet.length + padding.length))).1 with hstart
  set plain := UInt8.ofNat padding.length :: (packet ++ padding) with hplain
  set content := ((c.polyKey seqNum).2.crypt plain).1 with hcontent
  obtain ⟨tag, htag, htaglen, htagval⟩ :=
    Poly1305.exists_sum (c.polyKey seqNum).1 (start ++ content)
  have hlen : start.length = 4 := by rw [hstart, Stream.length_crypt, length_putUint32]
  have hcontentlen : content.length = packet.length + padding.length + 1 := by
    rw [hcontent, Stream.length_crypt, hplain, List.length_cons, List.length_append]
  have hlength : getUint32 ((c.lengthStream seqNum).crypt start).1 = content.length := by
    rw [hstart, Stream.crypt_crypt, getUint32_putUint32 hlt, hcontentlen]
    omega
  have hbuf : (content ++ tag).length = content.length + Poly1305.tagSize := by
    rw [List.length_append, htaglen]
  -- the tag is that of the length as it was sent and the content
  have hverify : Poly1305.verify tag (start ++ content) (c.polyKey seqNum).1 = .ok true := by
    rw [Poly1305.verify_eq, decide_eq_true ⟨htaglen, htagval⟩]
  have hopen : ((c.polyKey seqNum).2.crypt content).1 = plain := by
    rw [hcontent, Stream.crypt_crypt]
  refine ⟨start ++ content ++ tag, ?_, fun rest ↦ ?_⟩
  · simp only [frame, ← hstart, ← hplain, ← hcontent, htag]
    rfl
  · rw [List.append_assoc, List.append_assoc, ← List.append_assoc content, ← hcontentlen]
    simp only [readCipherPacket, readFrom_append hlen, bind, Except.bind, hlength,
      readFrom_append hbuf, List.take_left, List.drop_left, hverify, orPanics, Except.mapError,
      hopen, Bool.true_eq_false, if_false]
    split_ifs
    · rfl
    · rcases payload plain <;> rfl

/-- **A packet survives ChaCha20 and Poly1305.** -/
theorem read_frame (c : ChaCha20Poly1305Cipher) (seqNum : UInt32) (hpad : 4 ≤ padding.length)
    (hpad' : padding.length < 256) (hpos : 0 < packet.length)
    (hmax : packet.length + 1 + padding.length ≤ maxPacket) {out : Bytes}
    (hout : c.frame seqNum packet padding = .ok out) (rest : Bytes) :
    c.readCipherPacket seqNum (out ++ rest) = .ok (packet, c, rest) := by
  have hlt : maxPacket < 2 ^ 32 := by decide
  obtain ⟨out', hframe, hread⟩ := c.exists_frame seqNum (show
    1 + packet.length + padding.length < 2 ^ 32 by omega)
  obtain rfl : out' = out := Except.ok.inj (hframe.symm.trans hout)
  rw [hread, if_neg (by omega), payload_eq hpad hpad' hpos]
  rfl

/-- The tag is right, and the packet is refused all the same. -/
theorem read_frame_refused (c : ChaCha20Poly1305Cipher) (seqNum : UInt32)
    (hpad : 4 ≤ padding.length) (hpad' : padding.length < 256)
    (hlt : packet.length + 1 + padding.length < 2 ^ 32)
    (hbad : packet.length = 0 ∨ maxPacket < packet.length + 1 + padding.length)
    {out : Bytes} (hout : c.frame seqNum packet padding = .ok out) (rest : Bytes) :
    ∃ text, c.readCipherPacket seqNum (out ++ rest) = .error (.error text) := by
  obtain ⟨out', hframe, hread⟩ := c.exists_frame seqNum (show
    1 + packet.length + padding.length < 2 ^ 32 by omega)
  obtain rfl : out' = out := Except.ok.inj (hframe.symm.trans hout)
  rw [hread]
  split_ifs with hlarge
  · exact ⟨_, rfl⟩
  · have hempty : packet = [] := List.eq_nil_of_length_eq_zero (by omega)
    obtain ⟨text, htext⟩ := payload_nil hpad hpad'
    rw [hempty, List.nil_append, htext]
    exact ⟨text, rfl⟩

end Frame

theorem exists_padding {c c' : ChaCha20Poly1305Cipher} {seqNum : UInt32} {rand rand' packet : Bytes}
    (h : c.writeCipherPacket seqNum rand packet = .ok (bs, c', rand')) :
    ∃ padding, padding.length = paddingLength packet.length ∧ rand = padding ++ rand' ∧
      c.frame seqNum packet padding = .ok bs ∧ c' = c := by
  obtain ⟨padding, rest, hlen, hrand, hout⟩ := bind_readFrom_eq_ok h
  dsimp only at hout
  rcases hframe : c.frame seqNum packet padding with e | out
  · rw [hframe] at hout
    cases hout
  · rw [hframe] at hout
    cases hout
    exact ⟨padding, hlen, hrand, hframe, rfl⟩

end ChaCha20Poly1305Cipher

/-! ### Any of them -/

namespace PacketCipher

/-- A writer and a reader that are at the same place. -/
def Sync : PacketCipher → PacketCipher → Prop
  | stream w, stream r => w = r
  | gcm w, gcm r => w = r
  | cbc w, cbc r => w.Sync r
  | chaCha20Poly1305 w, chaCha20Poly1305 r => w = r
  | _, _ => False

/-- The padding of a packet of so many bytes, under the cipher that there is. -/
def paddingLength (c : PacketCipher) (n : ℕ) : ℕ :=
  match c with
  | stream c => c.paddingLength n
  | gcm _ => GcmCipher.paddingLength n
  | cbc c => c.paddingLength n
  | chaCha20Poly1305 _ => ChaCha20Poly1305Cipher.paddingLength n

/-- The packet is not empty, and not too long with its padding. -/
def Readable (c : PacketCipher) (packet : Bytes) : Prop :=
  0 < packet.length ∧ packet.length + 1 + c.paddingLength packet.length ≤ maxPacket

instance (c : PacketCipher) (packet : Bytes) : Decidable (c.Readable packet) :=
  inferInstanceAs (Decidable (_ ∧ _))

variable {w w' r : PacketCipher} {seqNum : UInt32} {rand rand' packet bs : Bytes}

theorem wrap_eq_ok {σ : Type} {make : σ → PacketCipher} {res : Except Failure (Bytes × σ × Bytes)}
    {c : PacketCipher} {rest : Bytes} (h : wrap make res = .ok (bs, c, rest)) :
    ∃ s, res = .ok (bs, s, rest) ∧ c = make s := by
  rcases res with e | ⟨bs', s, rest'⟩
  · cases h
  · cases h
    exact ⟨s, rfl, rfl⟩

/-- There is nothing to read in an empty connection. -/
theorem read_nil (c : PacketCipher) (seqNum : UInt32) :
    ∃ f, c.readCipherPacket seqNum [] = .error f := by
  have hnil {n : ℕ} (hn : 0 < n) : readFrom n [] = .error (.error "EOF") := by
    rw [readFrom, readFull, List.length_nil, if_neg (Nat.not_le.2 hn)]
    rfl
  rcases c with c | c | c | c
  · exact ⟨_, by simp only [readCipherPacket, StreamPacketCipher.readCipherPacket, hnil (n := 5)
      (by decide), prefixLen, bind, Except.bind]; rfl⟩
  · exact ⟨_, by simp only [readCipherPacket, GcmCipher.readCipherPacket, hnil (n := 4)
      (by decide), bind, Except.bind]; rfl⟩
  · have hpos : 0 < (prefixLen + c.block.size - 1) / c.block.size * c.block.size :=
      Nat.mul_pos (Nat.div_pos (by unfold prefixLen; omega) c.block.size_pos) c.block.size_pos
    exact ⟨_, by simp only [readCipherPacket, CbcCipher.readCipherPacket, hnil hpos, bind,
      Except.bind]; rfl⟩
  · exact ⟨_, by simp only [readCipherPacket, ChaCha20Poly1305Cipher.readCipherPacket, hnil (n := 4)
      (by decide), bind, Except.bind]; rfl⟩

/-- What is readable is written, with enough random bytes. -/
theorem exists_write {c : PacketCipher} (hp : c.Readable packet) (seqNum : UInt32)
    (hrand : c.paddingLength packet.length ≤ rand.length) :
    ∃ bs c' rand', c.writeCipherPacket seqNum rand packet = .ok (bs, c', rand') := by
  obtain ⟨-, hmax⟩ := hp
  obtain ⟨padding, rand', hlen, rfl⟩ : ∃ padding rand',
      padding.length = c.paddingLength packet.length ∧ rand = padding ++ rand' :=
    ⟨rand.take _, rand.drop _, List.length_take_of_le hrand, (List.take_append_drop _ _).symm⟩
  rcases c with c | c | c | c
  · refine ⟨(c.frame seqNum packet padding).1, stream (c.frame seqNum packet padding).2, rand', ?_⟩
    simp only [writeCipherPacket, StreamPacketCipher.writeCipherPacket]
    rw [if_neg (by omega)]
    simp only [paddingLength] at hlen
    rw [readFrom_append hlen]
    rfl
  · refine ⟨(c.frame packet padding).1, gcm (c.frame packet padding).2, rand', ?_⟩
    simp only [writeCipherPacket, GcmCipher.writeCipherPacket]
    simp only [paddingLength] at hlen
    rw [readFrom_append hlen]
    rfl
  · refine ⟨(c.frame seqNum packet padding).1, cbc (c.frame seqNum packet padding).2, rand', ?_⟩
    simp only [writeCipherPacket, CbcCipher.writeCipherPacket]
    simp only [paddingLength] at hlen
    rw [readFrom_append hlen]
    rfl
  · have hlt : maxPacket < 2 ^ 32 := by decide
    obtain ⟨out, hframe, -⟩ := c.exists_frame seqNum (show
      1 + packet.length + padding.length < 2 ^ 32 by omega)
    refine ⟨out, chaCha20Poly1305 c, rand', ?_⟩
    simp only [paddingLength] at hlen
    simp only [writeCipherPacket, ChaCha20Poly1305Cipher.writeCipherPacket, readFrom_append hlen,
      bind, Except.bind, hframe]
    rfl

/-- No cipher takes twenty bytes of padding. -/
theorem paddingLength_lt (hsync : w.Sync r) (n : ℕ) : w.paddingLength n < 20 := by
  rcases w with w | w | w | w <;> rcases r with r | r | r | r <;> try exact hsync.elim
  · exact (w.paddingLength_bounds n).2
  · exact (GcmCipher.paddingLength_bounds n).2
  · exact (CbcCipher.paddingLength_bounds (CbcCipher.Sync.blockSize_writer hsync) n).2.1
  · exact (ChaCha20Poly1305Cipher.paddingLength_bounds n).2.trans (by decide)

/-- **A packet survives its cipher** if it is `Readable`: the reader gives it back, whatever follows
it, and is at the writer's place again. Another is written all the same, if it is not as long as a
length can say, and its reader ends with an error. -/
theorem read_write (hsync : w.Sync r)
    (h : w.writeCipherPacket seqNum rand packet = .ok (bs, w', rand')) :
    (w.Readable packet → ∃ r', w'.Sync r' ∧ ∀ rest,
      r.readCipherPacket seqNum (bs ++ rest) = .ok (packet, r', rest)) ∧
    (¬ w.Readable packet → packet.length + 20 < 2 ^ 32 → ∀ rest,
      ∃ text, r.readCipherPacket seqNum (bs ++ rest) = .error (.error text)) := by
  have hpadding := paddingLength_lt hsync packet.length
  rw [Readable]
  -- two ends at the same place have ciphers of the same kind
  rcases w with w | w | w | w <;> rcases r with r | r | r | r <;> try exact hsync.elim
  · obtain rfl : w = r := hsync
    obtain ⟨s, hs, rfl⟩ := wrap_eq_ok h
    obtain ⟨padding, hlen, -, hframe⟩ := StreamPacketCipher.exists_padding hs
    rw [paddingLength, ← hlen] at hpadding ⊢
    refine ⟨fun ⟨hpos, hmax⟩ ↦ ⟨stream s, rfl, fun rest ↦ ?_⟩, fun hp hlt rest ↦ ?_⟩
    · have hread := w.read_frame seqNum (by omega) hpos hmax rest
      rw [hframe] at hread
      rw [readCipherPacket, hread]
      rfl
    · have hbad : packet.length = 0 ∨ maxPacket < packet.length + 1 + padding.length := by omega
      obtain ⟨text, hread⟩ := w.read_frame_refused seqNum (by omega) (by omega) hbad rest
      rw [hframe] at hread
      rw [readCipherPacket, hread]
      exact ⟨text, rfl⟩
  · obtain rfl : w = r := hsync
    obtain ⟨s, hs, rfl⟩ := wrap_eq_ok h
    obtain ⟨padding, hlen, -, hframe⟩ := GcmCipher.exists_padding hs
    have hpad := GcmCipher.paddingLength_bounds packet.length
    rw [paddingLength, ← hlen] at hpadding ⊢
    refine ⟨fun ⟨hpos, hmax⟩ ↦ ⟨gcm s, rfl, fun rest ↦ ?_⟩, fun hp hlt rest ↦ ?_⟩
    · have hread := w.read_frame seqNum (by omega) (by omega) hpos hmax rest
      rw [hframe] at hread
      rw [readCipherPacket, hread]
      rfl
    · have hbad : packet.length = 0 ∨ maxPacket < packet.length + 1 + padding.length := by omega
      obtain ⟨text, hread⟩ :=
        w.read_frame_refused seqNum (by omega) (by omega) (by omega) hbad rest
      rw [hframe] at hread
      rw [readCipherPacket, hread]
      exact ⟨text, rfl⟩
  · have hsync : w.Sync r := hsync
    obtain ⟨s, hs, rfl⟩ := wrap_eq_ok h
    obtain ⟨padding, hlen, -, hframe⟩ := CbcCipher.exists_padding hs
    rw [paddingLength, ← hlen] at hpadding ⊢
    refine ⟨fun ⟨hpos, hmax⟩ ↦ ?_, fun hp hlt rest ↦ ?_⟩
    · obtain ⟨r', hsync', hread⟩ := hsync.read_frame seqNum hlen hpos hmax
      rw [hframe] at hsync' hread
      refine ⟨cbc r', hsync', fun rest ↦ ?_⟩
      rw [readCipherPacket, hread]
      rfl
    · obtain ⟨text, hread⟩ := hsync.read_frame_refused seqNum hlen (by omega) (by omega) rest
      rw [hframe] at hread
      rw [readCipherPacket, hread]
      exact ⟨text, rfl⟩
  · obtain rfl : w = r := hsync
    obtain ⟨s, hs, rfl⟩ := wrap_eq_ok h
    obtain ⟨padding, hlen, -, hframe, rfl⟩ := ChaCha20Poly1305Cipher.exists_padding hs
    have hpad := ChaCha20Poly1305Cipher.paddingLength_bounds packet.length
    rw [paddingLength, ← hlen] at hpadding ⊢
    refine ⟨fun ⟨hpos, hmax⟩ ↦ ⟨chaCha20Poly1305 s, rfl, fun rest ↦ ?_⟩, fun hp hlt rest ↦ ?_⟩
    · rw [readCipherPacket, s.read_frame seqNum (by omega) (by omega) hpos hmax hframe rest]
      rfl
    · obtain ⟨text, hread⟩ :=
        s.read_frame_refused seqNum (by omega) (by omega) (by omega) (by omega) hframe rest
      rw [readCipherPacket, hread]
      exact ⟨text, rfl⟩

/-- **Exactly the `Readable` packets arrive**, under every cipher: what was written is read as the
packet, and leaves the two ends at the same place, exactly if the packet is `Readable`; every other
packet, if it is not as long as a length can say, is refused with an error. Both hold whatever
follows. -/
theorem read_write_iff (hsync : w.Sync r) (hlt : packet.length + 20 < 2 ^ 32)
    (h : w.writeCipherPacket seqNum rand packet = .ok (bs, w', rand')) (rest : Bytes) :
    ((∃ r', w'.Sync r' ∧ r.readCipherPacket seqNum (bs ++ rest) = .ok (packet, r', rest)) ↔
      w.Readable packet) ∧
    (¬ w.Readable packet →
      ∃ text, r.readCipherPacket seqNum (bs ++ rest) = .error (.error text)) := by
  refine ⟨⟨?_, fun hp ↦ ?_⟩, fun hp ↦ (read_write hsync h).2 hp hlt rest⟩
  · rintro ⟨r', -, hread⟩
    by_contra hp
    obtain ⟨text, herror⟩ := (read_write hsync h).2 hp hlt rest
    rw [hread] at herror
    cases herror
  · obtain ⟨r', hsync', hread⟩ := (read_write hsync h).1 hp
    exact ⟨r', hsync', hread rest⟩

/-- The first packet of a connection, before any keys, and one without bytes. -/
theorem read_write_iff_first :
    let c := stream ⟨none, noneCipher, false⟩
    (∃ bs w', c.writeCipherPacket 0 (List.replicate 10 7) [20] = .ok (bs, w', []) ∧
      ∃ r', w'.Sync r' ∧ c.readCipherPacket 0 (bs ++ [1, 2]) = .ok ([20], r', [1, 2])) ∧
    ∃ bs w', c.writeCipherPacket 0 (List.replicate 11 7) [] = .ok (bs, w', []) ∧
      ∃ text, c.readCipherPacket 0 (bs ++ [1, 2]) = .error (.error text) := by
  intro c
  have hsync : c.Sync c := rfl
  have hwrite : c.writeCipherPacket 0 (List.replicate 10 7) [20] = .ok (_, _, []) := rfl
  have hempty : c.writeCipherPacket 0 (List.replicate 11 7) [] = .ok (_, _, []) := rfl
  exact ⟨⟨_, _, hwrite, (read_write_iff hsync (by decide) hwrite [1, 2]).1.2 (by decide)⟩,
    _, _, hempty, (read_write_iff hsync (by decide) hempty [1, 2]).2 (by decide)⟩

end PacketCipher

end Ssh
