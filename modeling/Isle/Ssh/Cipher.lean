import Isle.Forward.Message
import Isle.Go.Crypto
import Isle.Poly1305.Sum
import Isle.Ssh.Buffer

/-!
# The packet ciphers of SSH

`cipher.go` of `pkg/crypto/ssh`: the four ways in which a packet is padded, encrypted, authenticated
and put on the connection, and read from it again. The primitives are those of `Go.Crypto`;
Poly1305 is the repository's own (`Poly1305.Sum`), under the ChaCha20 of another library, which is
two functions here, one for each key.

A writer takes the bytes of its padding from `rand`. A reader takes bytes from what the connection
delivers, and gives back the packet, its own new state and what is left of the bytes. What becomes
of the cipher after an error is left out, since no packet is read after one.
-/

namespace Ssh

open Forward (toBigEndian ofBigEndian)
open Crypto (Stream Hash Aead Block cbcEncrypt cbcDecrypt)

/-- How a cipher ends without a packet. -/
inductive Failure
  /-- It returns an error. -/
  | error (text : String)
  /-- It panics. -/
  | panics
  deriving DecidableEq, Repr

/-- What a packet is padded to a multiple of, where the cipher has no blocks. -/
def packetSizeMultiple : ℕ := 16

/-- The most that a reader takes for the length of a packet. -/
def maxPacket : ℕ := 256 * 1024

/-- The length of a packet, in four bytes, and that of its padding, in one. -/
def prefixLen : ℕ := 5

/-- `binary.BigEndian.PutUint32` -/
def putUint32 (n : ℕ) : Bytes := toBigEndian 4 n

/-- `binary.BigEndian.Uint32` -/
def getUint32 (bs : Bytes) : ℕ := ofBigEndian (bs.take 4)

/-- `io.ReadFull`, in a function that returns its error. -/
def readFrom (n : ℕ) (bs : Bytes) : Except Failure (Bytes × Bytes) :=
  (readFull n bs).mapError .error

/-- The padding that fills so many bytes up to a multiple, with at least four bytes. -/
def padTo (multiple n : ℕ) : ℕ :=
  let padding := multiple - n % multiple
  if padding < 4 then padding + multiple else padding

/-- The tag of what was written, behind the number of the packet. -/
def macSum (mac : Option Hash) (seqNum : UInt32) (written : Bytes) : Bytes :=
  match mac with
  | none => []
  | some mac => mac.sum (putUint32 seqNum.toNat ++ written)

/-- How many bytes a tag has, if there is one. -/
def macSize (mac : Option Hash) : ℕ := mac.elim 0 Hash.size

/-! ### Stream ciphers -/

/-- A stream cipher with a MAC, of the text or of the bytes that are encrypted. -/
structure StreamPacketCipher where
  mac : Option Hash
  cipher : Stream
  etm : Bool

/-- `noneCipher` -/
def noneCipher : Stream := ⟨fun _ ↦ 0, 0⟩

namespace StreamPacketCipher

/-- The tag is that of the encrypted packet, the length of which is not encrypted. -/
def isEtm (s : StreamPacketCipher) : Bool := s.mac.isSome && s.etm

/-- The padding of a packet of so many bytes. The length is not part of it if it is not encrypted.
-/
def paddingLength (s : StreamPacketCipher) (n : ℕ) : ℕ :=
  padTo packetSizeMultiple (prefixLen + n - if s.isEtm then 4 else 0)

/-- What is sent for a packet and its padding. -/
def frame (s : StreamPacketCipher) (seqNum : UInt32) (packet padding : Bytes) :
    Bytes × StreamPacketCipher :=
  let header := putUint32 (packet.length + 1 + padding.length) ++ [UInt8.ofNat padding.length]
  if s.isEtm then
    let (last, cipher) := s.cipher.crypt (header.drop 4)
    let (body, cipher) := cipher.crypt packet
    let (fill, cipher) := cipher.crypt padding
    let out := header.take 4 ++ last ++ (body ++ fill)
    (out ++ macSum s.mac seqNum out, { s with cipher := cipher })
  else
    let tag := macSum s.mac seqNum (header ++ (packet ++ padding))
    let (head, cipher) := s.cipher.crypt header
    let (body, cipher) := cipher.crypt packet
    let (fill, cipher) := cipher.crypt padding
    (head ++ (body ++ fill) ++ tag, { s with cipher := cipher })

/-- A packet is padded with random bytes, and put on the connection. -/
def writeCipherPacket (s : StreamPacketCipher) (seqNum : UInt32) (rand packet : Bytes) :
    Except Failure (Bytes × StreamPacketCipher × Bytes) := do
  if maxPacket < packet.length then .error (.error "ssh: packet too large")
  else
    let (padding, rand) ← readFrom (s.paddingLength packet.length) rand
    let (out, s) := s.frame seqNum packet padding
    return (out, s, rand)

/-- The start of a packet, of which all is encrypted or only the last byte. -/
def openHeader (s : StreamPacketCipher) (start : Bytes) : Bytes × Stream :=
  if s.isEtm then
    let (last, cipher) := s.cipher.crypt (start.drop 4)
    (start.take 4 ++ last, cipher)
  else s.cipher.crypt start

/-- The length is read first, and checked before so many bytes are waited for. -/
def readCipherPacket (s : StreamPacketCipher) (seqNum : UInt32) (bs : Bytes) :
    Except Failure (Bytes × StreamPacketCipher × Bytes) := do
  let (start, bs) ← readFrom prefixLen bs
  let (header, cipher) := s.openHeader start
  let length := getUint32 header
  let paddingLength := (header.getD 4 0).toNat
  if length ≤ paddingLength + 1 then .error (.error "ssh: invalid packet length, packet too small")
  else if maxPacket < length then .error (.error "ssh: invalid packet length, packet too large")
  else
    let (packetData, bs) ← readFrom (length - 1 + macSize s.mac) bs
    let data := packetData.take (length - 1)
    let mac := packetData.drop (length - 1)
    let (plain, cipher) := cipher.crypt data
    let written := if s.isEtm then start ++ data else header ++ plain
    if macSum s.mac seqNum written ≠ mac then .error (.error "ssh: MAC failure")
    else return (plain.take (length - paddingLength - 1), { s with cipher := cipher }, bs)

end StreamPacketCipher

/-! ### AES-GCM -/

/-- A cipher in Galois counter mode, with the number of the next packet in `iv`. -/
structure GcmCipher where
  aead : Aead
  iv : Bytes

namespace GcmCipher

/-- The length of the tag behind a packet. -/
def gcmTagSize : ℕ := 16

/-- The carry of `incIV`, from the last byte. -/
def increment : Bytes → Bytes
  | [] => []
  | b :: bs => if b + 1 ≠ 0 then (b + 1) :: bs else 0 :: increment bs

/-- `incIV`: the eight bytes behind the first four are counted up. -/
def incIV (c : GcmCipher) : GcmCipher :=
  { c with iv := c.iv.take 4 ++ (increment (c.iv.drop 4).reverse).reverse }

/-- The padding of a packet of so many bytes. -/
def paddingLength (n : ℕ) : ℕ := padTo packetSizeMultiple (1 + n)

/-- A packet as it is on the connection: the length in the clear, and the rest sealed with it. -/
def frame (c : GcmCipher) (packet padding : Bytes) : Bytes × GcmCipher :=
  let start := putUint32 (packet.length + padding.length + 1)
  (start ++ c.aead.sealed c.iv (UInt8.ofNat padding.length :: (packet ++ padding)) start, c.incIV)

/-- A packet is padded with random bytes, and put on the connection. -/
def writeCipherPacket (c : GcmCipher) (_seqNum : UInt32) (rand packet : Bytes) :
    Except Failure (Bytes × GcmCipher × Bytes) := do
  let (padding, rand) ← readFrom (paddingLength packet.length) rand
  let (out, c) := c.frame packet padding
  return (out, c, rand)

/-- `readCipherPacket`, the payload of what was opened. -/
def payload (length : ℕ) (plain : Bytes) : Except Failure Bytes :=
  match plain with
  | [] => .error (.error "ssh: empty packet")
  | padding :: _ =>
    if padding < 4 then .error (.error ("ssh: illegal padding " ++ toString padding.toNat))
    -- the sum is one of bytes
    else if (padding + 1).toNat ≥ plain.length then
      .error (.error ("ssh: padding " ++ toString padding.toNat ++ " too large"))
    -- `plain[1 : length-uint32(padding)]`
    else if length < padding.toNat + 1 then .error .panics
    else .ok ((plain.take (length - padding.toNat)).drop 1)

/-- The length is read first; what is read is opened before the padding is looked at. -/
def readCipherPacket (c : GcmCipher) (_seqNum : UInt32) (bs : Bytes) :
    Except Failure (Bytes × GcmCipher × Bytes) := do
  let (start, bs) ← readFrom 4 bs
  let length := getUint32 start
  if maxPacket < length then .error (.error "ssh: max packet length exceeded")
  else
    let (buf, bs) ← readFrom (length + gcmTagSize) bs
    match c.aead.opened c.iv buf start with
    | none => .error (.error "cipher: message authentication failed")
    | some plain => return (← payload length plain, c.incIV, bs)

end GcmCipher

/-! ### Block ciphers -/

/-- A block cipher in CBC mode. The last block of a packet is chained to the next one. -/
structure CbcCipher where
  mac : Option Hash
  block : Block
  /-- The block that the next call of `encrypter.CryptBlocks` is chained to. -/
  encrypter : Bytes
  decrypter : Bytes

namespace CbcCipher

/-- The least multiple that a packet is padded to. -/
def cbcMinPacketSizeMultiple : ℕ := 8

/-- The least length of a packet with its padding. -/
def cbcMinPacketSize : ℕ := 16

/-- The least length of a padding. -/
def cbcMinPaddingSize : ℕ := 4

/-- The length of the encrypted part of a packet. -/
def encLength (c : CbcCipher) (n : ℕ) : ℕ :=
  let effectiveBlockSize := max cbcMinPacketSizeMultiple c.block.size
  let encLength := max (prefixLen + n + cbcMinPaddingSize) cbcMinPaddingSize
  (encLength + effectiveBlockSize - 1) / effectiveBlockSize * effectiveBlockSize

/-- The padding of a packet of so many bytes. -/
def paddingLength (c : CbcCipher) (n : ℕ) : ℕ := c.encLength n - 4 - (1 + n)

/-- What is encrypted for a packet and its padding. -/
def packetData (c : CbcCipher) (packet padding : Bytes) : Bytes :=
  putUint32 (c.encLength packet.length - 4) ++ UInt8.ofNat padding.length :: (packet ++ padding)

/-- A packet as it is on the connection: the tag is of the text, and is not encrypted. -/
def frame (c : CbcCipher) (seqNum : UInt32) (packet padding : Bytes) :
    Bytes × CbcCipher :=
  let packetData := c.packetData packet padding
  let tag := macSum c.mac seqNum packetData
  let (out, encrypter) :=
    cbcEncrypt c.block (c.encLength packet.length / c.block.size) c.encrypter packetData
  (out ++ tag, { c with encrypter := encrypter })

/-- A packet is padded with random bytes, and put on the connection. -/
def writeCipherPacket (c : CbcCipher) (seqNum : UInt32) (rand packet : Bytes) :
    Except Failure (Bytes × CbcCipher × Bytes) := do
  let (padding, rand) ← readFrom (c.paddingLength packet.length) rand
  let (out, c) := c.frame seqNum packet padding
  return (out, c, rand)

/-- `readCipherPacketLeaky`. What `readCipherPacket` does beside it is to read on after an error. -/
def readCipherPacket (c : CbcCipher) (seqNum : UInt32) (bs : Bytes) :
    Except Failure (Bytes × CbcCipher × Bytes) := do
  let blockSize := c.block.size
  let firstBlockLength := (prefixLen + blockSize - 1) / blockSize * blockSize
  let (firstBlock, bs) ← readFrom firstBlockLength bs
  let (first, decrypter) := cbcDecrypt c.block (firstBlockLength / blockSize) c.decrypter firstBlock
  let length := getUint32 first
  let paddingLength := (first.getD 4 0).toNat
  if maxPacket < length then .error (.error "ssh: packet too large")
  else if length + 4 < max cbcMinPacketSize blockSize then .error (.error "ssh: packet too small")
  else if (length + 4) % max cbcMinPacketSizeMultiple blockSize ≠ 0 then
    .error (.error "ssh: invalid packet length multiple")
  else if paddingLength < cbcMinPaddingSize ∨ length ≤ paddingLength + 1 then
    .error (.error "ssh: invalid packet length")
  else
    let macStart := 4 + length
    let (packetData, bs) ← readFrom (macStart + macSize c.mac - firstBlockLength) bs
    let remainingCrypted := packetData.take (macStart - firstBlockLength)
    let mac := packetData.drop (macStart - firstBlockLength)
    let (remaining, decrypter) :=
      cbcDecrypt c.block ((macStart - firstBlockLength) / blockSize) decrypter remainingCrypted
    let plain := first ++ remaining
    if macSum c.mac seqNum plain ≠ mac then .error (.error "ssh: MAC failure")
    else return ((plain.take (macStart - paddingLength)).drop prefixLen,
      { c with decrypter := decrypter }, bs)

end CbcCipher

/-! ### ChaCha20 and Poly1305 -/

/-- The two keys, each as what ChaCha20 makes of a nonce under it. -/
structure ChaCha20Poly1305Cipher where
  lengthKey : Bytes → ℕ → UInt8
  contentKey : Bytes → ℕ → UInt8

namespace ChaCha20Poly1305Cipher

/-- The number of a packet in twelve bytes. -/
def nonce (seqNum : UInt32) : Bytes := List.replicate 8 0 ++ putUint32 seqNum.toNat

/-- The key of Poly1305 for a packet, and the stream behind it and the 32 bytes that are skipped. -/
def polyKey (c : ChaCha20Poly1305Cipher) (seqNum : UInt32) : Bytes × Stream :=
  let (polyKey, s) := Stream.crypt ⟨c.contentKey (nonce seqNum), 0⟩ (List.replicate 32 0)
  let (_, s) := s.crypt (List.replicate 32 0)
  (polyKey, s)

/-- The stream that the length of a packet is encrypted with. -/
def lengthStream (c : ChaCha20Poly1305Cipher) (seqNum : UInt32) : Stream :=
  ⟨c.lengthKey (nonce seqNum), 0⟩

/-- A call of Poly1305, a panic of which is one of the caller. -/
def orPanics {α : Type} (r : Except String α) : Except Failure α := r.mapError fun _ ↦ .panics

/-- The padding of a packet of so many bytes. -/
def paddingLength (n : ℕ) : ℕ := padTo 8 (1 + n)

/-- A packet as it is on the connection: the length under one key, the rest under another, and the
tag of both. -/
def frame (c : ChaCha20Poly1305Cipher) (seqNum : UInt32) (payload padding : Bytes) :
    Except Failure Bytes := do
  let (polyKey, s) := c.polyKey seqNum
  let start :=
    ((c.lengthStream seqNum).crypt (putUint32 (1 + payload.length + padding.length))).1
  let content := (s.crypt (UInt8.ofNat padding.length :: (payload ++ padding))).1
  let mac ← orPanics (Poly1305.sum (start ++ content) polyKey)
  return start ++ content ++ mac

/-- A packet is padded with random bytes, and put on the connection. -/
def writeCipherPacket (c : ChaCha20Poly1305Cipher) (seqNum : UInt32) (rand payload : Bytes) :
    Except Failure (Bytes × ChaCha20Poly1305Cipher × Bytes) := do
  let (padding, rand) ← readFrom (paddingLength payload.length) rand
  return (← c.frame seqNum payload padding, c, rand)

/-- `readCipherPacket`, the payload of what was decrypted. -/
def payload (plain : Bytes) : Except Failure Bytes :=
  match plain with
  | [] => .error (.error "ssh: empty packet")
  | padding :: _ =>
    if padding < 4 then .error (.error ("ssh: illegal padding " ++ toString padding.toNat))
    else if padding.toNat + 1 ≥ plain.length then
      .error (.error ("ssh: padding " ++ toString padding.toNat ++ " too large"))
    else .ok ((plain.take (plain.length - padding.toNat)).drop 1)

/-- The length is read first, and the tag is checked before the rest is decrypted. -/
def readCipherPacket (c : ChaCha20Poly1305Cipher) (seqNum : UInt32) (bs : Bytes) :
    Except Failure (Bytes × ChaCha20Poly1305Cipher × Bytes) := do
  let (polyKey, s) := c.polyKey seqNum
  let (encryptedLength, bs) ← readFrom 4 bs
  let length := getUint32 ((c.lengthStream seqNum).crypt encryptedLength).1
  if maxPacket < length then .error (.error "ssh: invalid packet length, packet too large")
  else
    let (buf, bs) ← readFrom (length + Poly1305.tagSize) bs
    let content := buf.take length
    let mac := buf.drop length
    let verified ← orPanics (Poly1305.verify mac (encryptedLength ++ content) polyKey)
    if verified = false then .error (.error "ssh: MAC failure")
    else return (← payload (s.crypt content).1, c, bs)

end ChaCha20Poly1305Cipher

/-! ### Any of them -/

/-- `packetCipher` -/
inductive PacketCipher
  | stream (c : StreamPacketCipher)
  | gcm (c : GcmCipher)
  | cbc (c : CbcCipher)
  | chaCha20Poly1305 (c : ChaCha20Poly1305Cipher)

namespace PacketCipher

/-- The result of a cipher of one kind, among all. -/
def wrap {σ : Type} (make : σ → PacketCipher) (r : Except Failure (Bytes × σ × Bytes)) :
    Except Failure (Bytes × PacketCipher × Bytes) :=
  r.map fun (bs, c, rest) ↦ (bs, make c, rest)

/-- `writeCipherPacket` of the cipher that there is. -/
def writeCipherPacket (c : PacketCipher) (seqNum : UInt32) (rand packet : Bytes) :
    Except Failure (Bytes × PacketCipher × Bytes) :=
  match c with
  | stream c => wrap stream (c.writeCipherPacket seqNum rand packet)
  | gcm c => wrap gcm (c.writeCipherPacket seqNum rand packet)
  | cbc c => wrap cbc (c.writeCipherPacket seqNum rand packet)
  | chaCha20Poly1305 c => wrap chaCha20Poly1305 (c.writeCipherPacket seqNum rand packet)

/-- `readCipherPacket` of the cipher that there is. -/
def readCipherPacket (c : PacketCipher) (seqNum : UInt32) (bs : Bytes) :
    Except Failure (Bytes × PacketCipher × Bytes) :=
  match c with
  | stream c => wrap stream (c.readCipherPacket seqNum bs)
  | gcm c => wrap gcm (c.readCipherPacket seqNum bs)
  | cbc c => wrap cbc (c.readCipherPacket seqNum bs)
  | chaCha20Poly1305 c => wrap chaCha20Poly1305 (c.readCipherPacket seqNum bs)

end PacketCipher

end Ssh
