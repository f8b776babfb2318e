import Isle.Ssh.Messages

/-!
# What the two ends agree on

`findAgreedAlgorithms` of `pkg/crypto/ssh/common.go`, and the `cipherModes` and `macModes` that the
names in it are looked up in, with `newPacketCipher` and `generateKeyMaterial` of `transport.go`.
The ciphers and hashes of the standard library are `Primitives`; which of them, with keys of which
length, and from which bytes, is the source's.

Either end calls `findAgreedAlgorithms` with the same two `kexInit`s, and what the one writes with
is what the other reads with (`findAgreedAlgorithms_mirror`). So the ciphers of a direction are made
from the same names and the same bytes at both ends, and `sync_newPacketCipher` says that they are
at the same place.
-/

namespace Ssh

open Crypto (Stream Hash Aead Block)

/-! ### Negotiation -/

/-- A text of bytes, with a character for each. -/
def textOf (bs : Bytes) : String := String.ofList (bs.map fun b ↦ Char.ofNat b.toNat)

/-- A `[]string` under `%v`. -/
def showNames (names : List Bytes) : String :=
  "[" ++ " ".intercalate (names.map textOf) ++ "]"

/-- The first name of the client that the server has too. -/
def findCommon (what : String) (client server : List Bytes) : Except String Bytes :=
  match client.find? fun c ↦ server.any fun s ↦ c == s with
  | some c => .ok c
  | none =>
    .error ("ssh: no common algorithm for " ++ what ++ "; client offered: " ++ showNames client ++
      ", server offered: " ++ showNames server)

/-- The fields of a `kexInitMsg`. -/
structure KexInit where
  cookie : List.Vector UInt8 16
  kexAlgos : List Bytes
  serverHostKeyAlgos : List Bytes
  ciphersClientServer : List Bytes
  ciphersServerClient : List Bytes
  macsClientServer : List Bytes
  macsServerClient : List Bytes
  compressionClientServer : List Bytes
  compressionServerClient : List Bytes
  languagesClientServer : List Bytes
  languagesServerClient : List Bytes
  firstKexFollows : Bool
  reserved : UInt32

namespace KexInit

/-- The message with these names. -/
def toStruct (m : KexInit) : Struct kexInitMsg.fields :=
  (m.cookie, m.kexAlgos, m.serverHostKeyAlgos, m.ciphersClientServer, m.ciphersServerClient,
    m.macsClientServer, m.macsServerClient, m.compressionClientServer, m.compressionServerClient,
    m.languagesClientServer, m.languagesServerClient, m.firstKexFollows, m.reserved, ())

/-- The names of a message. -/
def ofStruct : Struct kexInitMsg.fields → KexInit
  | (cookie, kexAlgos, hostKeyAlgos, cipherCS, cipherSC, macCS, macSC, compCS, compSC, langCS,
      langSC, firstKexFollows, reserved, _) =>
    ⟨cookie, kexAlgos, hostKeyAlgos, cipherCS, cipherSC, macCS, macSC, compCS, compSC, langCS,
      langSC, firstKexFollows, reserved⟩

theorem ofStruct_toStruct (m : KexInit) : ofStruct m.toStruct = m := rfl

end KexInit

/-- The algorithms of one direction. -/
structure DirectionAlgorithms where
  cipher : Bytes
  mac : Bytes
  compression : Bytes
  deriving DecidableEq

/-- What the two ends agree on, as one of them sees it: `w` is for what it writes. -/
structure Algorithms where
  kex : Bytes
  hostKey : Bytes
  w : DirectionAlgorithms
  r : DirectionAlgorithms
  deriving DecidableEq

/-- What `findAgreedAlgorithms` finds: the algorithms from the client to the server, and back. -/
def commonAlgorithms (clientKexInit serverKexInit : KexInit) :
    Except String (Bytes × Bytes × DirectionAlgorithms × DirectionAlgorithms) := do
  let kex ← findCommon "key exchange" clientKexInit.kexAlgos serverKexInit.kexAlgos
  let hostKey ←
    findCommon "host key" clientKexInit.serverHostKeyAlgos serverKexInit.serverHostKeyAlgos
  let ctosCipher ← findCommon "client to server cipher" clientKexInit.ciphersClientServer
    serverKexInit.ciphersClientServer
  let stocCipher ← findCommon "server to client cipher" clientKexInit.ciphersServerClient
    serverKexInit.ciphersServerClient
  let ctosMac ← findCommon "client to server MAC" clientKexInit.macsClientServer
    serverKexInit.macsClientServer
  let stocMac ← findCommon "server to client MAC" clientKexInit.macsServerClient
    serverKexInit.macsServerClient
  let ctosCompression ← findCommon "client to server compression"
    clientKexInit.compressionClientServer serverKexInit.compressionClientServer
  let stocCompression ← findCommon "server to client compression"
    clientKexInit.compressionServerClient serverKexInit.compressionServerClient
  return (kex, hostKey, ⟨ctosCipher, ctosMac, ctosCompression⟩,
    ⟨stocCipher, stocMac, stocCompression⟩)

/-- What is agreed on, as the client or the server sees it. -/
def findAgreedAlgorithms (isClient : Bool) (clientKexInit serverKexInit : KexInit) :
    Except String Algorithms :=
  (commonAlgorithms clientKexInit serverKexInit).map fun (kex, hostKey, ctos, stoc) ↦
    if isClient then ⟨kex, hostKey, ctos, stoc⟩ else ⟨kex, hostKey, stoc, ctos⟩

/-- What the other end has. -/
def Algorithms.mirror (a : Algorithms) : Algorithms := { a with w := a.r, r := a.w }

/-- **The ends agree**, on the algorithms or on the error. -/
theorem findAgreedAlgorithms_mirror (clientKexInit serverKexInit : KexInit) :
    findAgreedAlgorithms false clientKexInit serverKexInit =
      (findAgreedAlgorithms true clientKexInit serverKexInit).map Algorithms.mirror := by
  rw [findAgreedAlgorithms, findAgreedAlgorithms]
  rcases commonAlgorithms clientKexInit serverKexInit with e | ⟨kex, hostKey, ctos, stoc⟩ <;> rfl

/-! ### Primitives -/

/-- The hash functions that exchanges use. -/
inductive HashFunc
  | sha1
  | sha256
  | sha384
  | sha512
  deriving DecidableEq, Repr

/-- The length of a hash. -/
def HashFunc.size : HashFunc → ℕ
  | sha1 => 20
  | sha256 => 32
  | sha384 => 48
  | sha512 => 64

theorem HashFunc.size_pos (f : HashFunc) : 0 < f.size := by
  rcases f <;> decide

/-- What the standard library and the others give. -/
structure Primitives where
  digest : (f : HashFunc) → { h : Hash // h.size = f.size }
  hmac : (f : HashFunc) → (key : Bytes) → { h : Hash // h.size = f.size }
  newAESCTR : (key iv : Bytes) → Stream
  newRC4 : (key : Bytes) → Stream
  newGCM : (key : Bytes) → Aead
  chacha20 : (key nonce : Bytes) → ℕ → UInt8
  aes : (key : Bytes) → { b : Block // b.size = 16 }
  tripleDES : (key : Bytes) → { b : Block // b.size = 8 }

/-! ### Key material -/

/-- `kexResult`. The number of the session, which is a field of it as well, is kept apart. -/
structure KexResult where
  h : Bytes
  k : Bytes
  hostKey : Bytes
  signature : Bytes
  hash : HashFunc

variable (P : Primitives)

/-- The loop of `generateKeyMaterial`, for so many bytes more. -/
def keyMaterial (r : KexResult) (sessionID tag : Bytes) (n : ℕ) (digestsSoFar : Bytes) :
    Bytes :=
  if n = 0 then []
  else
    let digest := (P.digest r.hash).1.sum (r.k ++ r.h ++
      if digestsSoFar.isEmpty then tag ++ sessionID else digestsSoFar)
    digest.take n ++ keyMaterial r sessionID tag (n - r.hash.size) (digestsSoFar ++ digest)
termination_by n
decreasing_by
  have := r.hash.size_pos
  omega

/-- `generateKeyMaterial` of so many bytes. -/
def generateKeyMaterial (r : KexResult) (sessionID tag : Bytes) (n : ℕ) : Bytes :=
  keyMaterial P r sessionID tag n []

theorem length_keyMaterial (r : KexResult) (sessionID tag : Bytes) (n : ℕ) (digestsSoFar : Bytes) :
    (keyMaterial P r sessionID tag n digestsSoFar).length = n := by
  induction n using Nat.strongRecOn generalizing digestsSoFar with
  | ind n ih =>
    have hsize : ∀ written, ((P.digest r.hash).1.sum written).length = r.hash.size := fun written ↦
      ((P.digest r.hash).1.length_sum written).trans (P.digest r.hash).2
    have hpos := r.hash.size_pos
    rw [keyMaterial]
    rcases eq_or_ne n 0 with hn | hn
    · rw [if_pos hn, hn]
      rfl
    · rw [if_neg hn]
      dsimp only
      rw [List.length_append, List.length_take, hsize, ih _ (by omega)]
      omega

theorem length_generateKeyMaterial (r : KexResult) (sessionID tag : Bytes) (n : ℕ) :
    (generateKeyMaterial P r sessionID tag n).length = n :=
  length_keyMaterial P r sessionID tag n []

/-! ### Ciphers -/

/-- A MAC: the size of its key, whether it is of the bytes that are encrypted, and how it is
made. -/
structure MacMode where
  keySize : ℕ
  etm : Bool
  new : Bytes → Hash

/-- The first bytes of a MAC. -/
def truncatingMAC (length : ℕ) (mac : Hash) (h : length ≤ mac.size) : Hash where
  size := length
  sum written := (mac.sum written).take length
  length_sum written := List.length_take_of_le (by rw [mac.length_sum]; exact h)

/-- The MACs by their names, each with the size of its key. -/
def macModes (name : Bytes) : Option MacMode :=
  if name = Text.ascii "hmac-sha2-256-etm@openssh.com" then
    some ⟨32, true, fun key ↦ (P.hmac .sha256 key).1⟩
  else if name = Text.ascii "hmac-sha2-256" then
    some ⟨32, false, fun key ↦ (P.hmac .sha256 key).1⟩
  else if name = Text.ascii "hmac-sha1" then some ⟨20, false, fun key ↦ (P.hmac .sha1 key).1⟩
  else if name = Text.ascii "hmac-sha1-96" then
    some ⟨20, false, fun key ↦
      truncatingMAC 12 (P.hmac .sha1 key).1 (by rw [(P.hmac .sha1 key).2]; decide)⟩
  else none

/-- `cipherMode`. What `create` reads of the algorithms is the MAC. -/
structure CipherMode where
  keySize : ℕ
  ivSize : ℕ
  create : (key iv macKey : Bytes) → MacMode → PacketCipher

/-- The loop that drops the start of a stream, 512 bytes at a time. -/
def dump (stream : Stream) (remainingToDump : ℕ) : Stream :=
  if remainingToDump = 0 then stream
  else
    dump (stream.crypt (List.replicate (min remainingToDump 512) 0)).2
      (remainingToDump - min remainingToDump 512)
termination_by remainingToDump

/-- A stream cipher, which throws the first bytes of its stream away. -/
def streamCipherMode (skip : ℕ) (createFunc : (key iv : Bytes) → Stream)
    (key iv macKey : Bytes) (mac : MacMode) : PacketCipher :=
  .stream ⟨some (mac.new macKey), dump (createFunc key iv) skip, mac.etm⟩

/-- GCM, which has no use for a MAC. -/
def newGCMCipher (key iv _unusedMacKey : Bytes) (_unusedMac : MacMode) : PacketCipher :=
  .gcm ⟨P.newGCM key, iv⟩

/-- ChaCha20 with Poly1305: the second half of the key is for the length of a packet. -/
def newChaCha20Cipher (key _unusedIV _unusedMACKey : Bytes) (_unusedMac : MacMode) :
    PacketCipher :=
  .chaCha20Poly1305 ⟨P.chacha20 (key.drop 32), P.chacha20 (key.take 32)⟩

/-- A block cipher in CBC mode, with one chain for each direction. -/
def newCBCCipher (c : Block) (iv macKey : Bytes) (mac : MacMode) : PacketCipher :=
  .cbc ⟨some (mac.new macKey), c, iv, iv⟩

/-- AES in CBC mode. -/
def newAESCBCCipher (key iv macKey : Bytes) (mac : MacMode) : PacketCipher :=
  newCBCCipher (P.aes key).1 iv macKey mac

/-- Triple DES in CBC mode. -/
def newTripleDESCBCCipher (key iv macKey : Bytes) (mac : MacMode) : PacketCipher :=
  newCBCCipher (P.tripleDES key).1 iv macKey mac

/-- The entries of `cipherModes`. -/
def cipherModeEntries : List (Bytes × CipherMode) :=
  [(Text.ascii "aes128-ctr", ⟨16, 16, streamCipherMode 0 P.newAESCTR⟩),
    (Text.ascii "aes192-ctr", ⟨24, 16, streamCipherMode 0 P.newAESCTR⟩),
    (Text.ascii "aes256-ctr", ⟨32, 16, streamCipherMode 0 P.newAESCTR⟩),
    (Text.ascii "arcfour128", ⟨16, 0, streamCipherMode 1536 fun key _ ↦ P.newRC4 key⟩),
    (Text.ascii "arcfour256", ⟨32, 0, streamCipherMode 1536 fun key _ ↦ P.newRC4 key⟩),
    (Text.ascii "arcfour", ⟨16, 0, streamCipherMode 0 fun key _ ↦ P.newRC4 key⟩),
    (Text.ascii "aes128-gcm@openssh.com", ⟨16, 12, newGCMCipher P⟩),
    (Text.ascii "chacha20-poly1305@openssh.com", ⟨64, 0, newChaCha20Cipher P⟩),
    (Text.ascii "aes128-cbc", ⟨16, 16, newAESCBCCipher P⟩),
    (Text.ascii "3des-cbc", ⟨24, 8, newTripleDESCBCCipher P⟩)]

/-- The ciphers by their names. -/
def cipherModes (name : Bytes) : Option CipherMode := (cipherModeEntries P).lookup name

/-- The letters that set the keys of one direction apart. -/
structure Direction where
  ivTag : Bytes
  keyTag : Bytes
  macKeyTag : Bytes

/-- The letters for what the server writes. -/
def serverKeys : Direction := ⟨Text.ascii "B", Text.ascii "D", Text.ascii "F"⟩

/-- The letters for what the client writes. -/
def clientKeys : Direction := ⟨Text.ascii "A", Text.ascii "C", Text.ascii "E"⟩

/-- `newPacketCipher`. A name that is in no map is a panic there. -/
def newPacketCipher (d : Direction) (algs : DirectionAlgorithms) (kex : KexResult)
    (sessionID : Bytes) : Except String PacketCipher :=
  match cipherModes P algs.cipher, macModes P algs.mac with
  | some cipherMode, some macMode =>
    let iv := generateKeyMaterial P kex sessionID d.ivTag cipherMode.ivSize
    let key := generateKeyMaterial P kex sessionID d.keyTag cipherMode.keySize
    let macKey := generateKeyMaterial P kex sessionID d.macKeyTag macMode.keySize
    .ok (cipherMode.create key iv macKey macMode)
  | _, _ => .error "runtime error: invalid memory address or nil pointer dereference"

/-- A chain that both ends begin with the same block. -/
theorem sync_newCBCCipher {c : Block} {iv : Bytes} (macKey : Bytes) (mac : MacMode)
    (hsize : c.size = 8 ∨ c.size = 16) (hiv : iv.length = c.size) :
    (newCBCCipher c iv macKey mac).Sync (newCBCCipher c iv macKey mac) :=
  show CbcCipher.Sync _ _ from ⟨rfl, rfl, rfl, hiv, hsize⟩

theorem sync_create {name : Bytes} {mode : CipherMode} (h : (name, mode) ∈ cipherModeEntries P)
    (key : Bytes) {iv : Bytes} (macKey : Bytes) (mac : MacMode) (hiv : iv.length = mode.ivSize) :
    (mode.create key iv macKey mac).Sync (mode.create key iv macKey mac) := by
  -- all but the block ciphers have no state that the two ends could begin differently
  have hentries : ∀ entry ∈ cipherModeEntries P, iv.length = entry.2.ivSize →
      (entry.2.create key iv macKey mac).Sync (entry.2.create key iv macKey mac) := by
    simp only [cipherModeEntries, List.forall_mem_cons]
    refine ⟨fun _ ↦ rfl, fun _ ↦ rfl, fun _ ↦ rfl, fun _ ↦ rfl, fun _ ↦ rfl, fun _ ↦ rfl,
      fun _ ↦ rfl, fun _ ↦ rfl, fun hiv ↦ ?_, fun hiv ↦ ?_, nofun⟩
    · exact sync_newCBCCipher macKey mac (.inr (P.aes key).2) (hiv.trans (P.aes key).2.symm)
    · exact sync_newCBCCipher macKey mac (.inl (P.tripleDES key).2)
        (hiv.trans (P.tripleDES key).2.symm)
  exact hentries _ h hiv

/-- **The ciphers that the two ends make for a direction** are at the same place. -/
theorem sync_newPacketCipher {d : Direction} {algs : DirectionAlgorithms} {kex : KexResult}
    {sessionID : Bytes} {cipher : PacketCipher}
    (h : newPacketCipher P d algs kex sessionID = .ok cipher) : cipher.Sync cipher := by
  rw [newPacketCipher] at h
  split at h
  next cipherMode macMode hcipher _ =>
    cases h
    obtain ⟨before, behind, hentries, -⟩ := List.lookup_eq_some_iff.1 hcipher
    have hmem : (algs.cipher, cipherMode) ∈ cipherModeEntries P := by
      rw [hentries]
      exact List.mem_append_right _ List.mem_cons_self
    exact sync_create P hmem _ _ _ (length_generateKeyMaterial P kex sessionID _ _)
  next => cases h

end Ssh
