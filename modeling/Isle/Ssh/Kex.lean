import Isle.Ssh.Algorithms
import Isle.Ssh.Handshake

/-!
# The key exchanges

`kex.go` of `pkg/crypto/ssh`. Each half of an exchange is a `Dialogue`: what it sends and receives
is there, and so is every error that ends it. The random numbers of an exchange are given
(`Ephemeral`), and so are the curves, which are the standard library's.

The exchanges with two messages, over the two groups and over curves, differ in what a public value
is and in how two of them make a secret. They are one process with that as its parameter
(`TwoMessage`); the group exchange with its four messages is a process of its own.
-/

namespace Ssh

open Crypto (Hash)

/-! ### What an exchange works with -/

/-- What of the handshake goes into the hash of an exchange. -/
structure HandshakeMagics where
  clientVersion : Bytes
  serverVersion : Bytes
  clientKexInit : Bytes
  serverKexInit : Bytes

/-- What is written to the hash: each part with its length in front. -/
def HandshakeMagics.write (m : HandshakeMagics) : Bytes :=
  appendString m.clientVersion ++ appendString m.serverVersion ++ appendString m.clientKexInit ++
    appendString m.serverKexInit

/-- A signature: the name of its algorithm, and the bytes that algorithm makes. -/
structure Signature where
  format : Bytes
  blob : Bytes
  rest : Bytes

/-- `Signature`, which has no `sshtype`. -/
def signatureMsg : StructType :=
  ⟨"Signature", [], ⟨"Format", .string⟩, [⟨"Blob", .bytes⟩, ⟨"Rest", .rest⟩]⟩

/-- A signature as it is sent. -/
def Signature.marshal (s : Signature) : Bytes :=
  Ssh.marshal signatureMsg (s.format, s.blob, s.rest, ())

/-- `Signer`, with the random bytes that a signature may take. -/
structure Signer where
  /-- `PublicKey().Type()` -/
  type : Bytes
  /-- `PublicKey().Marshal()` -/
  publicKey : Bytes
  sign : Bytes → Except String Signature
  /-- `SignWithAlgorithm`, of a signer that has it. -/
  signWithAlgorithm : Option (Bytes → Bytes → Except String Signature)

/-- The signature of some data, as it is sent. -/
def signAndMarshal (k : Signer) (data : Bytes) : Except String Bytes :=
  (k.sign data).map Signature.marshal

/-- What is drawn for one half of an exchange: a number for a group or a curve, and bytes for
`curve25519`. -/
structure Ephemeral where
  exponent : ℕ
  priv : Bytes

/-- A half of an exchange. -/
abbrev KexProcess : Type := Dialogue Bytes NewKeys (Except String KexResult)

/-- `kexAlgorithm`. The server's half has the host key that `server` found, which may be none. -/
structure KexAlgorithm where
  client : Ephemeral → HandshakeMagics → KexProcess
  server : Ephemeral → HandshakeMagics → Option Signer → KexProcess

/-- What a nil pointer ends in. -/
def nilDereference : String := "runtime error: invalid memory address or nil pointer dereference"

/-- A host key where there has to be one. -/
def theSigner : Option Signer → Except String Signer
  | none => .error nilDereference
  | some priv => .ok priv

variable (P : Primitives)

/-! ### Exchanges with two messages -/

/-- What such an exchange depends on. -/
structure TwoMessage (π : Type) where
  hashFunc : HashFunc
  publicKey : Ephemeral → π
  marshalInit : π → Bytes
  unmarshalInit : Bytes → Except String π
  marshalReply : (hostKey : Bytes) → π → (signature : Bytes) → Bytes
  unmarshalReply : Bytes → Except String (Bytes × π × Bytes)
  /-- What of a public value goes into the hash. -/
  write : π → Bytes
  /-- The secret that is made of the own half and the other's public value. -/
  secret : Ephemeral → π → Except String ℤ

namespace TwoMessage

variable {π : Type} (kex : TwoMessage π)

/-- The hash that the server signs: both version lines and packets, the host key, and what was
exchanged. -/
def hash (magics : HandshakeMagics) (hostKey : Bytes) (x y : π) (k : Bytes) :
    Bytes :=
  (P.digest kex.hashFunc).1.sum
    (magics.write ++ appendString hostKey ++ kex.write x ++ kex.write y ++ k)

/-- The client sends its public value and waits for that of the server, with the host key and the
signature. -/
def client (a : Ephemeral) (magics : HandshakeMagics) : KexProcess :=
  let x := kex.publicKey a
  .send (kex.marshalInit x) <| .recv fun packet ↦ .ret do
    let (hostKey, y, signature) ← kex.unmarshalReply packet
    let ki ← kex.secret a y
    let k := marshalInt ki
    return ⟨kex.hash P magics hostKey x y k, k, hostKey, signature, kex.hashFunc⟩

/-- What the server makes of the client's public value. -/
def answer (b : Ephemeral) (magics : HandshakeMagics) (priv : Option Signer)
    (packet : Bytes) : Except String KexResult := do
  let x ← kex.unmarshalInit packet
  let ki ← kex.secret b x
  let priv ← theSigner priv
  let k := marshalInt ki
  let h := kex.hash P magics priv.publicKey x (kex.publicKey b) k
  let signature ← signAndMarshal priv h
  return ⟨h, k, priv.publicKey, signature, kex.hashFunc⟩

/-- The server waits for a public value, and answers with its own. -/
def server (b : Ephemeral) (magics : HandshakeMagics) (priv : Option Signer) : KexProcess :=
  .recv fun packet ↦
    match kex.answer P b magics priv packet with
    | .error e => .ret (.error e)
    | .ok r => .send (kex.marshalReply r.hostKey (kex.publicKey b) r.signature) (.ret (.ok r))

/-- The two halves, as they are in `kexAlgoMap`. -/
def algorithm : KexAlgorithm := ⟨kex.client P, kex.server P⟩

end TwoMessage

/-- The group of a Diffie-Hellman exchange: its generator and its modulus. -/
structure DhGroup where
  g : ℤ
  p : ℤ

namespace DhGroup

/-- The secret. A public value that is no member of the group, or of order two at most, is refused.
-/
def diffieHellman (group : DhGroup) (theirPublic : ℤ) (myPrivate : ℕ) : Except String ℤ :=
  if theirPublic ≤ 1 ∨ theirPublic ≥ group.p - 1 then .error "ssh: DH parameter out of bounds"
  else .ok (theirPublic ^ myPrivate % group.p)

/-- The exchange in a fixed group. -/
def twoMessage (group : DhGroup) : TwoMessage ℤ where
  hashFunc := .sha1
  publicKey a := group.g ^ a.exponent % group.p
  marshalInit x := marshal kexDHInitMsg (x, ())
  unmarshalInit packet := (unmarshal kexDHInitMsg packet).map fun (x, _) ↦ x
  marshalReply hostKey y signature := marshal kexDHReplyMsg (hostKey, y, signature, ())
  unmarshalReply packet :=
    (unmarshal kexDHReplyMsg packet).map fun (hostKey, y, signature, _) ↦ (hostKey, y, signature)
  write := marshalInt
  secret a y := group.diffieHellman y a.exponent

end DhGroup

/-- The public value of the client, as bytes. -/
def kexECDHInitMsg : StructType := ⟨"kexECDHInitMsg", [30], ⟨"ClientPubKey", .bytes⟩, []⟩

/-- The host key, the public value of the server as bytes, and the signature. -/
def kexECDHReplyMsg : StructType :=
  ⟨"kexECDHReplyMsg", [31], ⟨"HostKey", .bytes⟩, [⟨"EphemeralPubKey", .bytes⟩,
    ⟨"Signature", .bytes⟩]⟩

/-- The two exchanges over curves, which send their public values as bytes. -/
def curveMessages (hashFunc : HashFunc) (publicKey : Ephemeral → Bytes)
    (secret : Ephemeral → Bytes → Except String ℤ) : TwoMessage Bytes where
  hashFunc := hashFunc
  publicKey := publicKey
  marshalInit x := marshal kexECDHInitMsg (x, ())
  unmarshalInit packet := (unmarshal kexECDHInitMsg packet).map fun (x, _) ↦ x
  marshalReply hostKey y signature := marshal kexECDHReplyMsg (hostKey, y, signature, ())
  unmarshalReply packet :=
    (unmarshal kexECDHReplyMsg packet).map fun (hostKey, y, signature, _) ↦ (hostKey, y, signature)
  write := appendString
  secret := secret

/-- `elliptic.Curve`, with the functions of the package on it. -/
structure EllipticCurve where
  p : ℤ
  bitSize : ℕ
  isOnCurve : ℤ → ℤ → Bool
  /-- `ScalarMult`, the first of the two. -/
  scalarMult : ℤ → ℤ → ℕ → ℤ
  /-- `elliptic.Marshal` of what `ecdsa.GenerateKey` makes of a number. -/
  publicKey : ℕ → Bytes
  /-- `elliptic.Unmarshal` -/
  unmarshal : Bytes → Option (ℤ × ℤ)

namespace EllipticCurve

/-- The point is on the curve, and not at infinity. -/
def validateECPublicKey (curve : EllipticCurve) (x y : ℤ) : Bool :=
  !(x == 0 && y == 0) && x < curve.p && y < curve.p && curve.isOnCurve x y

/-- A point from its bytes, if it is valid. -/
def unmarshalECKey (curve : EllipticCurve) (pubkey : Bytes) : Except String (ℤ × ℤ) :=
  match curve.unmarshal pubkey with
  | none => .error "ssh: elliptic.Unmarshal failure"
  | some (x, y) =>
    if curve.validateECPublicKey x y then .ok (x, y)
    else .error "ssh: public key not on curve"

/-- The hash that goes with a curve of that size. -/
def ecHash (curve : EllipticCurve) : HashFunc :=
  if curve.bitSize ≤ 256 then .sha256 else if curve.bitSize ≤ 384 then .sha384 else .sha512

/-- The exchange `ecdh` over a curve. -/
def twoMessage (curve : EllipticCurve) : TwoMessage Bytes :=
  curveMessages curve.ecHash (fun a ↦ curve.publicKey a.exponent) fun a pubkey ↦
    (curve.unmarshalECKey pubkey).map fun (x, y) ↦ curve.scalarMult x y a.exponent

end EllipticCurve

/-- The package `curve25519`. -/
structure Curve25519 where
  scalarBaseMult : Bytes → Bytes
  scalarMult : (priv pub : Bytes) → Bytes

/-- The exchange `curve25519sha256`: a secret of zeros is refused. -/
def Curve25519.twoMessage (curve : Curve25519) : TwoMessage Bytes :=
  curveMessages .sha256 (fun a ↦ curve.scalarBaseMult a.priv) fun a pub ↦
    if pub.length ≠ 32 then .error "ssh: peer's curve25519 public value has wrong length"
    else
      let secret := curve.scalarMult a.priv pub
      if secret = List.replicate 32 0 then
        .error "ssh: peer's curve25519 public value has wrong order"
      else .ok (Forward.ofBigEndian secret)

/-! ### The group exchange -/

/-- The sizes of groups the client accepts, and the one it prefers. -/
def kexDHGexRequestMsg : StructType :=
  ⟨"kexDHGexRequestMsg", [34], ⟨"MinBits", .uint32⟩, [⟨"PreferedBits", .uint32⟩,
    ⟨"MaxBits", .uint32⟩]⟩

/-- The modulus and the generator of the group the server has chosen. -/
def kexDHGexGroupMsg : StructType := ⟨"kexDHGexGroupMsg", [31], ⟨"P", .bigInt⟩, [⟨"G", .bigInt⟩]⟩

/-- The public value of the client in that group. -/
def kexDHGexInitMsg : StructType := ⟨"kexDHGexInitMsg", [32], ⟨"X", .bigInt⟩, []⟩

/-- The host key, the public value of the server, and the signature. -/
def kexDHGexReplyMsg : StructType :=
  ⟨"kexDHGexReplyMsg", [33], ⟨"HostKey", .bytes⟩, [⟨"Y", .bigInt⟩, ⟨"Signature", .bytes⟩]⟩

/-- The smallest group that the client asks for, in bits. -/
def dhGroupExchangeMinimumBits : ℕ := 2048

/-- The size of group that the client would like best. -/
def dhGroupExchangePreferredBits : ℕ := 2048

/-- The largest group that the client asks for. -/
def dhGroupExchangeMaximumBits : ℕ := 8192

/-- A number from words of 64 bits, the highest first. -/
def ofWords (words : List ℕ) : ℤ := words.foldl (fun n w ↦ n * 2 ^ 64 + w) 0

/-- `diffie-hellman-group1-sha1` -/
def group1 : DhGroup := ⟨2, ofWords
  [0xFFFFFFFFFFFFFFFF, 0xC90FDAA22168C234, 0xC4C6628B80DC1CD1, 0x29024E088A67CC74,
    0x020BBEA63B139B22, 0x514A08798E3404DD, 0xEF9519B3CD3A431B, 0x302B0A6DF25F1437,
    0x4FE1356D6D51C245, 0xE485B576625E7EC6, 0xF44C42E9A637ED6B, 0x0BFF5CB6F406B7ED,
    0xEE386BFB5A899FA5, 0xAE9F24117C4B1FE6, 0x49286651ECE65381, 0xFFFFFFFFFFFFFFFF]⟩

/-- `diffie-hellman-group14-sha1` -/
def group14 : DhGroup := ⟨2, ofWords
  [0xFFFFFFFFFFFFFFFF, 0xC90FDAA22168C234, 0xC4C6628B80DC1CD1, 0x29024E088A67CC74,
    0x020BBEA63B139B22, 0x514A08798E3404DD, 0xEF9519B3CD3A431B, 0x302B0A6DF25F1437,
    0x4FE1356D6D51C245, 0xE485B576625E7EC6, 0xF44C42E9A637ED6B, 0x0BFF5CB6F406B7ED,
    0xEE386BFB5A899FA5, 0xAE9F24117C4B1FE6, 0x49286651ECE45B3D, 0xC2007CB8A163BF05,
    0x98DA48361C55D39A, 0x69163FA8FD24CF5F, 0x83655D23DCA3AD96, 0x1C62F356208552BB,
    0x9ED529077096966D, 0x670C354E4ABC9804, 0xF1746C08CA18217C, 0x32905E462E36CE3B,
    0xE39E772C180E8603, 0x9B2783A2EC07A28F, 0xB5C55DF06F4C52C9, 0xDE2BCBF695581718,
    0x3995497CEA956AE5, 0x15D2261898FA0510, 0x15728E5A8AACAA68, 0xFFFFFFFFFFFFFFFF]⟩

/-- The exchange in which the server chooses the group. -/
structure DhGexSHA where
  hashFunc : HashFunc

namespace DhGexSHA

variable (gex : DhGexSHA)

/-- The secret. Of the public value only zero and what is no residue are refused. -/
def diffieHellman (p theirPublic : ℤ) (myPrivate : ℕ) : Except String ℤ :=
  if theirPublic ≤ 0 ∨ theirPublic ≥ p then .error "ssh: DH parameter out of bounds"
  else .ok (theirPublic ^ myPrivate % p)

/-- The hash that the server signs: the sizes that were asked for and the group are in it too. -/
def hash (magics : HandshakeMagics) (hostKey : Bytes) (p g x y : ℤ) (k : Bytes) :
    Bytes :=
  (P.digest gex.hashFunc).1.sum
    (magics.write ++ appendString hostKey ++ putUint32 dhGroupExchangeMinimumBits ++
      putUint32 dhGroupExchangePreferredBits ++ putUint32 dhGroupExchangeMaximumBits ++
      marshalInt p ++ marshalInt g ++ marshalInt x ++ marshalInt y ++ k)

/-- What the client asks for first. -/
def request : Bytes :=
  marshal kexDHGexRequestMsg (UInt32.ofNat dhGroupExchangeMinimumBits,
    UInt32.ofNat dhGroupExchangePreferredBits, UInt32.ofNat dhGroupExchangeMaximumBits, ())

/-- The modulus and the generator that the server has chosen. -/
def unmarshalGroup (packet : Bytes) : Except String (ℤ × ℤ) :=
  (unmarshal kexDHGexGroupMsg packet).map fun (p, g, _) ↦ (p, g)

/-- The host key, the public value and the signature of the server. -/
def unmarshalReply (packet : Bytes) : Except String (Bytes × ℤ × Bytes) :=
  (unmarshal kexDHGexReplyMsg packet).map fun (hostKey, y, signature, _) ↦ (hostKey, y, signature)

/-- What the client makes of the group that the server sends. -/
def clientGroup (packet : Bytes) : Except String (ℤ × ℤ) :=
  match unmarshalGroup packet with
  | .error e => .error e
  | .ok (p, g) =>
    if bitLen p.natAbs < dhGroupExchangeMinimumBits ∨
        dhGroupExchangeMaximumBits < bitLen p.natAbs then
      .error ("ssh: server-generated gex p is out of range (" ++ toString (bitLen p.natAbs) ++
        " bits)")
    else if ¬ 1 < g ∧ ¬ g < p - 1 then .error "ssh: server provided gex g is not safe"
    -- `rand.Int` panics
    else if p / 2 ≤ 0 then .error "crypto/rand: argument to Int is <= 0"
    else .ok (p, g)

/-- What the client makes of the server's public value. -/
def clientResult (magics : HandshakeMagics) (a : Ephemeral) (p g x : ℤ) (packet : Bytes) :
    Except String KexResult :=
  match unmarshalReply packet with
  | .error e => .error e
  | .ok (hostKey, y, signature) =>
    match diffieHellman p y a.exponent with
    | .error e => .error e
    | .ok kInt =>
      if ¬ 1 < kInt ∧ ¬ kInt < p - 1 then .error "ssh: derived k is not safe"
      else
        let k := marshalInt kInt
        .ok ⟨gex.hash P magics hostKey p g x y k, k, hostKey, signature, gex.hashFunc⟩

/-- The client asks for a group, checks it, and goes on as with a fixed one. -/
def client (a : Ephemeral) (magics : HandshakeMagics) : KexProcess :=
  .send request <| .recv fun packet ↦
    match clientGroup packet with
    | .error e => .ret (.error e)
    | .ok (p, g) =>
      let x := g ^ a.exponent % p
      .send (marshal kexDHGexInitMsg (x, ())) <| .recv fun packet ↦
        .ret (gex.clientResult P magics a p g x packet)

/-- What the server makes of the client's public value. -/
def serverResult (magics : HandshakeMagics) (priv : Option Signer) (b : Ephemeral)
    (packet : Bytes) : Except String KexResult := do
  let (x, _) ← unmarshal kexDHGexInitMsg packet
  let kInt ← diffieHellman group14.p x b.exponent
  let priv ← theSigner priv
  let k := marshalInt kInt
  let y := group14.g ^ b.exponent % group14.p
  let h := gex.hash P magics priv.publicKey group14.p group14.g x y k
  let signature ← signAndMarshal priv h
  return ⟨h, k, priv.publicKey, signature, gex.hashFunc⟩

/-- The server reads the sizes that the client asks for, and takes the same group whatever they
are. -/
def server (b : Ephemeral) (magics : HandshakeMagics) (priv : Option Signer) : KexProcess :=
  .recv fun packet ↦
    match unmarshal kexDHGexRequestMsg packet with
    | .error e => .ret (.error e)
    | .ok _ =>
      .send (marshal kexDHGexGroupMsg (group14.p, group14.g, ())) <| .recv fun packet ↦
        match gex.serverResult P magics priv b packet with
        | .error e => .ret (.error e)
        | .ok r =>
          .send (marshal kexDHGexReplyMsg
              (r.hostKey, group14.g ^ b.exponent % group14.p, r.signature, ()))
            (.ret (.ok r))

/-- The two halves, as they are in `kexAlgoMap`. -/
def algorithm : KexAlgorithm := ⟨gex.client P, gex.server P⟩

end DhGexSHA

/-! ### The table of exchanges -/

/-- The curves of the standard library. -/
structure Curves where
  p256 : EllipticCurve
  p384 : EllipticCurve
  p521 : EllipticCurve
  curve25519 : Curve25519

/-- The exchanges by their names. -/
def kexAlgoMap (C : Curves) (name : Bytes) : Option KexAlgorithm :=
  if name = Text.ascii "diffie-hellman-group1-sha1" then some (group1.twoMessage.algorithm P)
  else if name = Text.ascii "diffie-hellman-group14-sha1" then
    some (group14.twoMessage.algorithm P)
  else if name = Text.ascii "ecdh-sha2-nistp521" then some (C.p521.twoMessage.algorithm P)
  else if name = Text.ascii "ecdh-sha2-nistp384" then some (C.p384.twoMessage.algorithm P)
  else if name = Text.ascii "ecdh-sha2-nistp256" then some (C.p256.twoMessage.algorithm P)
  else if name = Text.ascii "curve25519-sha256@libssh.org" then
    some (C.curve25519.twoMessage.algorithm P)
  else if name = Text.ascii "diffie-hellman-group-exchange-sha1" then
    some (DhGexSHA.algorithm P ⟨.sha1⟩)
  else if name = Text.ascii "diffie-hellman-group-exchange-sha256" then
    some (DhGexSHA.algorithm P ⟨.sha256⟩)
  else none

end Ssh
