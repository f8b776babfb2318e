import Isle.Ssh.Delivery
import Isle.Ssh.SharedSecret

/-!
# A client and a server

Two configurations that agree on an exchange in one of the fixed groups, and on a host key that the
client accepts, fit together: `Compatible.exists_agreement`. So all that is said of two ends that
agree holds of them.

What is left of the assumptions of `Agreement` is what a configuration can be wrong in, and what can
be drawn: a public value that the other end refuses. That the two halves of the exchange finish with
one result is not among them (`Compatible.agrees`), nor that the two ends make the same ciphers.
They negotiate with the same two `kexInit`s, hash the same bytes, and derive the keys of a direction
from the same names, letters and hashes, each reading with what the other writes with.
-/

namespace Ssh

open Dialogue (Finishes)

variable (P : Primitives) (L : KeyLibrary)

/-- There are a cipher and a MAC of these names. -/
def DirectionAlgorithms.Known (algs : DirectionAlgorithms) : Prop :=
  (cipherModes P algs.cipher).isSome ∧ (macModes P algs.mac).isSome

/-- What a client and a server hash of their messages. -/
def TransportConfig.magicsWith (client server : TransportConfig) (e : ℕ) : HandshakeMagics :=
  client.magics (client.initPacket e) (server.initPacket e)

/-- A public value that the other end does not refuse. -/
def DhGroup.InBounds (group : DhGroup) (a : Ephemeral) : Prop :=
  1 < group.twoMessage.publicKey a ∧ group.twoMessage.publicKey a < group.p - 1

/-- What the exchanges of a client and a server in a fixed group give. -/
def DhGroup.resultOf (group : DhGroup) (client server : TransportConfig) (priv : Signer)
    (signature : ℕ → Bytes) (e : ℕ) : KexResult :=
  group.twoMessage.result P (client.ephemeral e) (server.ephemeral e) (client.magicsWith server e)
    priv.publicKey
    (group.twoMessage.publicKey (server.ephemeral e) ^ (client.ephemeral e).exponent % group.p)
    (signature e)

/-- A client and a server that agree on algorithms and a fixed group, in which the server shows a
host key that the client accepts, with public values that neither end refuses and messages that fit
into a packet. -/
structure Compatible (client server : TransportConfig) (algs : Algorithms) (group : DhGroup)
    (priv : Signer) (signature : ℕ → Bytes) : Prop where
  isClient : client.isClient = true
  isServer : server.isClient = false
  clientVersion : server.clientVersion = client.clientVersion
  serverVersion : server.serverVersion = client.serverVersion
  survives : ∀ e, (client.kexInit e).toStruct.NamesSurvive
  survives' : ∀ e, (server.kexInit e).toStruct.NamesSurvive
  length : ∀ e, (client.initPacket e).length + 20 ≤ maxPacket
  length' : ∀ e, (server.initPacket e).length + 20 ≤ maxPacket
  agreed : ∀ e, findAgreedAlgorithms true (client.kexInit e) (server.kexInit e) = .ok algs
  exchange : kexAlgoMap P L.curves algs.kex = some (group.twoMessage.algorithm P)
  hostKey : hostKeyFor server.hostKeys algs.hostKey = some priv
  bounds : ∀ e, group.InBounds (client.ephemeral e)
  bounds' : ∀ e, group.InBounds (server.ephemeral e)
  init : ∀ e, (marshal kexDHInitMsg
    (group.twoMessage.publicKey (client.ephemeral e), ())).length + 20 ≤ maxPacket
  reply : ∀ e, (marshal kexDHReplyMsg (priv.publicKey,
    group.twoMessage.publicKey (server.ephemeral e), signature e, ())).length + 20 ≤ maxPacket
  signs : ∀ e, signAndMarshal priv (group.resultOf P client server priv signature e).h =
    .ok (signature e)
  accepted : ∀ e, client.checkHostKey L algs (group.resultOf P client server priv signature e) =
    .ok (group.resultOf P client server priv signature e)
  knownW : algs.w.Known P
  knownR : algs.r.Known P

variable {P L}

theorem exists_newPacketCipher {algs : DirectionAlgorithms} (h : algs.Known P) (d : Direction)
    (kex : KexResult) (sessionID : Bytes) :
    ∃ cipher, newPacketCipher P d algs kex sessionID = .ok cipher := by
  obtain ⟨cipherMode, hcipher⟩ := Option.isSome_iff_exists.1 h.1
  obtain ⟨macMode, hmac⟩ := Option.isSome_iff_exists.1 h.2
  rw [newPacketCipher, hcipher, hmac]
  exact ⟨_, rfl⟩

namespace Compatible

variable {client server : TransportConfig} {algs : Algorithms} {group : DhGroup} {priv : Signer}
  {signature : ℕ → Bytes}

/-- The end of an exchange: `newKeys` each way. -/
theorem finishes_changeKeys {cfg cfg' : TransportConfig} {algs algs' : Algorithms}
    {id id' : Option Bytes} {r : KexResult} {keys keys' : NewKeys}
    (hkeys : cfg.prepareKeyChange P algs r (id.getD r.h) = .ok keys)
    (hkeys' : cfg'.prepareKeyChange P algs' r (id'.getD r.h) = .ok keys') :
    Finishes Watches Completed (.fresh keys) (cfg.changeKeys P algs id (.ok r)) (.fresh keys')
      (cfg'.changeKeys P algs' id' (.ok r)) [] [] := by
  have hnew : IsNewKeys [msgNewKeys] := rfl
  have hsend : Sendable [msgNewKeys] := ⟨by decide, by decide, by decide⟩
  simp only [TransportConfig.changeKeys, hkeys, hkeys']
  refine .actLeft (.acted rfl) (.actRight (.acted rfl) ?_)
  refine .sendLeft (.sentNewKeys hsend hnew rfl rfl) ?_
  refine .sendRight (.sentNewKeys hsend hnew rfl rfl) ?_
  refine .recvLeft (.receivedNewKeys hnew rfl rfl) (.recvRight (.receivedNewKeys hnew rfl rfl) ?_)
  rw [if_pos hnew]
  exact .ret ⟨⟨rfl, rfl, rfl, rfl⟩, rfl, rfl, rfl, rfl⟩

theorem unmarshal_initPacket {cfg : TransportConfig} {e : ℕ}
    (h : (cfg.kexInit e).toStruct.NamesSurvive)
    (hlength : (cfg.initPacket e).length + 20 ≤ maxPacket) :
    unmarshal kexInitMsg (cfg.initPacket e) = .ok (cfg.kexInit e).toStruct :=
  unmarshal_marshal_of_sendable (by decide) (Struct.normalize_eq_iff.2 h) hlength

section Agreement

variable (h : Compatible P L client server algs group priv signature)
include h

/-- Both halves of the exchange finish, with one result. -/
theorem agrees (e : ℕ) : (group.twoMessage.algorithm P).Agrees (client.ephemeral e)
    (server.ephemeral e) (client.magicsWith server e) priv
    (group.resultOf P client server priv signature e) :=
  DhGroup.agrees (h.bounds e).1 (h.bounds e).2 (h.bounds' e).1 (h.bounds' e).2
    (DhGroup.carries (h.init e) (h.reply e)) (h.signs e)

/-- Both ends hash the same. -/
theorem magics_eq (sent other : Bytes) :
    server.magics other sent = client.magics sent other := by
  simp [TransportConfig.magics, h.isClient, h.isServer, h.clientVersion, h.serverVersion]

theorem enterKeyExchange_client (e : ℕ) (id : Option Bytes) :
    client.enterKeyExchange P L e id (client.initPacket e) (server.initPacket e) =
      (client.client L (group.twoMessage.algorithm P) algs (client.magicsWith server e) e).bind
        (client.changeKeys P algs id) := by
  simp only [TransportConfig.enterKeyExchange, unmarshal_initPacket (h.survives' e) (h.length' e),
    KexInit.ofStruct_toStruct, h.isClient, if_true, h.agreed, TransportConfig.exchange, h.exchange,
    TransportConfig.magicsWith]
  exact if_neg fun hfollows ↦ nomatch hfollows.1

theorem enterKeyExchange_server (e : ℕ) (id : Option Bytes) :
    server.enterKeyExchange P L e id (server.initPacket e) (client.initPacket e) =
      (server.server (group.twoMessage.algorithm P) algs (client.magicsWith server e) e).bind
        (server.changeKeys P algs.mirror id) := by
  have hagreed : findAgreedAlgorithms false (client.kexInit e) (server.kexInit e) =
      .ok algs.mirror := by
    rw [findAgreedAlgorithms_mirror, h.agreed]
    rfl
  have hexchange : kexAlgoMap P L.curves algs.mirror.kex = _ := h.exchange
  simp only [TransportConfig.enterKeyExchange, unmarshal_initPacket (h.survives e) (h.length e),
    KexInit.ofStruct_toStruct, h.isServer, Bool.false_eq_true, if_false, hagreed,
    TransportConfig.exchange, hexchange, h.magics_eq, TransportConfig.magicsWith]
  exact if_neg fun hfollows ↦ nomatch hfollows.1

/-- The client has checked the host key that the server has signed with. -/
theorem finishes_result (e : ℕ) (m m' : Watch) :
    Finishes Watches
      (fun m₁ r m₁' r' ↦ m₁ = m ∧ r = .ok (group.resultOf P client server priv signature e) ∧
        m₁' = m' ∧ r' = .ok (group.resultOf P client server priv signature e))
      m (client.client L (group.twoMessage.algorithm P) algs (client.magicsWith server e) e)
      m' (server.server (group.twoMessage.algorithm P) algs (client.magicsWith server e) e)
      [] [] := by
  rw [TransportConfig.client, TransportConfig.server, h.hostKey,
    ← Dialogue.bind_ret ((group.twoMessage.algorithm P).server _ _ _)]
  refine (h.agrees e m m').bind ?_
  rintro m₁ r m₁' r' ⟨rfl, rfl, rfl, rfl⟩
  exact .ret ⟨rfl, h.accepted e, rfl, rfl⟩

/-- **A client and a server fit together**: whatever is drawn, every exchange of theirs finishes,
with the same hash at both ends and with ciphers that belong together. -/
theorem exists_agreement : ∃ keys keys', Agreement (client.handshakeConfig P L)
    (server.handshakeConfig P L) keys keys' ∧
      ∀ e, (keys e).h = (group.resultOf P client server priv signature e).h := by
  set result := group.resultOf P client server priv signature
  -- one cipher for each direction and round, from the material both ends make
  choose ctos hctos using fun e ↦
    exists_newPacketCipher h.knownW clientKeys (result e) (result 0).h
  choose stoc hstoc using fun e ↦
    exists_newPacketCipher h.knownR serverKeys (result e) (result 0).h
  let keys : ℕ → NewKeys := fun e ↦ ⟨(result e).h, stoc e, ctos e⟩
  let keys' : ℕ → NewKeys := fun e ↦ ⟨(result e).h, ctos e, stoc e⟩
  -- the session id is the first hash, in the first exchange as well
  have hid : ∀ (k : ℕ → NewKeys) (e : ℕ), (∀ e, (k e).h = (result e).h) →
      (sessionAt k e false).getD (result e).h = (result 0).h := by
    intro k e hk
    rw [sessionAt]
    rcases e with - | e
    · rfl
    · exact hk 0
  refine ⟨keys, keys', ⟨fun e ↦ ⟨?_, rfl⟩, fun e ↦ ⟨?_, rfl⟩,
    fun e ↦ sync_newPacketCipher P (hctos e), fun e ↦ sync_newPacketCipher P (hstoc e),
    fun _ ↦ rfl, fun e ↦ ?_⟩, fun _ ↦ rfl⟩
  · exact (plain_marshal (t := kexInitMsg) rfl (by decide) (h.length e)).sendable
  · exact (plain_marshal (t := kexInitMsg) rfl (by decide) (h.length' e)).sendable
  have hkeys : client.prepareKeyChange P algs (result e)
      ((sessionAt keys e false).getD (result e).h) = .ok (keys e) := by
    rw [hid keys e fun _ ↦ rfl]
    simp only [TransportConfig.prepareKeyChange, h.isClient, if_true, hstoc, hctos]
    rfl
  have hkeys' : server.prepareKeyChange P algs.mirror (result e)
      ((sessionAt keys' e false).getD (result e).h) = .ok (keys' e) := by
    rw [hid keys' e fun _ ↦ rfl]
    simp only [TransportConfig.prepareKeyChange, h.isServer, Bool.false_eq_true, if_false,
      Algorithms.mirror, hstoc, hctos]
    rfl
  show Finishes Watches Completed _ (client.enterKeyExchange P L e _ _ _) _
    (server.enterKeyExchange P L e _ _ _) [] []
  rw [TransportConfig.handshakeConfig, TransportConfig.handshakeConfig]
  dsimp only
  rw [h.enterKeyExchange_client, h.enterKeyExchange_server]
  refine (h.finishes_result e _ _).bind ?_
  rintro m r m' r' ⟨rfl, rfl, rfl, rfl⟩
  exact finishes_changeKeys hkeys hkeys'

end Agreement

end Compatible

/-! ### A client and a server with the smallest secret -/

namespace Sample

/-- Ciphers and hashes without a secret. -/
def primitives : Primitives where
  digest f := ⟨⟨f.size, fun _ ↦ List.replicate f.size 0, fun _ ↦ List.length_replicate⟩, rfl⟩
  hmac f _ := ⟨⟨f.size, fun _ ↦ List.replicate f.size 0, fun _ ↦ List.length_replicate⟩, rfl⟩
  newAESCTR _ _ := noneCipher
  newRC4 _ := noneCipher
  newGCM _ :=
    ⟨fun _ text _ ↦ text ++ List.replicate 16 0,
      fun _ text _ ↦ if 16 ≤ text.length then some (text.take (text.length - 16)) else none,
      fun _ _ _ ↦ by simp, fun _ _ _ ↦ by simp⟩
  chacha20 _ _ _ := 0
  aes _ := ⟨⟨16, by decide, id, id, id, fun _ ↦ rfl⟩, rfl⟩
  tripleDES _ := ⟨⟨8, by decide, id, id, id, fun _ ↦ rfl⟩, rfl⟩

/-- A curve that nobody asks for. -/
def curve : EllipticCurve :=
  ⟨0, 256, fun _ _ ↦ false, fun _ _ _ ↦ 0, fun _ ↦ [], fun _ ↦ none⟩

/-- A library in which every signature is good. -/
def library : KeyLibrary where
  curves := ⟨curve, curve, curve, fun priv ↦ priv, fun _ pub ↦ pub⟩
  parsePublicKey key := .ok ⟨key, fun _ _ ↦ .ok ()⟩
  quote := textOf

/-- A host key whose signatures are empty. -/
def hostKey : Signer :=
  ⟨Text.ascii "ssh-ed25519", [1], fun _ ↦ .ok ⟨Text.ascii "ssh-ed25519", [], []⟩, none⟩

/-- A client with one algorithm of each kind. -/
def client : TransportConfig where
  clientVersion := Text.ascii "SSH-2.0-Go"
  serverVersion := Text.ascii "SSH-2.0-Go"
  keyExchanges := [Text.ascii "diffie-hellman-group1-sha1"]
  ciphers := [Text.ascii "aes128-ctr"]
  macs := [Text.ascii "hmac-sha1"]
  hostKeys := []
  hostKeyAlgorithms := [Text.ascii "ssh-ed25519"]
  hostKeyCallback _ := .ok ()
  cookie _ := List.Vector.replicate 16 0
  ephemeral _ := ⟨1, []⟩
  writeBytes _ := 2 ^ 30
  readBytes _ := 2 ^ 30

/-- The server of the same, which has the host key. -/
def server : TransportConfig := { client with hostKeys := [hostKey] }

/-- What they agree on. -/
def algorithms : Algorithms :=
  ⟨Text.ascii "diffie-hellman-group1-sha1", Text.ascii "ssh-ed25519",
    ⟨Text.ascii "aes128-ctr", Text.ascii "hmac-sha1", Text.ascii "none"⟩,
    ⟨Text.ascii "aes128-ctr", Text.ascii "hmac-sha1", Text.ascii "none"⟩⟩

/-- The signature of the server, as it is sent. -/
def signature : Bytes := Signature.marshal ⟨Text.ascii "ssh-ed25519", [], []⟩

theorem inBounds : group1.InBounds ⟨1, []⟩ := ⟨by decide +kernel, by decide +kernel⟩

/-- The two configurations are compatible. -/
theorem compatible : Compatible primitives library client server algorithms group1 hostKey
    fun _ ↦ signature where
  isClient := rfl
  isServer := rfl
  clientVersion := rfl
  serverVersion := rfl
  survives _ := Struct.normalize_eq_iff.1 (by rfl)
  survives' _ := Struct.normalize_eq_iff.1 (by rfl)
  length _ := show (client.initPacket 0).length + 20 ≤ maxPacket by decide +kernel
  length' _ := show (server.initPacket 0).length + 20 ≤ maxPacket by decide +kernel
  agreed _ := rfl
  exchange := rfl
  hostKey := rfl
  bounds _ := inBounds
  bounds' _ := inBounds
  init _ := show (marshal kexDHInitMsg (group1.twoMessage.publicKey ⟨1, []⟩, ())).length + 20 ≤
    maxPacket by decide +kernel
  reply _ := show (marshal kexDHReplyMsg
    ([1], group1.twoMessage.publicKey ⟨1, []⟩, signature, ())).length + 20 ≤ maxPacket by
      decide +kernel
  signs _ := rfl
  accepted _ := rfl
  knownW := ⟨rfl, rfl⟩
  knownR := ⟨rfl, rfl⟩

end Sample

/-- The client's first three steps, which send its `kexInit`. -/
theorem Agreement.exists_run {c c' : HandshakeConfig} {keys keys' : ℕ → NewKeys}
    (hag : Agreement c c' keys keys') : ∃ as s,
      RunWhile (Peers.step c c') Peers.Proper (Peers.new c c') as s ∧
        s.up.sent = [c.kexInit 0] := by
  set rand : Bytes := List.replicate 20 0 with hrand
  have hlen : 20 ≤ rand.length := List.length_replicate.ge
  have hinv : OneWay.new.Inv (directionKeys keys keys') [] := OneWay.inv_new
  obtain ⟨writer, wire, hwrite, -⟩ := hinv.push hag.sync (hag.kexInit 0).1 hlen fun hnew ↦
    absurd hnew (not_isNewKeys_kexInit (hag.kexInit 0).2)
  set s₁ : Peers := { Peers.new c c' with
    client := { HandshakeTransport.new c with kexLoop := .select false } } with hs₁
  set s₂ : Peers := { s₁ with
    client := { s₁.client with requestKex := false, kexLoop := .sendInit none } } with hs₂
  have hstep₁ : Peers.step c c' (Peers.new c c') (.client .check rand) = some s₁ := rfl
  have hstep₂ : Peers.step c c' s₁ (.client .takeRequest rand) = some s₂ := rfl
  have hstep₃ : Peers.step c c' s₂ (.client (.sendKexInit none) rand) = some
      { s₂ with
        client := { s₂.client with sentInit := some (c.kexInit 0), kexLoop := .select true }
        up := { OneWay.new with writer := writer, wire := wire, sent := [c.kexInit 0] } } := by
    show (HandshakeTransport.serve _ _ OneWay.new _ rand none (.push (c.kexInit 0))).map _ = _
    rw [HandshakeTransport.serve, hwrite]
    rfl
  have hrun : RunWhile (Peers.step c c') Peers.Proper (Peers.new c c')
      [.client .check rand, .client .takeRequest rand, .client (.sendKexInit none) rand] _ :=
    .cons ⟨hlen, trivial⟩ hstep₁ (.cons ⟨hlen, trivial⟩ hstep₂
      (.cons ⟨hlen, trivial⟩ hstep₃ (.nil _)))
  exact ⟨_, _, hrun, rfl⟩

theorem Peers.delivers_accepted_group1 :
    ∃ c c' k k' as s, Agreement c c' k k' ∧
      RunWhile (Peers.step c c') Peers.Proper (Peers.new c c') as s ∧ s.up.sent = [c.kexInit 0] ∧
      (s.up.failed = false ∧ s.client.writeError = none ∧
        s.server.delivered <+: s.client.accepted) ∧
      (s.down.failed = false ∧ s.server.writeError = none ∧
        s.client.delivered <+: s.server.accepted) ∧
      (0 < s.client.exchanges → s.client.sessionID = some (k 0).h) ∧
      (0 < s.server.exchanges → s.server.sessionID = some (k 0).h) := by
  obtain ⟨keys, keys', hag, -⟩ := Sample.compatible.exists_agreement
  obtain ⟨as, s, hrun, hsent⟩ := hag.exists_run
  exact ⟨_, _, keys, keys', as, s, hag, hrun, hsent, Peers.delivers_accepted hag hrun⟩

theorem Peers.progress_or_delivered_group1 :
    ∃ c c' k k' as s, Agreement c c' k k' ∧
      RunWhile (Peers.step c c') Peers.Proper (Peers.new c c') as s ∧ s.up.sent = [c.kexInit 0] ∧
      ((∃ a s', a.isWrite = false ∧ s.Proper a ∧ Peers.step c c' s a = some s') ∨ s.Settled) := by
  obtain ⟨keys, keys', hag, -⟩ := Sample.compatible.exists_agreement
  obtain ⟨as, s, hrun, hsent⟩ := hag.exists_run
  exact ⟨_, _, keys, keys', as, s, hag, hrun, hsent, Peers.progress_or_delivered hag hrun⟩

end Ssh
