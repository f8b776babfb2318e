import Isle.Ssh.Exchange
import Isle.Ssh.Peers

/-!
# That the two halves of an exchange agree

A client and a server of an exchange of `kex.go` that take the messages of each other finish, and
have the same result, which is the same secret, the same hash and the same host key
(`KexAlgorithm.Agrees`). That of an exchange with two messages depends on the two secrets alone
(`TwoMessage.agrees`), and in a fixed group these are the same where the public values are in bounds
(`DhGroup.agrees`).

The client of the group exchange is told its group by the server. `DhGexSHA.answer_client_iff` says
what it accepts.
-/

namespace Ssh

open Dialogue (Finishes)

variable {P : Primitives}

/-! ### Messages of an exchange -/

/-- A packet that every cipher can carry, and that is no `newKeys`. -/
structure Plain (packet : Bytes) : Prop where
  sendable : Sendable packet
  notSkipped : ¬ Skipped packet
  notNewKeys : ¬ IsNewKeys packet

theorem Plain.sent {packet : Bytes} (h : Plain packet) (m : Watch) :
    Watches m (.sent packet) m :=
  .sent h.sendable h.notSkipped h.notNewKeys

theorem Plain.received {packet : Bytes} (h : Plain packet) (m : Watch) :
    Watches m (.received packet) m :=
  .received h.notSkipped h.notNewKeys

variable {t : StructType}

theorem marshal_eq_cons {tag : UInt8} (htags : t.tags = [tag]) (m : Struct t.fields) :
    marshal t m = tag :: marshalFields t.fields m := by
  rw [marshal, htags]
  rfl

/-- A message of the exchange is one the transport carries. -/
theorem plain_marshal {tag : UInt8} (htags : t.tags = [tag])
    (htag : tag ∉ [msgDisconnect, msgIgnore, msgDebug, msgNewKeys]) {m : Struct t.fields}
    (h : (marshal t m).length + 20 ≤ maxPacket) : Plain (marshal t m) := by
  have hhead : (marshal t m).head? = some tag := by rw [marshal_eq_cons htags]; rfl
  simp only [List.mem_cons, List.not_mem_nil, or_false, not_or] at htag
  obtain ⟨hdisconnect, hignore, hdebug, hnew⟩ := htag
  refine ⟨⟨?_, h, ?_⟩, ?_, ?_⟩
  · rw [marshal_eq_cons htags]
    exact Nat.succ_pos _
  · rw [hhead]
    exact fun heq ↦ hdisconnect (Option.some.inj heq)
  · rw [Skipped, hhead]
    rintro (heq | heq)
    · exact hignore (Option.some.inj heq)
    · exact hdebug (Option.some.inj heq)
  · rw [IsNewKeys, hhead]
    exact fun heq ↦ hnew (Option.some.inj heq)

/-- A message without lists of names arrives as it is. -/
theorem unmarshal_marshal_of_sendable (ht : t.WellFormed) {m : Struct t.fields}
    (hnormal : m.normalize = m) (h : (marshal t m).length + 20 ≤ maxPacket) :
    unmarshal t (marshal t m) = .ok m := by
  have hlt : (marshal t m).length < 2 ^ 32 := by
    rw [maxPacket] at h
    omega
  rw [unmarshal_marshal ht m hlt, hnormal]

/-- Both halves finish and have this result. -/
def KexAlgorithm.Agrees (alg : KexAlgorithm) (a b : Ephemeral) (magics : HandshakeMagics)
    (priv : Signer) (result : KexResult) : Prop :=
  ∀ m m', Finishes Watches
    (fun m₁ r m₁' r' ↦ m₁ = m ∧ r = .ok result ∧ m₁' = m' ∧ r' = .ok result)
    m (alg.client a magics) m' (alg.server b magics (some priv)) [] []

/-! ### Exchanges with two messages -/

namespace TwoMessage

variable {π : Type} {kex : TwoMessage π} {a b : Ephemeral} {magics : HandshakeMagics}
  {priv : Signer} {signature : Bytes} {ki : ℤ}

/-- The result of an exchange with this secret. -/
def result (P : Primitives) (kex : TwoMessage π) (a b : Ephemeral) (magics : HandshakeMagics)
    (hostKey : Bytes) (ki : ℤ) (signature : Bytes) : KexResult where
  h := kex.hash P magics hostKey (kex.publicKey a) (kex.publicKey b) (marshalInt ki)
  k := marshalInt ki
  hostKey := hostKey
  signature := signature
  hash := kex.hashFunc

/-- The messages arrive. -/
structure Carries (kex : TwoMessage π) (x y : π) (hostKey signature : Bytes) : Prop where
  init : Plain (kex.marshalInit x)
  reply : Plain (kex.marshalReply hostKey y signature)
  unmarshalInit : kex.unmarshalInit (kex.marshalInit x) = .ok x
  unmarshalReply :
    kex.unmarshalReply (kex.marshalReply hostKey y signature) = .ok (hostKey, y, signature)

/-- Two ends with one secret finish with one result. -/
theorem agrees (h : kex.Carries (kex.publicKey a) (kex.publicKey b) priv.publicKey signature)
    (hclient : kex.secret a (kex.publicKey b) = .ok ki)
    (hserver : kex.secret b (kex.publicKey a) = .ok ki)
    (hsign : signAndMarshal priv
      (kex.result P a b magics priv.publicKey ki signature).h = .ok signature) :
    (kex.algorithm P).Agrees a b magics priv
      (kex.result P a b magics priv.publicKey ki signature) := by
  intro m m'
  have hanswer : kex.answer P b magics (some priv) (kex.marshalInit (kex.publicKey a)) =
      .ok (kex.result P a b magics priv.publicKey ki signature) := by
    have hsign' : signAndMarshal priv (kex.hash P magics priv.publicKey (kex.publicKey a)
        (kex.publicKey b) (marshalInt ki)) = .ok signature := hsign
    rw [answer, h.unmarshalInit]
    simp only [bind, Except.bind, hserver, theSigner, hsign']
    rfl
  refine .sendLeft (h.init.sent m) (.recvRight (h.init.received m') ?_)
  dsimp only
  rw [hanswer]
  refine .sendRight (h.reply.sent m') (.recvLeft (h.reply.received m) (.ret ?_))
  refine ⟨rfl, ?_, rfl, rfl⟩
  show (kex.unmarshalReply (kex.marshalReply priv.publicKey (kex.publicKey b) signature) >>= _) = _
  rw [h.unmarshalReply]
  simp only [bind, Except.bind, hclient]
  rfl

end TwoMessage

namespace DhGroup

variable {group : DhGroup} {a b : Ephemeral} {magics : HandshakeMagics} {priv : Signer}
  {signature : Bytes}

theorem pow_emod_comm (g p : ℤ) (x y : ℕ) : (g ^ y % p) ^ x % p = (g ^ x % p) ^ y % p := by
  have hpow : ∀ n, (g ^ n % p : ℤ) ≡ g ^ n [ZMOD p] := fun n ↦ Int.mod_modEq _ _
  have hleft : (g ^ y % p) ^ x ≡ (g ^ x % p) ^ y [ZMOD p] := by
    calc (g ^ y % p) ^ x ≡ (g ^ y) ^ x [ZMOD p] := (hpow y).pow x
      _ = (g ^ x) ^ y := by rw [← pow_mul, ← pow_mul, Nat.mul_comm]
      _ ≡ (g ^ x % p) ^ y [ZMOD p] := ((hpow x).pow y).symm
  exact hleft

theorem diffieHellman_of_bounds {y : ℤ} (h : 1 < y) (h' : y < group.p - 1) (x : ℕ) :
    group.diffieHellman y x = .ok (y ^ x % group.p) :=
  if_neg (by omega)

theorem carries {x y : ℤ} {hostKey : Bytes}
    (hinit : (marshal kexDHInitMsg (x, ())).length + 20 ≤ maxPacket)
    (hreply : (marshal kexDHReplyMsg (hostKey, y, signature, ())).length + 20 ≤ maxPacket) :
    group.twoMessage.Carries x y hostKey signature where
  init := plain_marshal (t := kexDHInitMsg) rfl (by decide) hinit
  reply := plain_marshal (t := kexDHReplyMsg) rfl (by decide) hreply
  unmarshalInit := by
    show (unmarshal kexDHInitMsg (marshal kexDHInitMsg (x, ()))).map _ = _
    rw [unmarshal_marshal_of_sendable (by decide) rfl hinit]
    rfl
  unmarshalReply := by
    show (unmarshal kexDHReplyMsg (marshal kexDHReplyMsg (hostKey, y, signature, ()))).map _ = _
    rw [unmarshal_marshal_of_sendable (by decide) rfl hreply]
    rfl

/-- **Both ends have the same power**, where neither public value is refused. -/
theorem agrees (hx : 1 < group.twoMessage.publicKey a)
    (hx' : group.twoMessage.publicKey a < group.p - 1) (hy : 1 < group.twoMessage.publicKey b)
    (hy' : group.twoMessage.publicKey b < group.p - 1)
    (hcarries : group.twoMessage.Carries (group.twoMessage.publicKey a)
      (group.twoMessage.publicKey b) priv.publicKey signature)
    (hsign : signAndMarshal priv (group.twoMessage.result P a b magics priv.publicKey
      (group.twoMessage.publicKey b ^ a.exponent % group.p) signature).h = .ok signature) :
    (group.twoMessage.algorithm P).Agrees a b magics priv
      (group.twoMessage.result P a b magics priv.publicKey
        (group.twoMessage.publicKey b ^ a.exponent % group.p) signature) := by
  refine TwoMessage.agrees hcarries (diffieHellman_of_bounds hy hy' a.exponent) ?_ hsign
  refine (diffieHellman_of_bounds hx hx' b.exponent).trans (congrArg Except.ok ?_)
  exact pow_emod_comm group.g group.p b.exponent a.exponent

end DhGroup

/-! ### The group exchange -/

namespace DhGexSHA

variable {gex : DhGexSHA} {a b : Ephemeral} {magics : HandshakeMagics} {priv : Signer}
  {p g y : ℤ} {packet packet' hostKey signature : Bytes}

/-- A group that the client goes on with. -/
def InRange (p : ℤ) : Prop :=
  0 < p ∧ dhGroupExchangeMinimumBits ≤ bitLen p.natAbs ∧
    bitLen p.natAbs ≤ dhGroupExchangeMaximumBits

theorem lt_of_inRange (h : InRange p) : 2 ^ 2047 ≤ p := by
  obtain ⟨hpos, hmin, -⟩ := h
  by_contra hlt
  have hnat : p.natAbs < 2 ^ 2047 := by
    zify
    rw [abs_of_pos hpos]
    exact not_le.1 hlt
  have hle := bitLen_le_iff.2 hnat
  rw [dhGroupExchangeMinimumBits] at hmin
  omega

/-- The generator is not looked at: the two comparisons with it never both fail. -/
theorem clientGroup_eq_ok_iff :
    clientGroup packet = .ok (p, g) ↔
      unmarshalGroup packet = .ok (p, g) ∧ InRange p := by
  rw [clientGroup]
  rcases hpacket : unmarshalGroup packet with e | ⟨p', g'⟩
  · exact iff_of_false (nofun) fun h ↦ nomatch h.1
  dsimp only
  split_ifs with hsize hsafe hhalf
  · refine iff_of_false id fun ⟨heq, _, hmin, hmax⟩ ↦ ?_
    cases heq
    omega
  · refine iff_of_false id fun ⟨heq, hrange⟩ ↦ ?_
    cases heq
    have hlarge := lt_of_inRange hrange
    omega
  · refine iff_of_false id fun ⟨heq, hrange⟩ ↦ ?_
    cases heq
    have hlarge := lt_of_inRange hrange
    omega
  · constructor
    · intro heq
      cases heq
      exact ⟨rfl, by omega, by omega, by omega⟩
    · rintro ⟨heq, -⟩
      cases heq
      rfl

/-- Nor is the secret. -/
theorem clientResult_eq_ok_iff (hp : InRange p) {x : ℤ} {r : KexResult} :
    gex.clientResult P magics a p g x packet = .ok r ↔
      ∃ hostKey y signature, unmarshalReply packet = .ok (hostKey, y, signature) ∧ 0 < y ∧ y < p ∧
        r = ⟨gex.hash P magics hostKey p g x y (marshalInt (y ^ a.exponent % p)),
          marshalInt (y ^ a.exponent % p), hostKey, signature, gex.hashFunc⟩ := by
  rw [clientResult]
  rcases hpacket : unmarshalReply packet with e | ⟨hostKey, y, signature⟩
  · exact iff_of_false (nofun) fun ⟨_, _, _, h, _⟩ ↦ nomatch h
  dsimp only
  rw [diffieHellman]
  split_ifs with hbounds
  · refine iff_of_false id fun ⟨_, _, _, heq, hpos, hlt, _⟩ ↦ ?_
    cases heq
    omega
  · have hlarge := lt_of_inRange hp
    have hnonneg := Int.emod_nonneg (y ^ a.exponent) hp.1.ne'
    dsimp only
    rw [if_neg (by omega)]
    constructor
    · intro heq
      cases heq
      exact ⟨hostKey, y, signature, rfl, by omega, by omega, rfl⟩
    · rintro ⟨_, _, _, heq, -, -, rfl⟩
      cases heq
      rfl

/-- **What the client accepts**: any group of the right size, whatever its generator is, and any
public value of the server between zero and the modulus, whatever secret it makes. -/
theorem answer_client_iff {r : KexResult} :
    (gex.client P a magics).answer [packet, packet'] = some (.ok r) ↔
      ∃ p g hostKey y signature,
        unmarshalGroup packet = .ok (p, g) ∧ InRange p ∧
        unmarshalReply packet' = .ok (hostKey, y, signature) ∧ 0 < y ∧ y < p ∧
        r = ⟨gex.hash P magics hostKey p g (g ^ a.exponent % p) y (marshalInt (y ^ a.exponent % p)),
          marshalInt (y ^ a.exponent % p), hostKey, signature, gex.hashFunc⟩ := by
  rw [client, Dialogue.answer, Dialogue.answer]
  constructor
  · intro h
    rcases hgroup : clientGroup packet with e | ⟨p, g⟩
    · rw [hgroup] at h
      cases h
    · rw [hgroup] at h
      obtain ⟨hunmarshal, hrange⟩ := clientGroup_eq_ok_iff.1 hgroup
      obtain ⟨hostKey, y, signature, hreply⟩ :=
        (clientResult_eq_ok_iff hrange).1 (Option.some.inj h)
      exact ⟨p, g, hostKey, y, signature, hunmarshal, hrange, hreply⟩
  · rintro ⟨p, g, hostKey, y, signature, hunmarshal, hrange, hreply⟩
    rw [clientGroup_eq_ok_iff.2 ⟨hunmarshal, hrange⟩]
    exact congrArg some
      ((clientResult_eq_ok_iff hrange).2 ⟨hostKey, y, signature, hreply⟩)

end DhGexSHA

end Ssh
