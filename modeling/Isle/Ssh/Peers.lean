import Isle.Ssh.Rekey

/-!
# Two ends that exchange keys

Two `handshakeTransport`s, each over one end of the same connection, with all that was written and
not read in between. Either of them may begin an exchange, at any time and at the same time; their
callers go on writing; the goroutines of both take their steps in any order.

The two processes of one exchange are those that the configurations say, and are related by
`Agreement`: there is an order in which they finish, and then the two ends have ciphers that belong
together. Nothing is assumed about when the one begins relative to the other. Within an exchange the
two are at most a `newKeys` apart (`Pair.ahead`): one end may have finished, use its new ciphers and
even have begun the next exchange, while the other has not yet read the `newKeys` of this one.

`Pair.move` says that this is kept by every step of either end.
-/

namespace Ssh

open Dialogue

namespace HandshakeTransport

/-- What the connection does for a step of an end, and what the end then is: `out` is the direction
it writes to and `inn` the one it reads from. An error is left in the direction, and the packets
that `readPacket` of `transport` drops do not reach the end. -/
def serve (t t₁ : HandshakeTransport) (out inn : OneWay) (rand : Bytes)
    (answer : Option Bytes) : Conn → Option (HandshakeTransport × OneWay × OneWay)
  | .nothing => some (t₁, out, inn)
  | .push packet =>
    (out.step (.write rand packet)).map fun out' ↦ (if out'.failed then t else t₁, out', inn)
  | .prepareKeyChange keys => do
    let inn' ← inn.step (.prepareReader keys.reader)
    let out' ← out.step (.prepareWriter keys.writer)
    some (t₁, out', inn')
  | .read => do
    let inn' ← inn.step .read
    if inn'.failed then some (t, out, inn')
    else
      let packet ← inn'.received.getLast?
      if Skipped packet then some (t, out, inn')
      else if answer = some packet then some (t₁, out, inn')
      else none

/-- A step of an end with its connection. -/
def move (c : HandshakeConfig) (t : HandshakeTransport) (out inn : OneWay) (a : Act)
    (rand : Bytes) : Option (HandshakeTransport × OneWay × OneWay) :=
  if a.isOk then do
    let (t₁, conn) ← t.step c a
    serve t t₁ out inn rand a.packet conn
  else none

end HandshakeTransport

/-- Two ends of a connection. -/
structure Peers where
  client : HandshakeTransport
  server : HandshakeTransport
  /-- From the client to the server. -/
  up : OneWay
  down : OneWay

namespace Peers

/-- A step of one end, with random bytes for what it may write. -/
inductive Act
  | client (a : HandshakeTransport.Act) (rand : Bytes)
  | server (a : HandshakeTransport.Act) (rand : Bytes)

variable (c c' : HandshakeConfig)

/-- Two transports that have just been made, on a connection with nothing on it. -/
def new : Peers := ⟨.new c, .new c', .new, .new⟩

/-- One step of one of the two ends. -/
def step (s : Peers) : Act → Option Peers
  | .client a rand =>
    (s.client.move c s.up s.down a rand).map fun (t, out, inn) ↦
      { s with client := t, up := out, down := inn }
  | .server a rand =>
    (s.server.move c' s.down s.up a rand).map fun (t, out, inn) ↦
      { s with server := t, down := out, up := inn }

/-- What the callers of both ends see to. -/
def Proper (s : Peers) : Act → Prop
  | .client a rand => s.client.Proper a rand
  | .server a rand => s.server.Proper a rand

end Peers

/-! ### Exchanges that fit together -/

/-- What is seen of an exchange at one end: the ciphers it is to make, and how far it is. -/
structure Watch where
  keys : NewKeys
  prepared : Bool
  sentNewKeys : Bool
  readNewKeys : Bool

/-- An end at the beginning of an exchange. -/
def Watch.fresh (keys : NewKeys) : Watch := ⟨keys, false, false, false⟩

/-- What an exchange may do: `prepareKeyChange` once, then a `newKeys` each way. -/
inductive Watches : Watch → Event Bytes NewKeys → Watch → Prop
  | sent {m packet} (hsend : Sendable packet) (hskip : ¬ Skipped packet)
      (hnew : ¬ IsNewKeys packet) : Watches m (.sent packet) m
  | sentNewKeys {m packet} (hsend : Sendable packet) (hnew : IsNewKeys packet)
      (hprepared : m.prepared = true) (hfirst : m.sentNewKeys = false) :
      Watches m (.sent packet) { m with sentNewKeys := true }
  | received {m packet} (hskip : ¬ Skipped packet) (hnew : ¬ IsNewKeys packet) :
      Watches m (.received packet) m
  | receivedNewKeys {m packet} (hnew : IsNewKeys packet) (hprepared : m.prepared = true)
      (hfirst : m.readNewKeys = false) :
      Watches m (.received packet) { m with readNewKeys := true }
  | acted {m} (hfirst : m.prepared = false) : Watches m (.acted m.keys) { m with prepared := true }

/-- An end has made its ciphers and changed to them, and has no error. -/
structure Watch.Done (m : Watch) (r : Except String Unit) : Prop where
  prepared : m.prepared = true
  sentNewKeys : m.sentNewKeys = true
  readNewKeys : m.readNewKeys = true
  ok : r = .ok ()

/-- Both processes have returned without an error, and both ends have taken their keys. -/
def Completed (m : Watch) (r : Except String Unit) (m' : Watch) (r' : Except String Unit) : Prop :=
  m.Done r ∧ m'.Done r'

/-- The number of the session in an exchange, before `prepareKeyChange` and after it. -/
def sessionAt (keys : ℕ → NewKeys) (e : ℕ) (prepared : Bool) : Option Bytes :=
  if e = 0 ∧ prepared = false then none else some (keys 0).h

/-- The processes of two configurations finish, with the same hash, and their ciphers belong
together. -/
structure Agreement (c c' : HandshakeConfig) (keys keys' : ℕ → NewKeys) : Prop where
  kexInit : ∀ e, Sendable (c.kexInit e) ∧ (c.kexInit e).head? = some msgKexInit
  kexInit' : ∀ e, Sendable (c'.kexInit e) ∧ (c'.kexInit e).head? = some msgKexInit
  sync : ∀ e, (keys e).writer.Sync (keys' e).reader
  sync' : ∀ e, (keys' e).writer.Sync (keys e).reader
  h : ∀ e, (keys e).h = (keys' e).h
  finishes : ∀ e, Finishes Watches Completed
    (.fresh (keys e))
    (c.enterKeyExchange e (sessionAt keys e false) (c.kexInit e) (c'.kexInit e))
    (.fresh (keys' e))
    (c'.enterKeyExchange e (sessionAt keys' e false) (c'.kexInit e) (c.kexInit e)) [] []

variable {c c' : HandshakeConfig} {k k' : ℕ → NewKeys} {m m' m₁ : Watch} {d d' : KeyExchange}
  {q q' : List Bytes} {packet : Bytes}

theorem finishes_symm (h : Finishes Watches Completed m d m' d' q q') :
    Finishes Watches Completed m' d' m d q' q := by
  have hsymm : (fun m r m' r' ↦ Completed m' r' m r) = Completed := by
    funext m r m' r'
    exact propext and_comm
  exact hsymm ▸ h.symm

theorem Agreement.symm (h : Agreement c c' k k') : Agreement c' c k' k :=
  ⟨h.kexInit', h.kexInit, h.sync', h.sync, fun e ↦ (h.h e).symm,
    fun e ↦ finishes_symm (h.finishes e)⟩

theorem not_isNewKeys_kexInit (h : packet.head? = some msgKexInit) : ¬ IsNewKeys packet := by
  rw [IsNewKeys, h]
  decide

theorem not_skipped_kexInit (h : packet.head? = some msgKexInit) : ¬ Skipped packet := by
  rw [Skipped, h]
  decide

/-- A `kexInit` leaves the watch as it is, sent or received. -/
theorem Watches.eq_of_sent (h : Watches m (.sent packet) m₁) (hnew : ¬ IsNewKeys packet) :
    m₁ = m := by
  cases h with
  | sent => rfl
  | sentNewKeys _ hnew' => exact absurd hnew' hnew

theorem Watches.eq_of_received (h : Watches m (.received packet) m₁) (hnew : ¬ IsNewKeys packet) :
    m₁ = m := by
  cases h with
  | received => rfl
  | receivedNewKeys hnew' => exact absurd hnew' hnew

section Start

variable (hag : Agreement c c' k k')
include hag

theorem Agreement.watches_kexInit (e : ℕ) (m : Watch) : Watches m (.sent (c.kexInit e)) m :=
  .sent (hag.kexInit e).1 (not_skipped_kexInit (hag.kexInit e).2)
    (not_isNewKeys_kexInit (hag.kexInit e).2)

/-- The `kexInit` may be sent next. -/
theorem Agreement.finishes_send {e : ℕ}
    (h : Finishes Watches Completed m (.send (c.kexInit e) d) m' d' q q') :
    Finishes Watches Completed m d m' d' (q ++ [c.kexInit e]) q' := by
  obtain ⟨m₁, hmon, htail⟩ := h.send
  rwa [hmon.eq_of_sent (not_isNewKeys_kexInit (hag.kexInit e).2)] at htail

/-- The other end's `kexInit` may be received next, before this end's is sent or after it. -/
theorem Agreement.finishes_recv {e : ℕ} {next : Bytes → KeyExchange}
    (h : Finishes Watches Completed m (.recv next) m' d' q (c'.kexInit e :: q')) :
    Finishes Watches Completed m (next (c'.kexInit e)) m' d' q q' := by
  obtain ⟨m₁, hmon, htail⟩ := h.recv
  rwa [hmon.eq_of_received (not_isNewKeys_kexInit (hag.kexInit' e).2)] at htail

/-- Both ends at the beginning of an exchange. -/
theorem Agreement.finishes_start (e : ℕ) : Finishes Watches Completed
    (.fresh (k e))
    (.send (c.kexInit e) (.recv (c.enterKeyExchange e (sessionAt k e false) (c.kexInit e))))
    (.fresh (k' e))
    (.send (c'.kexInit e) (.recv (c'.enterKeyExchange e (sessionAt k' e false) (c'.kexInit e))))
    [] [] := by
  have hreceived : ∀ {m : Watch} {packet : Bytes}, packet.head? = some msgKexInit →
      Watches m (.received packet) m := fun h ↦
    .received (not_skipped_kexInit h) (not_isNewKeys_kexInit h)
  exact .sendLeft (hag.watches_kexInit e _) (.sendRight (hag.symm.watches_kexInit e _)
    (.recvLeft (hreceived (hag.kexInit' e).2) (.recvRight (hreceived (hag.kexInit e).2)
      (hag.finishes e))))

end Start

/-! ### A direction between two ends -/

namespace OneWay

variable {keys : ℕ → PacketCipher × PacketCipher} {l l₁ : OneWay} {queue : List Bytes}
  {rand : Bytes}

/-- A packet that every cipher can carry is written, and nothing else changes. -/
theorem Inv.push (hkeys : ∀ i, (keys i).1.Sync (keys i).2) (h : Inv keys l queue)
    (hsend : Sendable packet) (hrand : 20 ≤ rand.length)
    (hpending : IsNewKeys packet → l.writer.pendingKeyChange.isSome) :
    ∃ writer wire, l.step (.write rand packet) = some (l.put writer wire packet) ∧
      Inv keys (l.put writer wire packet) (queue ++ [packet]) := by
  obtain ⟨r, hr⟩ := h.flight.exists_sync
  have hlt : l.writer.packetCipher.paddingLength packet.length < 20 :=
    PacketCipher.paddingLength_lt hr.cipher _
  have hlength := hsend.length
  exact h.write hkeys ⟨⟨hsend.pos, by omega⟩, by omega, hsend.connected, hpending⟩

/-- There is a packet to read where a read is possible. -/
theorem Inv.exists_of_read (h : Inv keys l queue) (hstep : l.step .read = some l₁) :
    ∃ packet queue', queue = packet :: queue' := by
  refine List.exists_cons_of_ne_nil fun hnil ↦ ?_
  have hwire := h.flight.queue_eq_nil_iff.1 hnil
  rw [OneWay.step, if_neg fun hguard ↦ hguard.2 hwire] at hstep
  cases hstep

end OneWay

/-- The ciphers of the direction from the one end to the other. -/
def directionKeys (k k' : ℕ → NewKeys) (e : ℕ) : PacketCipher × PacketCipher :=
  ((k e).writer, (k' e).reader)

/-- An end has given and changed as many ciphers as its watch says, and has the number of the
session. -/
structure Tracks (k : ℕ → NewKeys) (e : ℕ) (m : Watch) (id : Option Bytes)
    (out inn : OneWay) : Prop where
  keys : m.keys = k e
  sessionID : id = sessionAt k e m.prepared
  writerKeys : out.writerKeys = e + m.prepared.toNat
  readerKeys : inn.readerKeys = e + m.prepared.toNat
  sent : OneWay.changes out.sent = e + m.sentNewKeys.toNat
  received : OneWay.changes inn.received = e + m.readNewKeys.toNat

/-- What is on its way from one end to another that is in the same exchange: the packets of callers,
`users`, and behind them those of the exchange. -/
structure Front (c : HandshakeConfig) (t t' : HandshakeTransport)
    (users queue : List Bytes) : Prop where
  isUser : ∀ packet ∈ users, UserPacket packet
  unsent : t.kexLoop.isSent = false → queue = []
  engaged : t'.Engaged → users = [] ∧ t.kexLoop.isSent = true
  waiting : ¬ t'.Engaged → t.kexLoop.isSent = true → ∃ rest, queue = c.kexInit t.exchanges :: rest
  first : t.exchanges = 0 → users = []

section Pair

variable (c c' : HandshakeConfig) (k k' : ℕ → NewKeys) (t t' : HandshakeTransport)
  (out inn : OneWay)

/-- Two ends in the same exchange, and the directions between them: `out` from the first and `inn`
to it. -/
structure Together (e : ℕ) (users users' queue queue' : List Bytes) (m m' : Watch) :
    Prop where
  orderly : t.Orderly c
  orderly' : t'.Orderly c'
  exchanges : t.exchanges = e
  exchanges' : t'.exchanges = e
  outInv : out.Inv (directionKeys k k') (users ++ queue)
  innInv : inn.Inv (directionKeys k' k) (users' ++ queue')
  finishes : Finishes Watches Completed m (t.control c) m' (t'.control c') queue queue'
  tracks : Tracks k e m t.sessionID out inn
  tracks' : Tracks k' e m' t'.sessionID inn out
  fresh : ¬ t.Exchanging → m = .fresh (k e)
  fresh' : ¬ t'.Exchanging → m' = .fresh (k' e)
  front : Front c t t' users queue
  front' : Front c' t' t users' queue'
  accepted : t.accepted = (t'.delivered ++ users) ++ t.pendingPackets
  accepted' : t'.accepted = (t.delivered ++ users') ++ t'.pendingPackets

/-- The first end has finished an exchange and the second has not. The first may have begun the
next. -/
structure Ahead (e : ℕ) (users queue : List Bytes) (m m' : Watch) (r : Except String Unit) :
    Prop where
  orderly : t.Orderly c
  orderly' : t'.Orderly c'
  exchanges : t.exchanges = e + 1
  exchanges' : t'.exchanges = e
  outInv : out.Inv (directionKeys k k')
    (queue ++ users ++ if t.kexLoop.isSent then [c.kexInit (e + 1)] else [])
  innInv : inn.Inv (directionKeys k' k) []
  finishes : Finishes Watches Completed m (.ret r) m' (t'.control c') queue []
  tracks : Tracks k (e + 1) (.fresh (k (e + 1))) t.sessionID out inn
  tracks' : Tracks k' e m' t'.sessionID inn out
  engaged : ¬ t.Engaged
  exchanging' : t'.Exchanging
  isUser : ∀ packet ∈ users, UserPacket packet
  accepted : t.accepted = (t'.delivered ++ users) ++ t.pendingPackets
  accepted' : t'.accepted = t.delivered ++ t'.pendingPackets

/-- What holds of two ends in every state. -/
inductive Pair : Prop
  | together {e users users' queue queue' m m'}
      (h : Together c c' k k' t t' out inn e users users' queue queue' m m')
  | ahead {e users queue m m' r} (h : Ahead c c' k k' t t' out inn e users queue m m' r)
  | behind {e users queue m m' r} (h : Ahead c' c k' k t' t inn out e users queue m m' r)

end Pair

variable {t t' t₁ : HandshakeTransport} {out inn out₁ inn₁ : OneWay} {e : ℕ}
  {users users' queue queue' : List Bytes} {r : Except String Unit} {rand : Bytes}
  {id id₁ : Option Bytes}

theorem Together.symm (h : Together c c' k k' t t' out inn e users users' queue queue' m m') :
    Together c' c k' k t' t inn out e users' users queue' queue m' m :=
  ⟨h.orderly', h.orderly, h.exchanges', h.exchanges, h.innInv, h.outInv, finishes_symm h.finishes,
    h.tracks', h.tracks, h.fresh', h.fresh, h.front', h.front, h.accepted', h.accepted⟩

theorem Pair.symm (h : Pair c c' k k' t t' out inn) : Pair c' c k' k t' t inn out := by
  rcases h with h | h | h
  · exact .together h.symm
  · exact .behind h
  · exact .ahead h

/-! ### Steps that keep the exchange where it is -/

/-- What is on its way depends on whether the writer's `kexInit` is sent and the reader has read
it. -/
theorem Front.congr {t₂ t₂' : HandshakeTransport} (h : Front c t t' users queue)
    (hexchanges : t₂.exchanges = t.exchanges) (hsent : t₂.kexLoop.isSent = t.kexLoop.isSent)
    (hengaged : t₂'.Engaged ↔ t'.Engaged) : Front c t₂ t₂' users queue := by
  refine ⟨h.isUser, ?_, ?_, ?_, ?_⟩
  · exact hsent ▸ h.unsent
  · rw [hengaged, hsent]
    exact h.engaged
  · rw [hengaged, hsent, hexchanges]
    exact h.waiting
  · exact hexchanges ▸ h.first

/-- An end is not concerned by what the other end does with the ciphers of its own. -/
theorem Tracks.congr (h : Tracks k e m id out inn) (hid : id₁ = id)
    (hwriterKeys : out₁.writerKeys = out.writerKeys) (hsent : out₁.sent = out.sent)
    (hreaderKeys : inn₁.readerKeys = inn.readerKeys) (hreceived : inn₁.received = inn.received) :
    Tracks k e m id₁ out₁ inn₁ :=
  ⟨h.keys, hid.trans h.sessionID, hwriterKeys.trans h.writerKeys, hreaderKeys.trans h.readerKeys,
    hsent ▸ h.sent, hreceived ▸ h.received⟩

/-- A step of one end that the other cannot see. -/
theorem Pair.keeps (h : Pair c c' k k' t t' out inn) (hk : t.Keeps c t₁)
    (hdelivered : t₁.delivered = t.delivered)
    (haccepted : ∀ xs, t.accepted = xs ++ t.pendingPackets →
      t₁.accepted = xs ++ t₁.pendingPackets) :
    Pair c c' k k' t₁ t' out inn := by
  rcases h with h | h | h
  · exact .together { h with
      orderly := hk.orderly
      exchanges := hk.exchanges.trans h.exchanges
      finishes := hk.control ▸ h.finishes
      tracks := h.tracks.congr hk.sessionID rfl rfl rfl rfl
      fresh := fun hnot ↦ h.fresh fun hx ↦ hnot (hk.exchanging hx)
      front := h.front.congr hk.exchanges hk.isSent Iff.rfl
      front' := h.front'.congr rfl rfl hk.engaged
      accepted := haccepted _ h.accepted
      accepted' := hdelivered ▸ h.accepted' }
  · exact .ahead { h with
      orderly := hk.orderly
      exchanges := hk.exchanges.trans h.exchanges
      outInv := by rw [hk.isSent]; exact h.outInv
      tracks := h.tracks.congr hk.sessionID rfl rfl rfl rfl
      engaged := fun hx ↦ h.engaged (hk.engaged.1 hx)
      accepted := haccepted _ h.accepted
      accepted' := hdelivered ▸ h.accepted' }
  · exact .behind { h with
      orderly' := hk.orderly
      exchanges' := hk.exchanges.trans h.exchanges'
      finishes := hk.control ▸ h.finishes
      tracks' := h.tracks'.congr hk.sessionID rfl rfl rfl rfl
      exchanging' := hk.exchanging h.exchanging'
      accepted := hdelivered ▸ h.accepted
      accepted' := haccepted _ h.accepted' }

/-! ### Steps that write -/

variable {wire : Bytes}

/-- The watches of both ends after a packet that is no `newKeys`. -/
theorem Tracks.write {writer : ConnectionState} (h : Tracks k e m id out inn) (hid : id₁ = id)
    (hnew : ¬ IsNewKeys packet) :
    Tracks k e m id₁ (out.put writer wire packet) inn where
  keys := h.keys
  sessionID := hid.trans h.sessionID
  writerKeys := h.writerKeys
  readerKeys := h.readerKeys
  sent := by
    rw [OneWay.put, OneWay.changes_append_singleton, if_neg hnew]
    exact h.sent
  received := h.received

theorem isSent_of_exchanging (h : t.Exchanging) : t.kexLoop.isSent = true := by
  obtain ⟨d, hd⟩ := h
  rw [hd]
  rfl

/-- A packet of a caller goes behind those that are on their way. -/
theorem Pair.user (hag : Agreement c c' k k') (h : Pair c c' k k' t t' out inn) (hk : t.Keeps c t₁)
    (hdelivered : t₁.delivered = t.delivered) (hsent : t.kexLoop.isSent = false)
    (hpos : 0 < t.exchanges) (hpacket : UserPacket packet) (hrand : 20 ≤ rand.length)
    (haccepted : ∀ xs, t.accepted = xs ++ t.pendingPackets →
      t₁.accepted = xs ++ packet :: t₁.pendingPackets) :
    ∃ out₁, out.step (.write rand packet) = some out₁ ∧ out₁.failed = false ∧
      Pair c c' k k' t₁ t' out₁ inn := by
  have hnew : IsNewKeys packet → out.writer.pendingKeyChange.isSome := fun hx ↦
    absurd hx hpacket.notNewKeys
  have husers : ∀ {users : List Bytes}, (∀ p ∈ users, UserPacket p) →
      ∀ p ∈ users ++ [packet], UserPacket p := fun hall p hp ↦
    (List.mem_append.1 hp).elim (hall p) fun hp ↦ List.mem_singleton.1 hp ▸ hpacket
  have haccepted' : ∀ {delivered users : List Bytes},
      t.accepted = (delivered ++ users) ++ t.pendingPackets →
      t₁.accepted = (delivered ++ (users ++ [packet])) ++ t₁.pendingPackets := fun hx ↦ by
    simpa using haccepted _ hx
  rcases h with @⟨e, users, users', queue, queue', m, m', h⟩ | @⟨e, users, queue, m, m', r, h⟩ | h
  · obtain ⟨writer, wire, hstep, hinv⟩ := h.outInv.push hag.sync hpacket.sendable hrand hnew
    obtain rfl : queue = [] := h.front.unsent hsent
    have htogether : Together c c' k k' t₁ t' (out.put writer wire packet) inn e
        (users ++ [packet]) users' [] queue' m m' := { h with
      orderly := hk.orderly
      exchanges := hk.exchanges.trans h.exchanges
      finishes := hk.control ▸ h.finishes
      fresh := fun hnot ↦ h.fresh fun hx ↦ hnot (hk.exchanging hx)
      outInv := by simpa using hinv
      tracks := h.tracks.write hk.sessionID hpacket.notNewKeys
      tracks' := h.tracks'.congr rfl rfl rfl rfl rfl
      front :=
        { isUser := husers h.front.isUser
          unsent := fun _ ↦ rfl
          engaged := fun hx ↦ absurd ((h.front.engaged hx).2.symm.trans hsent) nofun
          waiting := fun _ hx ↦ absurd (hx.symm.trans (hk.isSent.trans hsent)) nofun
          first := fun hx ↦ absurd (hk.exchanges.symm.trans hx) hpos.ne' }
      front' := h.front'.congr rfl rfl hk.engaged
      accepted := haccepted' h.accepted
      accepted' := hdelivered ▸ h.accepted' }
    exact ⟨_, hstep, hinv.failed, .together htogether⟩
  · obtain ⟨writer, wire, hstep, hinv⟩ := h.outInv.push hag.sync hpacket.sendable hrand hnew
    have hahead : Ahead c c' k k' t₁ t' (out.put writer wire packet) inn e
        (users ++ [packet]) queue m m' r := { h with
      orderly := hk.orderly
      exchanges := hk.exchanges.trans h.exchanges
      outInv := by
        rw [hk.isSent, hsent]
        rw [hsent] at hinv
        simpa using hinv
      tracks := h.tracks.write hk.sessionID hpacket.notNewKeys
      tracks' := h.tracks'.congr rfl rfl rfl rfl rfl
      engaged := fun hx ↦ h.engaged (hk.engaged.1 hx)
      isUser := husers h.isUser
      accepted := haccepted' h.accepted
      accepted' := hdelivered ▸ h.accepted' }
    exact ⟨_, hstep, hinv.failed, .ahead hahead⟩
  · -- an end that exchanges has sent its `kexInit` and keeps the packet back
    rw [isSent_of_exchanging h.exchanging'] at hsent
    cases hsent

/-- The `kexInit` of an end goes behind the packets of its callers. -/
theorem Pair.init (hag : Agreement c c' k k') (h : Pair c c' k k' t t' out inn)
    (horderly : t₁.Orderly c) (hexchanges : t₁.exchanges = t.exchanges)
    (hsession : t₁.sessionID = t.sessionID) (hsent : t.kexLoop.isSent = false)
    (hsent₁ : t₁.kexLoop.isSent = true)
    (hcontrol : t.control c = .send (c.kexInit t.exchanges) (t₁.control c))
    (hengaged : t₁.Engaged ↔ t.Engaged) (hexchanging : ¬ t.Exchanging)
    (hunseen : t.Unseen t₁) (hrand : 20 ≤ rand.length) :
    ∃ out₁, out.step (.write rand (c.kexInit t.exchanges)) = some out₁ ∧ out₁.failed = false ∧
      Pair c c' k k' t₁ t' out₁ inn := by
  obtain ⟨hsend, hhead⟩ := hag.kexInit t.exchanges
  have hnot := not_isNewKeys_kexInit hhead
  rcases h with @⟨e, users, users', queue, queue', m, m', h⟩ | @⟨e, users, queue, m, m', r, h⟩ | h
  · obtain ⟨writer, wire, hstep, hinv⟩ :=
      h.outInv.push hag.sync hsend hrand fun hx ↦ absurd hx hnot
    obtain rfl : queue = [] := h.front.unsent hsent
    -- the `kexInit` is the first packet of the exchange
    have hfinishes := h.finishes
    rw [hcontrol] at hfinishes
    have htogether : Together c c' k k' t₁ t' (out.put writer wire (c.kexInit t.exchanges)) inn
        e users users' [c.kexInit t.exchanges] queue' m m' := { h with
      orderly := horderly
      exchanges := hexchanges.trans h.exchanges
      finishes := hag.finishes_send hfinishes
      fresh := fun _ ↦ h.fresh hexchanging
      outInv := by simpa using hinv
      tracks := h.tracks.write hsession hnot
      tracks' := h.tracks'.congr rfl rfl rfl rfl rfl
      front :=
        { isUser := h.front.isUser
          unsent := fun hx ↦ absurd (hsent₁.symm.trans hx) nofun
          engaged := fun hx ↦ absurd ((h.front.engaged hx).2.symm.trans hsent) nofun
          waiting := fun _ _ ↦ ⟨[], by rw [hexchanges]⟩
          first := hexchanges ▸ h.front.first }
      front' := h.front'.congr rfl rfl hengaged
      accepted := hunseen.accepted_eq h.accepted
      accepted' := hunseen.delivered ▸ h.accepted' }
    exact ⟨_, hstep, hinv.failed, .together htogether⟩
  · obtain ⟨writer, wire, hstep, hinv⟩ :=
      h.outInv.push hag.sync hsend hrand fun hx ↦ absurd hx hnot
    have hahead : Ahead c c' k k' t₁ t' (out.put writer wire (c.kexInit t.exchanges)) inn
        e users queue m m' r := { h with
      orderly := horderly
      exchanges := hexchanges.trans h.exchanges
      outInv := by
        rw [hsent₁]
        rw [hsent, h.exchanges] at hinv
        simpa [h.exchanges] using hinv
      tracks := h.tracks.write hsession hnot
      tracks' := h.tracks'.congr rfl rfl rfl rfl rfl
      engaged := fun hx ↦ h.engaged (hengaged.1 hx)
      accepted := hunseen.accepted_eq h.accepted
      accepted' := hunseen.delivered ▸ h.accepted' }
    exact ⟨_, hstep, hinv.failed, .ahead hahead⟩
  · exact absurd h.exchanging' hexchanging

/-! ### Steps of an exchange -/

theorem control_of_exchange (h : t.kexLoop = .exchange d) : t.control c = d := by
  rw [HandshakeTransport.control, h]

theorem Watches.sendable (h : Watches m (.sent packet) m₁) : Sendable packet := by
  cases h with
  | sent hsend => exact hsend
  | sentNewKeys hsend => exact hsend

theorem Watches.not_skipped (h : Watches m (.received packet) m₁) : ¬ Skipped packet := by
  cases h with
  | received hskip => exact hskip
  | receivedNewKeys hnew =>
    rw [Skipped, show packet.head? = some msgNewKeys from hnew]
    decide

/-- An end that sends a `newKeys` has its next cipher. -/
theorem Tracks.pending_writer {keys : ℕ → PacketCipher × PacketCipher} (h : Tracks k e m id out inn)
    (hinv : out.Inv keys queue) (hmon : Watches m (.sent packet) m₁) (hnew : IsNewKeys packet) :
    out.writer.pendingKeyChange.isSome := by
  have hwriter := hinv.writer
  rw [h.writerKeys, h.sent] at hwriter
  cases hmon with
  | sent _ _ hnot => exact absurd hnew hnot
  | sentNewKeys _ _ hprepared hfirst =>
    rw [hprepared, hfirst] at hwriter
    obtain ⟨hx, -⟩ | ⟨-, hx⟩ := hwriter
    · exact absurd hx (Nat.succ_ne_self e)
    · rw [hx]
      rfl

theorem Tracks.pending_reader {keys : ℕ → PacketCipher × PacketCipher} (h : Tracks k e m id out inn)
    (hinv : inn.Inv keys queue) (hmon : Watches m (.received packet) m₁) (hnew : IsNewKeys packet) :
    inn.reader.pendingKeyChange.isSome := by
  have hreader := hinv.reader
  rw [h.readerKeys, h.received] at hreader
  cases hmon with
  | received _ hnot => exact absurd hnew hnot
  | receivedNewKeys _ hprepared hfirst =>
    rw [hprepared, hfirst] at hreader
    obtain ⟨hx, -⟩ | ⟨-, hx⟩ := hreader
    · exact absurd hx (Nat.succ_ne_self e)
    · rw [hx]
      rfl

/-- The watch of an end and its counts go together. -/
theorem Tracks.sent_packet {writer : ConnectionState} (h : Tracks k e m id out inn) (hid : id₁ = id)
    (hmon : Watches m (.sent packet) m₁) : Tracks k e m₁ id₁ (out.put writer wire packet) inn := by
  cases hmon with
  | sent _ _ hnew => exact h.write hid hnew
  | sentNewKeys _ hnew _ hfirst =>
    refine ⟨h.keys, hid.trans h.sessionID, h.writerKeys, h.readerKeys, ?_, h.received⟩
    rw [OneWay.put, OneWay.changes_append_singleton, h.sent, hfirst, if_pos hnew]
    rfl

theorem Tracks.received_packet {reader : ConnectionState} (h : Tracks k e m id out inn)
    (hid : id₁ = id) (hmon : Watches m (.received packet) m₁) :
    Tracks k e m₁ id₁ out (inn.turn reader wire packet) := by
  cases hmon with
  | received _ hnew =>
    refine ⟨h.keys, hid.trans h.sessionID, h.writerKeys, h.readerKeys, h.sent, ?_⟩
    rw [OneWay.turn, OneWay.changes_append_singleton, if_neg hnew]
    exact h.received
  | receivedNewKeys hnew _ hfirst =>
    refine ⟨h.keys, hid.trans h.sessionID, h.writerKeys, h.readerKeys, h.sent, ?_⟩
    rw [OneWay.turn, OneWay.changes_append_singleton, h.received, hfirst, if_pos hnew]
    rfl

/-- The first exchange gives the session its number, and no other changes it. -/
theorem sessionAt_prepare (k : ℕ → NewKeys) (e : ℕ) :
    (sessionAt k e false).or (some (k e).h) = sessionAt k e true := by
  rcases e with - | e <;> rfl

/-- Both ends of the ciphers that an end prepares. -/
theorem Tracks.prepare (h : Tracks k e m id out inn) {keys : NewKeys}
    (hid : id₁ = id.or (some keys.h)) (hout : out.Inv (directionKeys k k') queue)
    (hinn : inn.Inv (directionKeys k' k) queue') (hmon : Watches m (.acted keys) m₁) :
    ∃ writer reader,
      out.step (.prepareWriter keys.writer) =
        some { out with writer := writer, writerKeys := out.writerKeys + 1 } ∧
      inn.step (.prepareReader keys.reader) =
        some { inn with reader := reader, readerKeys := inn.readerKeys + 1 } ∧
      OneWay.Inv (directionKeys k k')
        { out with writer := writer, writerKeys := out.writerKeys + 1 } queue ∧
      OneWay.Inv (directionKeys k' k)
        { inn with reader := reader, readerKeys := inn.readerKeys + 1 } queue' ∧
      Tracks k e m₁ id₁ { out with writer := writer, writerKeys := out.writerKeys + 1 }
        { inn with reader := reader, readerKeys := inn.readerKeys + 1 } := by
  cases hmon with
  | acted hfirst =>
    have hwriterKeys : out.writerKeys = e := by rw [h.writerKeys, hfirst]; rfl
    have hreaderKeys : inn.readerKeys = e := by rw [h.readerKeys, hfirst]; rfl
    -- the ciphers of the earlier exchanges have all been taken
    have hwriter : out.writer.pendingKeyChange.isNone := by
      obtain ⟨-, hx⟩ | ⟨hx, -⟩ := hout.writer
      · rw [hx]
        rfl
      · rw [hwriterKeys, h.sent] at hx
        omega
    have hreader : inn.reader.pendingKeyChange.isNone := by
      obtain ⟨-, hx⟩ | ⟨hx, -⟩ := hinn.reader
      · rw [hx]
        rfl
      · rw [hreaderKeys, h.received] at hx
        omega
    obtain ⟨writer, hstep, hout₁⟩ := hout.prepareWriter hwriter
    obtain ⟨reader, hstep', hinn₁⟩ := hinn.prepareReader hreader
    have hcipher : m.keys.writer = (directionKeys k k' out.writerKeys).1 := by
      rw [h.keys, hwriterKeys]
      rfl
    have hcipher' : m.keys.reader = (directionKeys k' k inn.readerKeys).2 := by
      rw [h.keys, hreaderKeys]
      rfl
    have hsession : id₁ = sessionAt k e true := by
      rw [hid, h.sessionID, hfirst, h.keys, sessionAt_prepare]
    exact ⟨writer, reader, hcipher ▸ hstep, hcipher' ▸ hstep', hout₁, hinn₁, h.keys, hsession,
      congrArg (· + 1) hwriterKeys, congrArg (· + 1) hreaderKeys, h.sent, h.received⟩

namespace HandshakeTransport.Proceeds

variable {d₁ : KeyExchange}

theorem exchanging (h : t.Proceeds c d t₁ d₁ id) : t.Exchanging := ⟨d, h.kexLoop⟩

theorem exchanging₁ (h : t.Proceeds c d t₁ d₁ id) : t₁.Exchanging := ⟨d₁, h.kexLoop₁⟩

theorem engaged_iff (h : t.Proceeds c d t₁ d₁ id) : t₁.Engaged ↔ t.Engaged :=
  iff_of_true (.inr h.exchanging₁) (.inr h.exchanging)

theorem isSent_eq (h : t.Proceeds c d t₁ d₁ id) : t₁.kexLoop.isSent = t.kexLoop.isSent :=
  (isSent_of_exchanging h.exchanging₁).trans (isSent_of_exchanging h.exchanging).symm

end HandshakeTransport.Proceeds

/-- An exchange sends a packet. -/
theorem Pair.send (hag : Agreement c c' k k') (h : Pair c c' k k' t t' out inn)
    (hp : t.Proceeds c (.send packet d) t₁ d t.sessionID) (hrand : 20 ≤ rand.length) :
    ∃ out₁, out.step (.write rand packet) = some out₁ ∧ out₁.failed = false ∧
      Pair c c' k k' t₁ t' out₁ inn := by
  rcases h with @⟨e, users, users', queue, queue', m, m', h⟩ | h | h
  · have hfinishes := h.finishes
    rw [control_of_exchange hp.kexLoop] at hfinishes
    obtain ⟨m₁, hmon, htail⟩ := hfinishes.send
    obtain ⟨writer, wire, hstep, hinv⟩ :=
      h.outInv.push hag.sync hmon.sendable hrand (h.tracks.pending_writer h.outInv hmon)
    have htogether : Together c c' k k' t₁ t' (out.put writer wire packet) inn
        e users users' (queue ++ [packet]) queue' m₁ m' := { h with
      orderly := hp.orderly
      exchanges := hp.exchanges.trans h.exchanges
      finishes := by rwa [control_of_exchange hp.kexLoop₁]
      fresh := fun hnot ↦ absurd hp.exchanging₁ hnot
      outInv := by rwa [← List.append_assoc]
      tracks := h.tracks.sent_packet hp.sessionID hmon
      tracks' := h.tracks'.congr rfl rfl rfl rfl rfl
      front :=
        { isUser := h.front.isUser
          unsent := fun hx ↦ absurd ((isSent_of_exchanging hp.exchanging₁).symm.trans hx) nofun
          engaged := fun hx ↦ ⟨(h.front.engaged hx).1, isSent_of_exchanging hp.exchanging₁⟩
          waiting := fun hnot _ ↦ by
            obtain ⟨rest, hrest⟩ := h.front.waiting hnot (isSent_of_exchanging hp.exchanging)
            exact ⟨rest ++ [packet], by rw [hrest, hp.exchanges, List.cons_append]⟩
          first := hp.exchanges ▸ h.front.first }
      front' := h.front'.congr rfl rfl hp.engaged_iff
      accepted := hp.accepted_eq h.accepted
      accepted' := hp.delivered ▸ h.accepted' }
    exact ⟨_, hstep, hinv.failed, .together htogether⟩
  · exact absurd (.inr hp.exchanging) h.engaged
  · -- nothing may be sent to an end that has finished
    have hfinishes := finishes_symm h.finishes
    rw [control_of_exchange hp.kexLoop] at hfinishes
    obtain ⟨_, -, htail⟩ := hfinishes.send
    exact absurd (finishes_symm htail).queue_of_ret nofun

/-- An exchange has made the ciphers of both directions. -/
theorem Pair.prepare (h : Pair c c' k k' t t' out inn) {keys : NewKeys}
    (hp : t.Proceeds c (.act keys d) t₁ d (t.sessionID.or (some keys.h))) :
    ∃ out₁ inn₁, out.step (.prepareWriter keys.writer) = some out₁ ∧
      inn.step (.prepareReader keys.reader) = some inn₁ ∧ Pair c c' k k' t₁ t' out₁ inn₁ := by
  rcases h with @⟨e, users, users', queue, queue', m, m', h⟩ | h | @⟨e, users, queue, m, m', r, h⟩
  · have hfinishes := h.finishes
    rw [control_of_exchange hp.kexLoop] at hfinishes
    obtain ⟨m₁, hmon, htail⟩ := hfinishes.act
    obtain ⟨writer, reader, hstep, hstep', hout, hinn, htracks⟩ :=
      h.tracks.prepare hp.sessionID h.outInv h.innInv hmon
    exact ⟨_, _, hstep, hstep', .together { h with
      orderly := hp.orderly
      exchanges := hp.exchanges.trans h.exchanges
      finishes := by rwa [control_of_exchange hp.kexLoop₁]
      fresh := fun hnot ↦ absurd hp.exchanging₁ hnot
      outInv := hout
      innInv := hinn
      tracks := htracks
      tracks' := h.tracks'.congr rfl rfl rfl rfl rfl
      front := h.front.congr hp.exchanges hp.isSent_eq Iff.rfl
      front' := h.front'.congr rfl rfl hp.engaged_iff
      accepted := hp.accepted_eq h.accepted
      accepted' := hp.delivered ▸ h.accepted' }⟩
  · exact absurd (.inr hp.exchanging) h.engaged
  · have hfinishes := finishes_symm h.finishes
    rw [control_of_exchange hp.kexLoop] at hfinishes
    obtain ⟨m₁, hmon, htail⟩ := hfinishes.act
    obtain ⟨writer, reader, hstep, hstep', hout, hinn, htracks⟩ :=
      h.tracks'.prepare hp.sessionID h.innInv h.outInv hmon
    exact ⟨_, _, hstep, hstep', .behind { h with
      orderly' := hp.orderly
      exchanges' := hp.exchanges.trans h.exchanges'
      finishes := by
        rw [control_of_exchange hp.kexLoop₁]
        exact finishes_symm htail
      outInv := hinn
      innInv := hout
      tracks := h.tracks.congr rfl rfl rfl rfl rfl
      tracks' := htracks
      exchanging' := hp.exchanging₁
      accepted := hp.delivered ▸ h.accepted
      accepted' := hp.accepted_eq h.accepted' }⟩

section Read

variable {t₂ : HandshakeTransport} {out₂ inn₂ : OneWay} {answer : Option Bytes}

theorem exists_of_serve_read {keys : ℕ → PacketCipher × PacketCipher} (hinv : inn.Inv keys queue)
    (h : t.serve t₁ out inn rand answer .read = some (t₂, out₂, inn₂)) :
    ∃ packet queue', queue = packet :: queue' := by
  obtain ⟨inn', hstep, -⟩ := Option.bind_eq_some_iff.1 h
  exact hinv.exists_of_read hstep

/-- What an end reads is the first packet on its way. -/
theorem eq_of_serve_read {keys : ℕ → PacketCipher × PacketCipher} {first : Bytes}
    (hinv : inn.Inv keys (first :: queue))
    (hpending : IsNewKeys first → inn.reader.pendingKeyChange.isSome) (hskip : ¬ Skipped first)
    (h : t.serve t₁ out inn rand (some packet) .read = some (t₂, out₂, inn₂)) :
    packet = first ∧ t₂ = t₁ ∧ out₂ = out ∧ ∃ reader wire,
      inn₂ = inn.turn reader wire first ∧ inn₂.Inv keys queue := by
  obtain ⟨reader, wire, hstep, hinv₁⟩ := hinv.read hpending
  obtain ⟨inn', hstep', h⟩ := Option.bind_eq_some_iff.1 h
  cases hstep.symm.trans hstep'
  have hlast : (inn.turn reader wire first).received.getLast? = some first := List.getLast?_concat
  rw [if_neg (by rw [hinv₁.failed]; decide), hlast] at h
  change (if Skipped first then _ else _) = _ at h
  rw [if_neg hskip] at h
  split_ifs at h with heq
  cases h
  exact ⟨Option.some.inj heq, rfl, rfl, reader, wire, rfl, hinv₁⟩

/-- An exchange gets a packet from the other end. -/
theorem Pair.receive (h : Pair c c' k k' t t' out inn) {next : Bytes → KeyExchange}
    (hp : t.Proceeds c (.recv next) t₁ (next packet) t.sessionID)
    (hserve : t.serve t₁ out inn rand (some packet) .read = some (t₂, out₂, inn₂)) :
    Pair c c' k k' t₂ t' out₂ inn₂ := by
  rcases h with @⟨e, users, users', queue, queue', m, m', h⟩ | h | @⟨e, users, queue, m, m', r, h⟩
  · obtain ⟨rfl, -⟩ := h.front'.engaged (.inr hp.exchanging)
    have hinv := h.innInv
    rw [List.nil_append] at hinv
    obtain ⟨first, queue', rfl⟩ := exists_of_serve_read hinv hserve
    have hfinishes := h.finishes
    rw [control_of_exchange hp.kexLoop] at hfinishes
    obtain ⟨m₁, hmon, htail⟩ := hfinishes.recv
    obtain ⟨rfl, rfl, rfl, reader, wire, rfl, hinv₁⟩ :=
      eq_of_serve_read hinv (h.tracks.pending_reader hinv hmon) hmon.not_skipped hserve
    have htogether : Together c c' k k' t₂ t' out₂ (inn.turn reader wire packet)
        e users [] queue queue' m₁ m' := { h with
      orderly := hp.orderly
      exchanges := hp.exchanges.trans h.exchanges
      finishes := by rwa [control_of_exchange hp.kexLoop₁]
      fresh := fun hnot ↦ absurd hp.exchanging₁ hnot
      innInv := hinv₁
      tracks := h.tracks.received_packet hp.sessionID hmon
      tracks' := h.tracks'.congr rfl rfl rfl rfl rfl
      front := h.front.congr hp.exchanges hp.isSent_eq Iff.rfl
      front' :=
        { isUser := nofun
          unsent := fun hx ↦ absurd (h.front'.unsent hx) nofun
          engaged := fun _ ↦ h.front'.engaged (.inr hp.exchanging)
          waiting := fun hnot ↦ absurd (.inr hp.exchanging₁) hnot
          first := fun _ ↦ rfl }
      accepted := hp.accepted_eq h.accepted
      accepted' := hp.delivered ▸ h.accepted' }
    exact .together htogether
  · exact absurd (.inr hp.exchanging) h.engaged
  · have hfinishes := finishes_symm h.finishes
    rw [control_of_exchange hp.kexLoop] at hfinishes
    -- the other end has finished, so all that this end has to receive is on its way
    have hne : queue ≠ [] := by
      obtain hx | hx | ⟨_, _, hx, -⟩ := hfinishes.progress
      · exact hx
      · exact hx.elim
      · cases hx
    obtain ⟨first, queue, rfl⟩ := List.exists_cons_of_ne_nil hne
    obtain ⟨m₁, hmon, htail⟩ := hfinishes.recv
    have hinv := h.outInv
    rw [List.cons_append, List.cons_append] at hinv
    obtain ⟨rfl, rfl, rfl, reader, wire, rfl, hinv₁⟩ :=
      eq_of_serve_read hinv (h.tracks'.pending_reader hinv hmon) hmon.not_skipped hserve
    exact .behind { h with
      orderly' := hp.orderly
      exchanges' := hp.exchanges.trans h.exchanges'
      finishes := by
        rw [control_of_exchange hp.kexLoop₁]
        exact finishes_symm htail
      outInv := hinv₁
      tracks := h.tracks.congr rfl rfl rfl rfl rfl
      tracks' := h.tracks'.received_packet hp.sessionID hmon
      exchanging' := hp.exchanging₁
      accepted := hp.delivered ▸ h.accepted
      accepted' := hp.accepted_eq h.accepted' }

theorem control_of_not_engaged (h : ¬ t.Engaged) :
    t.control c =
      if t.kexLoop.isSent then
        .recv (c.enterKeyExchange t.exchanges t.sessionID (c.kexInit t.exchanges))
      else .send (c.kexInit t.exchanges)
        (.recv (c.enterKeyExchange t.exchanges t.sessionID (c.kexInit t.exchanges))) := by
  rw [HandshakeTransport.Engaged, not_or] at h
  rw [HandshakeTransport.control_eq h.2, Option.not_isSome_iff_eq_none.1 h.1]

variable {isFirst : Bool}

/-- The `kexInit` of the other end is read, before this end's is sent or after it. -/
theorem Together.read_kexInit (hag : Agreement c c' k k') {reader : ConnectionState} {wire : Bytes}
    (h : Together c c' k k' t t' out inn e users [] queue (c'.kexInit t'.exchanges :: queue') m m')
    (hloop : t.readLoop = .reading isFirst) (hengaged : ¬ t.Engaged)
    (hsent' : t'.kexLoop.isSent = true)
    (hinv : (inn.turn reader wire (c'.kexInit t'.exchanges)).Inv (directionKeys k' k) queue') :
    Together c c' k k' (t.received isFirst (c'.kexInit t'.exchanges)) t' out
      (inn.turn reader wire (c'.kexInit t'.exchanges)) e users [] queue queue' m m' := by
  have hhead := (hag.kexInit' t'.exchanges).2
  obtain ⟨horderly, hheld, hexchanges, hsession, hkexLoop, hunseen⟩ :=
    HandshakeTransport.received_kexInit h.orderly hloop hhead
  set t₁ := t.received isFirst (c'.kexInit t'.exchanges)
  have hexchanging : ¬ t.Exchanging := fun hx ↦ hengaged (.inr hx)
  have hexchanging₁ : ¬ t₁.Exchanging := by
    rwa [HandshakeTransport.Exchanging, hkexLoop]
  have hengaged₁ : t₁.Engaged := .inl (by rw [hheld]; rfl)
  have hfinishes := h.finishes
  rw [control_of_not_engaged hengaged] at hfinishes
  have hmon : Watches m (.received (c'.kexInit t'.exchanges)) m :=
    .received (not_skipped_kexInit hhead) (not_isNewKeys_kexInit hhead)
  exact { h with
    orderly := horderly
    exchanges := hexchanges.trans h.exchanges
    innInv := hinv
    finishes := by
      rw [HandshakeTransport.control_eq hexchanging₁, hheld, hkexLoop, hexchanges, hsession]
      dsimp only
      -- an end that has sent its own goes on; one that has not sends it first
      split_ifs at hfinishes ⊢
      · exact hag.finishes_recv hfinishes
      · exact .sendLeft (hag.watches_kexInit _ _) (hag.finishes_recv (hag.finishes_send hfinishes))
    tracks := h.tracks.received_packet hsession hmon
    tracks' := h.tracks'.congr rfl rfl rfl rfl rfl
    fresh := fun _ ↦ h.fresh hexchanging
    front := h.front.congr hexchanges (by rw [hkexLoop]) Iff.rfl
    front' :=
      { isUser := nofun
        unsent := fun hx ↦ absurd (hsent'.symm.trans hx) nofun
        engaged := fun _ ↦ ⟨rfl, hsent'⟩
        waiting := fun hnot ↦ absurd hengaged₁ hnot
        first := fun _ ↦ rfl }
    accepted := hunseen.accepted_eq h.accepted
    accepted' := hunseen.delivered ▸ h.accepted' }

/-- A packet of a caller is read. -/
theorem Together.read_user {reader : ConnectionState} {wire : Bytes}
    (h : Together c c' k k' t t' out inn e users (packet :: users') queue queue' m m')
    (hloop : t.readLoop = .reading isFirst)
    (hinv : (inn.turn reader wire packet).Inv (directionKeys k' k) (users' ++ queue')) :
    Together c c' k k' (t.received isFirst packet) t' out (inn.turn reader wire packet)
      e users users' queue queue' m m' := by
  have hpacket : UserPacket packet := h.front'.isUser packet List.mem_cons_self
  -- before the first exchange nothing but the `kexInit` is on its way
  have hpos : 0 < t.exchanges := by
    refine Nat.pos_of_ne_zero fun hzero ↦ ?_
    have hzero' : t'.exchanges = 0 := by rw [h.exchanges', ← h.exchanges, hzero]
    exact absurd (h.front'.first hzero') nofun
  obtain ⟨hk, hdelivered, hpending, haccepted⟩ :=
    HandshakeTransport.received_user h.orderly hloop hpacket hpos
  have hmon : Watches m (.received packet) m := .received hpacket.notSkipped hpacket.notNewKeys
  exact { h with
    orderly := hk.orderly
    exchanges := hk.exchanges.trans h.exchanges
    innInv := hinv
    finishes := hk.control ▸ h.finishes
    tracks := h.tracks.received_packet hk.sessionID hmon
    tracks' := h.tracks'.congr rfl rfl rfl rfl rfl
    fresh := fun hnot ↦ h.fresh fun hx ↦ hnot (hk.exchanging hx)
    front := h.front.congr hk.exchanges hk.isSent Iff.rfl
    front' :=
      { isUser := fun p hp ↦ h.front'.isUser p (List.mem_cons_of_mem _ hp)
        unsent := h.front'.unsent
        engaged := fun hx ↦ absurd (h.front'.engaged (hk.engaged.1 hx)).1 nofun
        waiting := fun hnot ↦ h.front'.waiting fun hx ↦ hnot (hk.engaged.2 hx)
        first := fun hx ↦ absurd (h.front'.first hx) nofun }
    accepted := by rw [haccepted, hpending]; exact h.accepted
    accepted' := by
      rw [hdelivered]
      simpa using h.accepted' }

/-- Packets of callers are delivered, and a `kexInit` stops the reader. -/
theorem Pair.read (hag : Agreement c c' k k') (h : Pair c c' k k' t t' out inn)
    (hloop : t.readLoop = .reading isFirst)
    (hserve : t.serve (t.received isFirst packet) out inn rand (some packet) .read =
      some (t₂, out₂, inn₂)) :
    Pair c c' k k' t₂ t' out₂ inn₂ := by
  rcases h with @⟨e, users, users', queue, queue', m, m', h⟩ | h | h
  · have hengaged := h.orderly.not_engaged hloop
    rcases users' with - | ⟨first, users'⟩
    · have hinv := h.innInv
      rw [List.nil_append] at hinv
      -- no packet of a caller is left, so this is the `kexInit` of the other end
      obtain ⟨first, queue', rfl⟩ := exists_of_serve_read hinv hserve
      have hsent' : t'.kexLoop.isSent = true := by
        by_contra hnot
        exact absurd (h.front'.unsent (Bool.eq_false_of_not_eq_true hnot)) nofun
      obtain ⟨rest, hrest⟩ := h.front'.waiting hengaged hsent'
      obtain ⟨rfl, rfl⟩ := List.cons.inj hrest
      have hhead := (hag.kexInit' t'.exchanges).2
      obtain ⟨rfl, rfl, rfl, reader, wire, rfl, hinv₁⟩ := eq_of_serve_read hinv
        (fun hnew ↦ absurd hnew (not_isNewKeys_kexInit hhead)) (not_skipped_kexInit hhead) hserve
      exact .together (h.read_kexInit hag hloop hengaged hsent' hinv₁)
    · have hinv := h.innInv
      have hfirst : UserPacket first := h.front'.isUser first List.mem_cons_self
      obtain ⟨rfl, rfl, rfl, reader, wire, rfl, hinv₁⟩ := eq_of_serve_read hinv
        (fun hnew ↦ absurd hnew hfirst.notNewKeys) hfirst.notSkipped hserve
      exact .together (h.read_user hloop hinv₁)
  · obtain ⟨_, _, hx⟩ := exists_of_serve_read h.innInv hserve
    cases hx
  · exact absurd h.exchanging' (h.orderly'.of_reading hloop).2

end Read

/-! ### The end of an exchange -/

theorem Tracks.next (h : Tracks k e m id out inn) (hid : id₁ = id) (hdone : m.Done r) :
    Tracks k (e + 1) (.fresh (k (e + 1))) id₁ out inn where
  keys := rfl
  sessionID := by
    rw [hid, h.sessionID, hdone.prepared]
    rcases e with - | e <;> rfl
  writerKeys := by rw [h.writerKeys, hdone.prepared]; rfl
  readerKeys := by rw [h.readerKeys, hdone.prepared]; rfl
  sent := by rw [h.sent, hdone.sentNewKeys]; rfl
  received := by rw [h.received, hdone.readNewKeys]; rfl

/-- An end that has read the other's `newKeys` finishes, whether the other has or not. -/
theorem Pair.finish (hag : Agreement c c' k k') (h : Pair c c' k k' t t' out inn)
    (hloop : t.kexLoop = .exchange (.ret r)) (horderly : r = .ok () → t₁.Orderly c)
    (hexchanges : t₁.exchanges = t.exchanges + 1) (hsession : t₁.sessionID = t.sessionID)
    (hloop₁ : t₁.kexLoop = .flush) (hengaged : ¬ t₁.Engaged) (hunseen : t.Unseen t₁) :
    Pair c c' k k' t₁ t' out inn := by
  have hexchanging : t.Exchanging := ⟨_, hloop⟩
  have hsent₁ : t₁.kexLoop.isSent = false := by rw [hloop₁]; rfl
  rcases h with @⟨e, users, users', queue, queue', m, m', h⟩ | h | @⟨e, users, queue, m, m', r', h⟩
  · have hfinishes := h.finishes
    rw [control_of_exchange hloop] at hfinishes
    obtain ⟨_, _, hdone, -⟩ := hfinishes.exists_fin_of_ret
    obtain rfl : queue' = [] := hfinishes.queue_of_ret
    -- the `newKeys` that this end has read, the other has sent
    have hexchanging' : t'.Exchanging := by
      by_contra hnot
      have hsent := h.tracks'.sent
      rw [h.fresh' hnot, h.innInv.sent, OneWay.changes, List.countP_append] at hsent
      have hreceived := h.tracks.received
      rw [hdone.readNewKeys, OneWay.changes] at hreceived
      simp [Watch.fresh, hreceived] at hsent
      omega
    obtain ⟨rfl, -⟩ := h.front.engaged (.inr hexchanging')
    obtain ⟨rfl, -⟩ := h.front'.engaged (.inr hexchanging)
    have hahead : Ahead c c' k k' t₁ t' out inn e [] queue m m' r :=
      { orderly := horderly hdone.ok
        orderly' := h.orderly'
        exchanges := by rw [hexchanges, h.exchanges]
        exchanges' := h.exchanges'
        outInv := by
          rw [hsent₁]
          simpa using h.outInv
        innInv := h.innInv
        finishes := hfinishes
        tracks := h.tracks.next hsession hdone
        tracks' := h.tracks'
        engaged := hengaged
        exchanging' := hexchanging'
        isUser := fun _ hx ↦ absurd hx List.not_mem_nil
        accepted := hunseen.accepted_eq h.accepted
        accepted' := by
          rw [hunseen.delivered]
          simpa using h.accepted' }
    exact .ahead hahead
  · exact absurd (.inr hexchanging) h.engaged
  · have hfinishes := h.finishes
    rw [control_of_exchange hloop] at hfinishes
    obtain ⟨-, hdone⟩ := hfinishes.fin_of_ret
    obtain rfl : queue = [] := (finishes_symm hfinishes).queue_of_ret
    have hstart : Finishes Watches Completed (.fresh (k (e + 1))) (t₁.control c)
        (.fresh (k' (e + 1))) (t'.control c') []
        (if t'.kexLoop.isSent then [c'.kexInit (e + 1)] else []) := by
      have hstart := hag.finishes_start (e + 1)
      rw [control_of_not_engaged hengaged, control_of_not_engaged h.engaged, hsent₁,
        if_neg Bool.false_ne_true, hexchanges, h.exchanges, h.exchanges',
        (h.tracks'.next hsession hdone).sessionID, h.tracks.sessionID]
      split_ifs
      · exact finishes_symm (hag.symm.finishes_send (finishes_symm hstart))
      · exact hstart
    have htogether : Together c c' k k' t₁ t' out inn (e + 1) [] users []
        (if t'.kexLoop.isSent then [c'.kexInit (e + 1)] else []) (.fresh (k (e + 1)))
        (.fresh (k' (e + 1))) :=
      { orderly := horderly hdone.ok
        orderly' := h.orderly
        exchanges := by rw [hexchanges, h.exchanges']
        exchanges' := h.exchanges
        outInv := h.innInv
        innInv := h.outInv
        finishes := hstart
        tracks := h.tracks'.next hsession hdone
        tracks' := h.tracks
        fresh := fun _ ↦ rfl
        fresh' := fun _ ↦ rfl
        front :=
          { isUser := fun _ hx ↦ absurd hx List.not_mem_nil
            unsent := fun _ ↦ rfl
            engaged := fun hx ↦ absurd hx h.engaged
            waiting := fun _ hx ↦ absurd (hsent₁.symm.trans hx) Bool.false_ne_true
            first := fun _ ↦ rfl }
        front' :=
          { isUser := h.isUser
            unsent := fun hx ↦ if_neg (by rw [hx]; decide)
            engaged := fun hx ↦ absurd hx hengaged
            waiting := fun _ hx ↦ ⟨[], by rw [if_pos hx, h.exchanges]⟩
            first := fun hx ↦ absurd (h.exchanges.symm.trans hx) (Nat.succ_ne_zero e) }
        accepted := by
          rw [List.append_nil]
          exact hunseen.accepted_eq h.accepted'
        accepted' := by
          rw [hunseen.delivered]
          exact h.accepted }
    exact .together htogether

theorem Pair.orderly (h : Pair c c' k k' t t' out inn) : t.Orderly c := by
  rcases h with h | h | h
  · exact h.orderly
  · exact h.orderly
  · exact h.orderly'

/-- **A step of one end**, with its connection. -/
theorem Pair.move (hag : Agreement c c' k k') (h : Pair c c' k k' t t' out inn)
    {a : HandshakeTransport.Act} (hproper : t.Proper a rand)
    (hmove : t.move c out inn a rand = some (t₁, out₁, inn₁)) : Pair c c' k k' t₁ t' out₁ inn₁ := by
  rw [HandshakeTransport.move] at hmove
  split_ifs at hmove with hok
  obtain ⟨⟨t₂, conn⟩, hstep, hserve⟩ := Option.bind_eq_some_iff.1 hmove
  dsimp only at hserve
  have hrand : 20 ≤ rand.length := hproper.1
  -- what a step writes is written, so that the end goes on
  have hpush : ∀ {packet : Bytes}, (∃ out₂, out.step (.write rand packet) = some out₂ ∧
      out₂.failed = false ∧ Pair c c' k k' t₂ t' out₂ inn) →
      t.serve t₂ out inn rand a.packet (.push packet) = some (t₁, out₁, inn₁) →
      Pair c c' k k' t₁ t' out₁ inn₁ := by
    rintro packet ⟨out₂, hwrite, hfailed, hpair⟩ hserve
    rw [HandshakeTransport.serve, hwrite, Option.map_some, hfailed,
      if_neg Bool.false_ne_true] at hserve
    cases hserve
    exact hpair
  have hmoves := HandshakeTransport.moves_of_step h.orderly hok hproper hstep
  generalize a.packet = answer at hserve hmoves hpush
  cases hmoves with
  | silent hk hunseen =>
    cases hserve
    exact h.keeps hk hunseen.delivered fun _ ↦ hunseen.accepted_eq
  | queue hk hdelivered hpending haccepted =>
    cases hserve
    refine h.keeps hk hdelivered fun xs hxs ↦ ?_
    rw [haccepted, hpending, hxs, List.append_assoc]
  | user hk hdelivered hsent hpos hpacket haccepted =>
    exact hpush (h.user hag hk hdelivered hsent hpos hpacket hrand haccepted) hserve
  | init horderly₁ hexchanges hsession hsent hsent₁ hcontrol hengaged hexchanging _ hunseen =>
    exact hpush (h.init hag horderly₁ hexchanges hsession hsent hsent₁ hcontrol hengaged hexchanging
      hunseen hrand) hserve
  | send hp => exact hpush (h.send hag hp hrand) hserve
  | prepare hp =>
    obtain ⟨out₂, inn₂, hwriter, hreader, hpair⟩ := h.prepare hp
    rw [HandshakeTransport.serve, hreader, hwriter] at hserve
    cases hserve
    exact hpair
  | receive hanswer hp =>
    subst hanswer
    exact h.receive hp hserve
  | finish hloop horderly₁ hexchanges hsession hloop₁ hengaged hunseen =>
    cases hserve
    exact h.finish hag hloop horderly₁ hexchanges hsession hloop₁ hengaged hunseen
  | read hanswer hloop =>
    subst hanswer
    exact h.read hag hloop hserve

end Ssh
