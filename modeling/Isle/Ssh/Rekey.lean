import Isle.Ssh.Handshake

/-!
# What a step of one end can do

One `handshakeTransport`, without the connection. `Orderly` is what its goroutines keep among
themselves as long as no error occurs: who has the `kexInit` of the other side, who waits for whom,
and which packets may wait. `moves_of_step` says once, for all steps, what they do as far as the
other end depends on it; what the other end depends on is what is left of the exchange (`control`),
whether this end's `kexInit` is sent and whether it has read the other's.
-/

namespace Ssh

/-! ### What is asked of the callers -/

/-- A packet that every cipher can carry. -/
structure Sendable (packet : Bytes) : Prop where
  pos : 0 < packet.length
  length : packet.length + 20 ≤ maxPacket
  connected : packet.head? ≠ some msgDisconnect

namespace HandshakeTransport

/-- The connection did not answer with an error. -/
def Act.isOk : Act → Bool
  | .writePacket _ err | .sendKexInit err | .kexSend err | .flush err => err.isNone
  | .kexReceive r | .readOnePacket r => r.isOk
  | _ => true

/-- The packet that the connection answers with. -/
def Act.packet : Act → Option Bytes
  | .kexReceive (.ok packet) | .readOnePacket (.ok packet) => some packet
  | _ => none

/-- What the callers of an end see to: they write after `waitSession` has returned, which reads the
first packet of `incoming`, and no packet that the transport would not carry or would drop. There
are random bytes for the padding. -/
def Proper (t : HandshakeTransport) (a : Act) (rand : Bytes) : Prop :=
  20 ≤ rand.length ∧
    match a with
    | .writePacket packet _ => 0 < t.taken ∧ Sendable packet ∧ ¬ Skipped packet
    | _ => True

end HandshakeTransport

/-! ### Where an end is -/

namespace KexLoop

/-- The `kexInit` of this exchange is sent. -/
def isSent : KexLoop → Bool
  | .select true | .leave _ | .exchange _ => true
  | _ => false

/-- It has not begun an exchange. -/
def isQuiet : KexLoop → Bool
  | .check | .select false | .flush => true
  | _ => false

/-- It has nothing of the other side. -/
def isFree : KexLoop → Bool
  | .check | .select _ | .sendInit none | .flush => true
  | _ => false

/-- It has the `kexInit` of the other side, for which `readLoop` waits. -/
def isBusy : KexLoop → Bool
  | .sendInit (some _) | .leave (some _) | .exchange _ => true
  | _ => false

/-- The packet of the other end that the loop has taken and not answered yet. -/
def request : KexLoop → Option Bytes
  | .sendInit request | .leave request => request
  | _ => none

theorem request_of_free {k : KexLoop} (h : k.isFree = true) : k.request = none := by
  rcases k with - | s | (- | o) | r | d | - | - <;> first | rfl | cases h

end KexLoop

/-- A packet of a caller. -/
structure UserPacket (packet : Bytes) : Prop where
  sendable : Sendable packet
  notSkipped : ¬ Skipped packet
  notKexInit : packet.head? ≠ some msgKexInit
  notNewKeys : ¬ IsNewKeys packet

namespace HandshakeTransport

variable (c : HandshakeConfig) (t : HandshakeTransport)

/-- The `kexInit` of the other side, before the exchange. -/
def held : Option Bytes :=
  match t.readLoop with
  | .post otherInit _ => some otherInit
  | .wait _ => t.startKex.or t.kexLoop.request
  | _ => none

/-- The exchange is under way. -/
def Exchanging : Prop := ∃ d, t.kexLoop = .exchange d

/-- The `kexInit` of the other side is read. -/
def Engaged : Prop := t.held.isSome ∨ t.Exchanging

/-- What is left of this exchange. -/
def control : KeyExchange :=
  match t.kexLoop with
  | .exchange d => d
  | k =>
    let rest : KeyExchange := match t.held with
      | some otherInit =>
        c.enterKeyExchange t.exchanges t.sessionID (c.kexInit t.exchanges) otherInit
      | none => .recv (c.enterKeyExchange t.exchanges t.sessionID (c.kexInit t.exchanges))
    if k.isSent then rest else .send (c.kexInit t.exchanges) rest

/-- The packets of the other end's callers. -/
def delivered : List Bytes := t.incoming.filter fun packet ↦ ¬ IsNewKeys packet

/-- Who has the `kexInit` of the other side, and who waits for whom. -/
def Coherent : Prop :=
  match t.readLoop with
  | .reading _ | .post _ _ => t.startKex = none ∧ t.done = none ∧ t.kexLoop.isFree = true
  | .wait _ =>
    (∃ otherInit, t.startKex = some otherInit) ∧ t.done = none ∧ t.kexLoop.isFree = true ∨
    t.startKex = none ∧ t.done = none ∧ t.kexLoop.isBusy = true ∨
    t.startKex = none ∧ t.done = some none ∧ t.kexLoop.isFree = true
  | .fail _ | .stopped => False

/-- What holds of an end in every state. -/
structure Orderly : Prop where
  writeError : t.writeError = none
  startKexClosed : t.startKexClosed = false
  sentInit : t.sentInit = if t.kexLoop.isSent then some (c.kexInit t.exchanges) else none
  coherent : t.Coherent
  pending : t.pendingPackets ≠ [] → 0 < t.exchanges ∧ (t.kexLoop.isSent = true ∨ t.kexLoop = .flush)
  users : ∀ packet ∈ t.pendingPackets, UserPacket packet
  first : t.readLoop = .reading true → t.exchanges = 0
  done : t.done ≠ none → 0 < t.exchanges
  incoming : t.taken ≤ t.incoming.length ∧ (t.incoming ≠ [] → 0 < t.exchanges)
  eager : t.exchanges = 0 → t.kexLoop.isQuiet = true → t.requestKex = true

/-- A step that the callers do not see. -/
structure Unseen (t₁ : HandshakeTransport) : Prop where
  delivered : t₁.delivered = t.delivered
  pending : t₁.pendingPackets = t.pendingPackets
  accepted : t₁.accepted = t.accepted

/-- A step outside `enterKeyExchange`, after which the exchange is where it was. -/
structure Keeps (t₁ : HandshakeTransport) : Prop where
  orderly : t₁.Orderly c
  exchanges : t₁.exchanges = t.exchanges
  sessionID : t₁.sessionID = t.sessionID
  isSent : t₁.kexLoop.isSent = t.kexLoop.isSent
  control : t₁.control c = t.control c
  engaged : t₁.Engaged ↔ t.Engaged
  exchanging : t.Exchanging → t₁.Exchanging

/-- A step of `enterKeyExchange`, after which the session has the number `id`. -/
structure Proceeds (d : KeyExchange) (t₁ : HandshakeTransport) (d₁ : KeyExchange)
    (id : Option Bytes) : Prop extends Unseen t t₁ where
  kexLoop : t.kexLoop = .exchange d
  kexLoop₁ : t₁.kexLoop = .exchange d₁
  orderly : t₁.Orderly c
  exchanges : t₁.exchanges = t.exchanges
  sessionID : t₁.sessionID = id

/-- What a step can do, as far as the other end depends on it, and what the connection answers. -/
inductive Moves (answer : Option Bytes) : HandshakeTransport → Conn → Prop
  | silent {t₁} (h : Keeps c t t₁) (hunseen : Unseen t t₁) : Moves answer t₁ .nothing
  | queue {t₁ packet} (h : Keeps c t t₁) (hdelivered : t₁.delivered = t.delivered)
      (hpending : t₁.pendingPackets = t.pendingPackets ++ [packet])
      (haccepted : t₁.accepted = t.accepted ++ [packet]) : Moves answer t₁ .nothing
  | user {t₁ packet} (h : Keeps c t t₁) (hdelivered : t₁.delivered = t.delivered)
      (hsent : t.kexLoop.isSent = false) (hpos : 0 < t.exchanges) (hpacket : UserPacket packet)
      (haccepted : ∀ xs, t.accepted = xs ++ t.pendingPackets →
        t₁.accepted = xs ++ packet :: t₁.pendingPackets) : Moves answer t₁ (.push packet)
  | init {t₁} (horderly : t₁.Orderly c) (hexchanges : t₁.exchanges = t.exchanges)
      (hsession : t₁.sessionID = t.sessionID)
      (hsent : t.kexLoop.isSent = false) (hsent₁ : t₁.kexLoop.isSent = true)
      (hcontrol : t.control c = .send (c.kexInit t.exchanges) (t₁.control c))
      (hengaged : t₁.Engaged ↔ t.Engaged) (hexchanging : ¬ t.Exchanging)
      (hexchanging₁ : ¬ t₁.Exchanging) (hunseen : Unseen t t₁) :
      Moves answer t₁ (.push (c.kexInit t.exchanges))
  | send {packet d t₁} (h : Proceeds c t (.send packet d) t₁ d t.sessionID) :
      Moves answer t₁ (.push packet)
  | prepare {keys d t₁}
      (h : Proceeds c t (.act keys d) t₁ d (t.sessionID.or (some keys.h))) :
      Moves answer t₁ (.prepareKeyChange keys)
  | receive {packet d t₁} (hanswer : answer = some packet)
      (h : Proceeds c t (.recv d) t₁ (d packet) t.sessionID) : Moves answer t₁ .read
  | finish {r t₁} (hloop : t.kexLoop = .exchange (.ret r)) (horderly : r = .ok () → t₁.Orderly c)
      (hexchanges : t₁.exchanges = t.exchanges + 1) (hsession : t₁.sessionID = t.sessionID)
      (hloop₁ : t₁.kexLoop = .flush) (hengaged : ¬ t₁.Engaged) (hunseen : Unseen t t₁) :
      Moves answer t₁ .nothing
  | read {first packet} (hanswer : answer = some packet) (hloop : t.readLoop = .reading first) :
      Moves answer (t.received first packet) .read

/-! ### The steps of an end -/

variable {c t} {t₁ : HandshakeTransport} {conn : Conn}

theorem Unseen.accepted_eq (h : Unseen t t₁) {xs : List Bytes}
    (hx : t.accepted = xs ++ t.pendingPackets) : t₁.accepted = xs ++ t₁.pendingPackets := by
  rw [h.accepted, h.pending]
  exact hx

theorem Keeps.refl (h : t.Orderly c) : Keeps c t t :=
  ⟨h, rfl, rfl, rfl, rfl, Iff.rfl, id⟩

theorem control_eq (h : ¬ t.Exchanging) :
    t.control c =
      let rest : KeyExchange := match t.held with
        | some otherInit =>
          c.enterKeyExchange t.exchanges t.sessionID (c.kexInit t.exchanges) otherInit
        | none => .recv (c.enterKeyExchange t.exchanges t.sessionID (c.kexInit t.exchanges))
      if t.kexLoop.isSent then rest else .send (c.kexInit t.exchanges) rest := by
  rw [control]
  split
  next d hd => exact absurd ⟨d, hd⟩ h
  next => rfl

/-- Outside `enterKeyExchange` the other end depends on what is sent and what is held. -/
theorem Keeps.of_held (h : t₁.Orderly c) (hexchanges : t₁.exchanges = t.exchanges)
    (hsession : t₁.sessionID = t.sessionID) (hsent : t₁.kexLoop.isSent = t.kexLoop.isSent)
    (hheld : t₁.held = t.held)
    (hloop : ¬ t.Exchanging) (hloop₁ : ¬ t₁.Exchanging) : Keeps c t t₁ := by
  refine ⟨h, hexchanges, hsession, hsent, ?_, ?_, fun hx ↦ absurd hx hloop⟩
  · rw [control_eq hloop, control_eq hloop₁, hexchanges, hsession, hsent, hheld]
  · rw [Engaged, Engaged, hheld, iff_false_intro hloop, iff_false_intro hloop₁]

theorem not_exchanging (h : t.kexLoop.isFree = true) : ¬ t.Exchanging := by
  rintro ⟨d, hd⟩
  rw [hd] at h
  cases h

/-- `readLoop` waits while `kexLoop` has its request. -/
theorem Coherent.of_not_free (h : t.Coherent) (hfree : t.kexLoop.isFree = false) :
    (∃ firstKex, t.readLoop = .wait firstKex) ∧ t.startKex = none ∧ t.done = none ∧
      t.kexLoop.isBusy = true := by
  rw [Coherent] at h
  split at h
  · exact absurd h.2.2 (by rw [hfree]; decide)
  · exact absurd h.2.2 (by rw [hfree]; decide)
  · obtain ⟨-, -, h⟩ | ⟨hs, hd, hb⟩ | ⟨-, -, h⟩ := h
    · exact absurd h (by rw [hfree]; decide)
    · exact ⟨⟨_, ‹_›⟩, hs, hd, hb⟩
    · exact absurd h (by rw [hfree]; decide)
  · exact h.elim
  · exact h.elim

theorem Coherent.of_startKex {otherInit : Bytes} (h : t.Coherent)
    (hstart : t.startKex = some otherInit) :
    (∃ firstKex, t.readLoop = .wait firstKex) ∧ t.done = none ∧ t.kexLoop.isFree = true := by
  rw [Coherent, hstart] at h
  split at h
  · exact absurd h.1 (by simp)
  · exact absurd h.1 (by simp)
  · obtain ⟨-, hd, hf⟩ | ⟨h, -⟩ | ⟨h, -⟩ := h
    · exact ⟨⟨_, ‹_›⟩, hd, hf⟩
    · cases h
    · cases h
  · exact h.elim
  · exact h.elim

theorem Orderly.isSent_eq (h : t.Orderly c) : t.sentInit.isSome = t.kexLoop.isSent := by
  rw [h.sentInit]
  rcases t.kexLoop.isSent <;> rfl

section Steps

variable {answer : Option Bytes}

variable {packet : Bytes} {first : Bool}

/-- A packet is sent, or kept back while there is an exchange. -/
theorem moves_writePacket (h : t.Orderly c) (htaken : 0 < t.taken) (hsend : Sendable packet)
    (hskip : ¬ Skipped packet) (hstep : t.writePacket packet none = some (t₁, conn)) :
    Moves c t answer t₁ conn := by
  rcases packet with - | ⟨b, bs⟩
  · cases hstep
  rw [writePacket] at hstep
  split_ifs at hstep with hb hlocked herror hsent
  · cases hstep
    exact .silent (.refl h) ⟨rfl, rfl, rfl⟩
  · rw [h.writeError] at herror
    cases herror
  all_goals
    rw [not_or] at hb
    have hpacket : UserPacket (b :: bs) :=
      ⟨hsend, hskip, fun he ↦ hb.1 (Option.some.inj he), fun he ↦ hb.2 (Option.some.inj he)⟩
    rw [h.isSent_eq] at hsent
    -- what was taken was put there after an exchange
    have hpos : 0 < t.exchanges :=
      h.incoming.2 (List.ne_nil_of_length_pos (htaken.trans_le h.incoming.1))
    cases hstep
  · refine .queue ⟨?_, rfl, rfl, rfl, rfl, Iff.rfl, id⟩ rfl rfl rfl
    exact ⟨h.writeError, h.startKexClosed, h.sentInit, h.coherent,
      fun _ ↦ ⟨hpos, .inl hsent⟩,
      fun p hp ↦ (List.mem_append.1 hp).elim (h.users p) fun hp ↦ List.mem_singleton.1 hp ▸ hpacket,
      h.first, h.done, h.incoming, h.eager⟩
  · -- nothing waits, as no exchange has begun
    have hpending : t.pendingPackets = [] := by
      by_contra hne
      obtain ⟨-, hs | hf⟩ := h.pending hne
      · exact hsent hs
      · rw [locked, hf] at hlocked
        exact hlocked rfl
    refine .user ⟨?_, rfl, rfl, rfl, rfl, Iff.rfl, id⟩ rfl (Bool.eq_false_of_not_eq_true hsent)
      hpos hpacket fun xs hxs ↦ ?_
    · exact ⟨rfl, h.startKexClosed, h.sentInit, h.coherent, h.pending, h.users, h.first, h.done,
        h.incoming, fun hzero hquiet ↦ Bool.or_eq_true_iff.2 (.inl (h.eager hzero hquiet))⟩
    · show t.accepted ++ [b :: bs] = xs ++ (b :: bs) :: t.pendingPackets
      rw [hxs, hpending, List.append_nil]

theorem moves_readPacket (h : t.Orderly c) (hstep : t.readPacket = some (t₁, conn)) :
    Moves c t answer t₁ conn := by
  rw [readPacket] at hstep
  split_ifs at hstep with htaken
  · cases hstep
    exact .silent ⟨⟨h.writeError, h.startKexClosed, h.sentInit, h.coherent, h.pending, h.users,
      h.first, h.done, ⟨htaken, h.incoming.2⟩, h.eager⟩, rfl, rfl, rfl, rfl, Iff.rfl, id⟩
      ⟨rfl, rfl, rfl⟩
  · split at hstep
    · cases hstep
      exact .silent (.refl h) ⟨rfl, rfl, rfl⟩
    · cases hstep
      exact .silent (.refl h) ⟨rfl, rfl, rfl⟩
    · cases hstep

/-- A step outside `enterKeyExchange` that only changes the loops and the channels between them. -/
theorem moves_of_loops (h : t.Orderly c) {requestKex : Bool} {startKex : Option Bytes}
    {kexLoop : KexLoop} {readLoop : ReadLoop} (hexchanging : ¬ t.Exchanging)
    (hexchanging₁ : ∀ d, kexLoop ≠ .exchange d) (hsent : kexLoop.isSent = t.kexLoop.isSent)
    (hflush : t.kexLoop = .flush → t.pendingPackets = [] ∨ kexLoop = .flush)
    (hquiet : kexLoop.isQuiet = true → t.kexLoop.isQuiet = true ∧ requestKex = t.requestKex)
    (hfirst : readLoop = .reading true → t.readLoop = .reading true)
    (hcoherent : Coherent { t with requestKex, startKex, kexLoop, readLoop })
    (hheld : held { t with requestKex, startKex, kexLoop, readLoop } = t.held) :
    Moves c t answer { t with requestKex, startKex, kexLoop, readLoop } .nothing := by
  set t₁ : HandshakeTransport := { t with requestKex, startKex, kexLoop, readLoop } with ht₁
  have horderly : t₁.Orderly c := by
    refine ⟨h.writeError, h.startKexClosed, ?_, hcoherent, fun hne ↦ ?_, h.users,
      fun hr ↦ h.first (hfirst hr), h.done, h.incoming, fun hzero hq ↦ ?_⟩
    · show t.sentInit = if kexLoop.isSent then some (c.kexInit t.exchanges) else none
      rw [hsent, h.sentInit]
    · obtain ⟨hpos, hs | hf⟩ := h.pending hne
      · exact ⟨hpos, .inl (hsent.trans hs)⟩
      · exact ⟨hpos, .inr ((hflush hf).resolve_left hne)⟩
    · exact (hquiet hq).2.trans (h.eager hzero (hquiet hq).1)
  exact .silent (.of_held horderly rfl rfl hsent hheld hexchanging fun ⟨d, hd⟩ ↦ hexchanging₁ d hd)
    ⟨rfl, rfl, rfl⟩

theorem moves_takeStart (h : t.Orderly c) (hstep : t.takeStart = some (t₁, conn)) :
    Moves c t answer t₁ conn := by
  rw [takeStart] at hstep
  split at hstep
  next otherInit hloop hstart =>
    obtain ⟨⟨firstKex, hread⟩, hdone, hfree⟩ := h.coherent.of_startKex hstart
    cases hstep
    refine moves_of_loops h (not_exchanging hfree) nofun (by rw [hloop]; rfl) (by simp [hloop])
      nofun id ?_ ?_
    · simp [Coherent, hread, hdone, KexLoop.isBusy]
    · simp [held, hread, hstart, KexLoop.request]
  next otherInit hloop hstart =>
    obtain ⟨⟨firstKex, hread⟩, hdone, hfree⟩ := h.coherent.of_startKex hstart
    cases hstep
    refine moves_of_loops h (not_exchanging hfree) nofun (by rw [hloop]; rfl) (by simp [hloop])
      nofun id ?_ ?_
    · simp [Coherent, hread, hdone, KexLoop.isBusy]
    · simp [held, hread, hstart, KexLoop.request]
  next =>
    rw [if_neg (by rw [h.startKexClosed]; decide)] at hstep
    cases hstep
  next => cases hstep

theorem moves_takeRequest (h : t.Orderly c) (hstep : t.takeRequest = some (t₁, conn)) :
    Moves c t answer t₁ conn := by
  rw [takeRequest] at hstep
  split at hstep
  next hloop _ =>
    cases hstep
    exact moves_of_loops h (not_exchanging (by rw [hloop]; rfl)) (by simp [hloop]) rfl
      (by simp [hloop]) (by simp [hloop, KexLoop.isQuiet]) id h.coherent rfl
  next hloop _ =>
    cases hstep
    refine moves_of_loops h (not_exchanging (by rw [hloop]; rfl)) nofun (by rw [hloop]; rfl)
      (by simp [hloop]) nofun id ?_ ?_
    · have hc := h.coherent
      rw [Coherent, hloop] at hc
      exact hc
    · simp [held, hloop, KexLoop.request]
  next => cases hstep

/-- The `kexInit` is sent once for each exchange. -/
theorem moves_sendKexInit (h : t.Orderly c) (hstep : t.sendKexInit c none = some (t₁, conn)) :
    Moves c t answer t₁ conn := by
  rw [sendKexInit] at hstep
  split at hstep
  next request hloop =>
    have hsent : t.kexLoop.isSent = false := by rw [hloop]; rfl
    rw [if_neg (by rw [h.isSent_eq, hsent]; decide)] at hstep
    cases hstep
    have hexchanging : ¬ t.Exchanging := by
      rintro ⟨d, hd⟩
      rw [hloop] at hd
      cases hd
    -- what `readLoop` waits for is the same in front of `sendKexInit` and behind it
    have hlike : ∀ request, (sent request).isSent = true ∧ (sent request).isQuiet = false ∧
        (sent request).isFree = (KexLoop.sendInit request).isFree ∧
        (sent request).isBusy = (KexLoop.sendInit request).isBusy ∧
        (sent request).request = (KexLoop.sendInit request).request ∧
        ∀ d, sent request ≠ .exchange d := by
      rintro (- | otherInit) <;> exact ⟨rfl, rfl, rfl, rfl, rfl, nofun⟩
    obtain ⟨hsent₁, hquiet, hfree, hbusy, hrequest, hnot⟩ := hlike request
    set t₁ : HandshakeTransport :=
      { t with sentInit := some (c.kexInit t.exchanges), kexLoop := sent request }
    have hexchanging₁ : ¬ t₁.Exchanging := fun ⟨d, hd⟩ ↦ hnot d hd
    have hheld : t₁.held = t.held := by
      simp only [held, t₁, hloop, hrequest]
    refine .init ⟨h.writeError, h.startKexClosed, ?_, ?_, ?_, h.users, h.first, h.done, h.incoming,
      fun _ hx ↦ absurd (hquiet.symm.trans hx) nofun⟩ rfl rfl hsent hsent₁ ?_ ?_ hexchanging
      hexchanging₁ ⟨rfl, rfl, rfl⟩
    · exact (if_pos hsent₁).symm
    · have hc := h.coherent
      simp only [Coherent, hloop, t₁, hfree, hbusy] at hc ⊢
      exact hc
    · exact fun hne ↦ ⟨(h.pending hne).1, .inl hsent₁⟩
    · rw [control_eq hexchanging, control_eq hexchanging₁, hheld, hsent, if_pos hsent₁]
      rfl
    · rw [Engaged, Engaged, hheld, iff_false_intro hexchanging, iff_false_intro hexchanging₁]
  next => cases hstep

/-- The exchange begins. -/
theorem moves_leave (h : t.Orderly c) (hstep : t.leave c = some (t₁, conn)) :
    Moves c t answer t₁ conn := by
  rw [leave] at hstep
  split at hstep
  next herror =>
    rw [h.writeError] at herror
    cases herror
  next herror =>
    rw [h.writeError] at herror
    cases herror
  next otherInit hloop _ =>
    have hsent : t.kexLoop.isSent = true := by rw [hloop]; rfl
    obtain ⟨⟨firstKex, hread⟩, hstart, hdone, -⟩ := h.coherent.of_not_free (by rw [hloop]; rfl)
    have hinit : t.sentInit = some (c.kexInit t.exchanges) := h.sentInit.trans (if_pos hsent)
    cases hstep
    have hexchanging : ¬ t.Exchanging := by
      rintro ⟨d, hd⟩
      rw [hloop] at hd
      cases hd
    have hheld : t.held = some otherInit := by
      simp [held, hread, hstart, hloop, KexLoop.request]
    refine .silent ⟨⟨h.writeError, h.startKexClosed, hinit, ?_, ?_, h.users, h.first, h.done,
      h.incoming, nofun⟩, rfl, rfl, hsent.symm, ?_, ?_, fun hx ↦ absurd hx hexchanging⟩
      ⟨rfl, rfl, rfl⟩
    · simp [Coherent, hread, hstart, hdone, KexLoop.isBusy]
    · exact fun hne ↦ ⟨(h.pending hne).1, .inl rfl⟩
    · rw [control_eq hexchanging, hheld, hsent, hinit]
      rfl
    · exact iff_of_true (.inr ⟨_, rfl⟩) (.inl (by rw [hheld]; rfl))
  next => cases hstep

/-- A step of `enterKeyExchange` changes nothing else. -/
theorem proceeds_of_exchange (h : t.Orderly c) {d d₁ : KeyExchange}
    {sessionID : Option Bytes} (hloop : t.kexLoop = .exchange d) :
    Proceeds c t d { t with sessionID, kexLoop := .exchange d₁ } d₁ sessionID := by
  refine ⟨⟨rfl, rfl, rfl⟩, hloop, rfl, ⟨h.writeError, h.startKexClosed, ?_, ?_,
    fun hne ↦ ⟨(h.pending hne).1, .inl rfl⟩, h.users, h.first, h.done, h.incoming, nofun⟩, rfl, rfl⟩
  · have hinit := h.sentInit
    rw [hloop] at hinit
    exact hinit
  · have hc := h.coherent
    rw [Coherent, hloop] at hc
    exact hc

theorem moves_kexSend (h : t.Orderly c) (hstep : t.kexSend none = some (t₁, conn)) :
    Moves c t answer t₁ conn := by
  rw [kexSend] at hstep
  split at hstep
  next packet d hloop =>
    cases hstep
    exact .send (proceeds_of_exchange h hloop)
  next => cases hstep

theorem moves_kexReceive (h : t.Orderly c) (hstep : t.kexReceive (.ok packet) = some (t₁, conn)) :
    Moves c t (some packet) t₁ conn := by
  rw [kexReceive] at hstep
  split at hstep
  next d hloop =>
    cases hstep
    exact .receive rfl (proceeds_of_exchange h hloop)
  next => cases hstep

theorem moves_kexPrepare (h : t.Orderly c) (hstep : t.kexPrepare = some (t₁, conn)) :
    Moves c t answer t₁ conn := by
  rw [kexPrepare] at hstep
  split at hstep
  next keys d hloop =>
    cases hstep
    exact .prepare (proceeds_of_exchange h hloop)
  next => cases hstep

theorem moves_finish (h : t.Orderly c) (hstep : t.finish c = some (t₁, conn)) :
    Moves c t answer t₁ conn := by
  rw [finish] at hstep
  split at hstep
  next r hloop =>
    obtain ⟨⟨firstKex, hread⟩, hstart, -, -⟩ := h.coherent.of_not_free (by rw [hloop]; rfl)
    cases hstep
    refine .finish hloop ?_ rfl rfl rfl ?_ ⟨rfl, rfl, rfl⟩
    · rintro rfl
      refine ⟨rfl, h.startKexClosed, rfl, ?_, fun _ ↦ ⟨Nat.succ_pos _, .inr rfl⟩, h.users, ?_,
        fun _ ↦ Nat.succ_pos _, ⟨h.incoming.1, fun _ ↦ Nat.succ_pos _⟩, nofun⟩
      · simp [Coherent, hread, hstart, KexLoop.isFree]
      · exact fun hr ↦ absurd (hread.symm.trans hr) nofun
    · rintro (hheld | ⟨d, hd⟩)
      · simp [held, hread, hstart, KexLoop.request] at hheld
      · cases hd
  next => cases hstep

/-- What was kept back is sent, in order. -/
theorem moves_flush (h : t.Orderly c) {err : Option String} (herr : err = none)
    (hstep : t.flush err = some (t₁, conn)) : Moves c t answer t₁ conn := by
  rw [flush.eq_def] at hstep
  split at hstep
  next hloop hpending =>
    cases hstep
    refine moves_of_loops h (not_exchanging (by rw [hloop]; rfl)) nofun (by rw [hloop]; rfl)
      (fun _ ↦ .inl hpending) (fun _ ↦ ⟨by rw [hloop]; rfl, rfl⟩) id ?_ ?_
    · have hc := h.coherent
      rw [Coherent, hloop] at hc
      exact hc
    · simp [held, hloop, KexLoop.request]
  next packet packets hloop hpending =>
    cases hstep
    have hpos : 0 < t.exchanges := (h.pending (by rw [hpending]; exact List.cons_ne_nil _ _)).1
    have hmem := h.users packet (by rw [hpending]; exact List.mem_cons_self)
    refine .user ⟨⟨rfl, h.startKexClosed, h.sentInit, h.coherent, fun _ ↦ ⟨hpos, .inr hloop⟩,
      fun p hp ↦ h.users p (by rw [hpending]; exact List.mem_cons_of_mem _ hp), h.first,
      h.done, h.incoming, fun hzero ↦ absurd hzero hpos.ne'⟩, rfl, rfl, rfl, rfl, Iff.rfl, id⟩ rfl
      (by rw [hloop]; rfl) hpos hmem ?_
    intro xs hxs
    rwa [hpending] at hxs
  next => cases herr
  next => cases hstep

theorem moves_check (h : t.Orderly c) (hstep : t.check = some (t₁, conn)) :
    Moves c t answer t₁ conn := by
  rw [check] at hstep
  split at hstep
  next hloop =>
    rw [if_neg (by rw [h.writeError]; decide)] at hstep
    cases hstep
    refine moves_of_loops h (not_exchanging (by rw [hloop]; rfl)) nofun (by rw [hloop]; rfl)
      (by simp [hloop]) (fun _ ↦ ⟨by rw [hloop]; rfl, rfl⟩) id ?_ ?_
    · have hc := h.coherent
      rw [Coherent, hloop] at hc
      exact hc
    · simp [held, hloop, KexLoop.request]
  next => cases hstep

theorem moves_post (h : t.Orderly c) (hstep : t.post = some (t₁, conn)) :
    Moves c t answer t₁ conn := by
  rw [post] at hstep
  split at hstep
  next otherInit firstKex hread hstart =>
    cases hstep
    have hc := h.coherent
    rw [Coherent, hread] at hc
    obtain ⟨-, hdone, hfree⟩ := hc
    have hnot := not_exchanging hfree
    refine moves_of_loops h hnot (fun d hd ↦ hnot ⟨d, hd⟩) rfl .inr (fun hq ↦ ⟨hq, rfl⟩) nofun ?_ ?_
    · exact .inl ⟨⟨_, rfl⟩, hdone, hfree⟩
    · simp [held, hread]
  next => cases hstep

/-- The reader goes on when the exchange has ended. -/
theorem moves_resume (h : t.Orderly c) (hstep : t.resume c = some (t₁, conn)) :
    Moves c t answer t₁ conn := by
  rw [resume] at hstep
  have hc := h.coherent
  split at hstep
  next hread hdone =>
    rw [Coherent, hread, hdone] at hc
    simp at hc
  next firstKex hread hdone =>
    rw [Coherent, hread, hdone] at hc
    obtain ⟨-, hd, -⟩ | ⟨-, hd, -⟩ | ⟨hstart, -, hfree⟩ := hc
    · cases hd
    · cases hd
    have hnot := not_exchanging hfree
    have hpos : 0 < t.exchanges := h.done (by rw [hdone]; nofun)
    have hheld : t.held = none := by
      rw [held, hread, hstart]
      exact (Option.none_or).trans (KexLoop.request_of_free hfree)
    cases hstep
    refine .silent (.of_held ⟨h.writeError, h.startKexClosed, h.sentInit, ⟨hstart, rfl, hfree⟩,
      h.pending, h.users, nofun, fun hx ↦ absurd rfl hx,
      ⟨h.incoming.1.trans (by simp), fun _ ↦ hpos⟩, h.eager⟩ rfl rfl rfl
      hheld.symm hnot hnot) ⟨?_, rfl, rfl⟩
    show List.filter _ (t.incoming ++ _) = List.filter _ t.incoming
    rcases firstKex with - | - <;> simp [IsNewKeys]
  next => cases hstep

/-- **What a step of an end does**, if the connection gives no error. -/
theorem moves_of_step (h : t.Orderly c) {a : Act} {rand : Bytes} (hok : a.isOk = true)
    (hproper : Proper t a rand) (hstep : t.step c a = some (t₁, conn)) :
    Moves c t a.packet t₁ conn := by
  cases a with
  | writePacket packet err =>
    obtain rfl : err = none := Option.isNone_iff_eq_none.1 hok
    obtain ⟨-, htaken, hsend, hskip⟩ := hproper
    exact moves_writePacket h htaken hsend hskip hstep
  | readPacket => exact moves_readPacket h hstep
  | takeStart => exact moves_takeStart h hstep
  | takeRequest => exact moves_takeRequest h hstep
  | sendKexInit err =>
    obtain rfl : err = none := Option.isNone_iff_eq_none.1 hok
    exact moves_sendKexInit h hstep
  | leave => exact moves_leave h hstep
  | kexSend err =>
    obtain rfl : err = none := Option.isNone_iff_eq_none.1 hok
    exact moves_kexSend h hstep
  | kexReceive r =>
    rcases r with e | packet
    · cases hok
    · exact moves_kexReceive h hstep
  | kexPrepare => exact moves_kexPrepare h hstep
  | finish => exact moves_finish h hstep
  | flush err => exact moves_flush h (Option.isNone_iff_eq_none.1 hok) hstep
  | check => exact moves_check h hstep
  | drain =>
    -- where nothing fails the loop never ends, and nothing is left to drain
    rw [step, drain] at hstep
    split at hstep
    next hloop hstart =>
      obtain ⟨-, -, hfree⟩ := h.coherent.of_startKex hstart
      rw [hloop] at hfree
      cases hfree
    next => cases hstep
  | readOnePacket r =>
    rcases r with e | packet
    · cases hok
    rw [step, readOnePacket.eq_def] at hstep
    split_ifs at hstep
    split at hstep
    next first packet' hread heq =>
      cases heq
      cases hstep
      exact .read rfl hread
    next heq => cases heq
    next => cases hstep
  | post => exact moves_post h hstep
  | resume => exact moves_resume h hstep
  | stop =>
    have hc := h.coherent
    rw [step, stop] at hstep
    split at hstep
    next e hread =>
      -- nor does the reader fail
      rw [Coherent, hread] at hc
      exact hc.elim
    next => cases hstep

/-- `readLoop` reads only as long as nothing of the other end's `kexInit` is there. -/
theorem Orderly.of_reading (h : t.Orderly c) (hread : t.readLoop = .reading first) :
    t.held = none ∧ ¬ t.Exchanging := by
  have hc := h.coherent
  rw [Coherent, hread] at hc
  exact ⟨by rw [held, hread], not_exchanging hc.2.2⟩

theorem Orderly.not_engaged (h : t.Orderly c) (hread : t.readLoop = .reading first) :
    ¬ t.Engaged := by
  obtain ⟨hheld, hexchanging⟩ := h.of_reading hread
  rintro (hx | hx)
  · rw [hheld] at hx
    cases hx
  · exact hexchanging hx

/-- A packet of a caller is delivered at once. -/
theorem received_user (h : t.Orderly c) (hread : t.readLoop = .reading first)
    (hp : UserPacket packet) (hpos : 0 < t.exchanges) :
    Keeps c t (t.received first packet) ∧
      (t.received first packet).delivered = t.delivered ++ [packet] ∧
      (t.received first packet).pendingPackets = t.pendingPackets ∧
      (t.received first packet).accepted = t.accepted := by
  obtain ⟨hheld, hnot⟩ := h.of_reading hread
  obtain rfl : first = false := by
    rcases first with - | -
    · rfl
    · exact absurd (h.first hread) hpos.ne'
  have hskip := hp.notSkipped
  rw [Skipped] at hskip
  have hc := h.coherent
  rw [Coherent, hread] at hc
  rw [received, if_pos hp.notKexInit, if_neg Bool.false_ne_true, if_neg hskip]
  refine ⟨.of_held ⟨h.writeError, h.startKexClosed, h.sentInit, hc, h.pending, h.users, nofun,
    h.done, ⟨h.incoming.1.trans (by simp [countRead]), fun _ ↦ hpos⟩,
    fun hzero ↦ absurd hzero hpos.ne'⟩ rfl rfl rfl hheld.symm hnot hnot, ?_, rfl, rfl⟩
  show List.filter _ (t.incoming ++ [packet]) = List.filter _ t.incoming ++ [packet]
  simp [hp.notNewKeys]

theorem received_kexInit (h : t.Orderly c) (hread : t.readLoop = .reading first)
    (hp : packet.head? = some msgKexInit) :
    (t.received first packet).Orderly c ∧ (t.received first packet).held = some packet ∧
      (t.received first packet).exchanges = t.exchanges ∧
      (t.received first packet).sessionID = t.sessionID ∧
      (t.received first packet).kexLoop = t.kexLoop ∧ Unseen t (t.received first packet) := by
  have hc := h.coherent
  rw [Coherent, hread] at hc
  rw [received, if_neg (not_not.2 hp)]
  exact ⟨⟨h.writeError, h.startKexClosed, h.sentInit, hc, h.pending, h.users, nofun, h.done,
    h.incoming, fun hzero hquiet ↦ Bool.or_eq_true_iff.2 (.inl (h.eager hzero hquiet))⟩, rfl, rfl,
    rfl, rfl, rfl, rfl, rfl⟩

end Steps

end HandshakeTransport

end Ssh
