import Isle.Ssh.Peers

/-!
# What the callers of two ends see

The invariant of `Isle.Ssh.Peers`, read for the callers of two `handshakeTransport`s: what they
write arrives, in order and without a gap, however many exchanges go on meanwhile and whoever begins
them (`Peers.delivers_accepted`).

An end that cannot go on waits for a packet, and then there is none on its way to it
(`Pair.enabled_or_waits`). So where neither end can go on both wait; and two that wait for each
other are not in an exchange, since two processes that fit together never do so
(`Finishes.progress`). That is `Peers.progress_or_delivered`.
-/

namespace Ssh

open Dialogue

variable {c c' : HandshakeConfig} {k k' : ℕ → NewKeys} {t t' t₁ : HandshakeTransport}
  {out inn : OneWay} {packet : Bytes}

/-! ### What the callers see -/

theorem HandshakeTransport.orderly_new : (HandshakeTransport.new c).Orderly c :=
  ⟨rfl, rfl, rfl, ⟨rfl, rfl, rfl⟩, fun hne ↦ absurd rfl hne, nofun, fun _ ↦ rfl,
    fun hne ↦ absurd rfl hne, ⟨Nat.le_refl _, fun hne ↦ absurd rfl hne⟩, fun _ _ ↦ rfl⟩

theorem HandshakeTransport.not_engaged_new : ¬ (HandshakeTransport.new c).Engaged := by
  rintro (hx | ⟨d, hx⟩)
  · cases hx
  · cases hx

theorem Tracks.new : Tracks k 0 (.fresh (k 0)) none .new .new := ⟨rfl, rfl, rfl, rfl, rfl, rfl⟩

theorem Pair.new (hag : Agreement c c' k k') :
    Pair c c' k k' (.new c) (.new c') .new .new := by
  have hfront : ∀ {c c' : HandshakeConfig}, Front c (.new c) (.new c') [] [] := fun {_ _} ↦
    ⟨nofun, fun _ ↦ rfl, fun hx ↦ absurd hx HandshakeTransport.not_engaged_new, nofun, fun _ ↦ rfl⟩
  have htogether : Together c c' k k' (.new c) (.new c') .new .new 0 [] [] [] [] (.fresh (k 0))
      (.fresh (k' 0)) :=
    ⟨HandshakeTransport.orderly_new, HandshakeTransport.orderly_new, rfl, rfl, OneWay.inv_new,
      OneWay.inv_new, hag.finishes_start 0, .new, .new, fun _ ↦ rfl, fun _ ↦ rfl, hfront, hfront,
      rfl, rfl⟩
  exact .together htogether

/-- What an end took from its callers is delivered, on its way or waiting. -/
theorem Pair.accepted_eq (h : Pair c c' k k' t t' out inn) :
    out.failed = false ∧ t.writeError = none ∧
      ∃ users, t.accepted = (t'.delivered ++ users) ++ t.pendingPackets ∧
        (out.wire = [] → users = []) := by
  rcases h with @⟨e, users, users', queue, queue', m, m', h⟩ | @⟨e, users, queue, m, m', r, h⟩ | h
  · refine ⟨h.outInv.failed, h.orderly.writeError, users, h.accepted, fun hwire ↦ ?_⟩
    exact (List.append_eq_nil_iff.1 (h.outInv.flight.queue_eq_nil_iff.2 hwire)).1
  · refine ⟨h.outInv.failed, h.orderly.writeError, users, h.accepted, fun hwire ↦ ?_⟩
    have hnil := h.outInv.flight.queue_eq_nil_iff.2 hwire
    rw [List.append_eq_nil_iff, List.append_eq_nil_iff] at hnil
    exact hnil.1.2
  · refine ⟨h.innInv.failed, h.orderly'.writeError, [], ?_, fun _ ↦ rfl⟩
    rw [List.append_nil]
    exact h.accepted'

/-- An end has the number of the session from the end of its first exchange on. -/
theorem Pair.sessionID_eq (h : Pair c c' k k' t t' out inn) (hpos : 0 < t.exchanges) :
    t.sessionID = some (k 0).h := by
  have hne : ∀ {e b}, 0 < e → sessionAt k e b = some (k 0).h := fun {e b} he ↦
    if_neg fun hx ↦ he.ne' hx.1
  rcases h with h | h | h
  · rw [h.tracks.sessionID, hne (h.exchanges ▸ hpos)]
  · rw [h.tracks.sessionID, hne (Nat.succ_pos _)]
  · rw [h.tracks'.sessionID, hne (h.exchanges' ▸ hpos)]

/-! ### That there is always something to do -/

namespace HandshakeTransport

/-- The step of a caller that writes, which nobody has to take. -/
def Act.isWrite : Act → Bool
  | .writePacket _ _ => true
  | _ => false

/-- One of the end's goroutines can go on, or a caller can take a packet. -/
def Enabled (c : HandshakeConfig) (t : HandshakeTransport) (out inn : OneWay) : Prop :=
  ∃ a rand r, a.isWrite = false ∧ t.Proper a rand ∧ t.move c out inn a rand = some r

variable {a : Act} {conn : Conn}

theorem enabled_of_serve (hown : a.isWrite = false) (hok : a.isOk = true)
    (hstep : (t.step c a).map Prod.snd = some conn)
    (hserve : ∀ t₁, ∃ r, t.serve t₁ out inn (List.replicate 20 0) a.packet conn = some r) :
    t.Enabled c out inn := by
  obtain ⟨⟨t₁, _⟩, heq, rfl⟩ := Option.map_eq_some_iff.1 hstep
  obtain ⟨r, hr⟩ := hserve t₁
  refine ⟨a, List.replicate 20 0, r, hown, ⟨List.length_replicate.ge, ?_⟩, ?_⟩
  · cases a with
    | writePacket packet err => cases hown
    | _ => trivial
  · rw [move, if_pos hok, heq]
    exact hr

theorem enabled_of_nothing (hown : a.isWrite = false) (hok : a.isOk = true)
    (hstep : (t.step c a).map Prod.snd = some .nothing) : t.Enabled c out inn :=
  enabled_of_serve hown hok hstep fun _ ↦ ⟨_, rfl⟩

theorem enabled_of_push (packet : Bytes) (hown : a.isWrite = false) (hok : a.isOk = true)
    (hfailed : out.failed = false) (hstep : (t.step c a).map Prod.snd = some (.push packet)) :
    t.Enabled c out inn := by
  refine enabled_of_serve hown hok hstep fun t₁ ↦ ?_
  obtain ⟨out₁, hwrite⟩ : ∃ out₁, out.step (.write (List.replicate 20 0) packet) = some out₁ := by
    rw [OneWay.step, if_pos hfailed]
    split
    · exact ⟨_, rfl⟩
    · exact ⟨_, rfl⟩
  rw [serve, hwrite]
  exact ⟨_, rfl⟩

/-- A read is possible whatever the packet is that there is to read. -/
theorem enabled_of_read (act : Bytes → Act) (hown : ∀ packet, (act packet).isWrite = false)
    (hok : ∀ packet, (act packet).isOk = true)
    (hpacket : ∀ packet, (act packet).packet = some packet) (hfailed : inn.failed = false)
    (hwire : inn.wire ≠ []) (hstep : ∀ packet, (t.step c (act packet)).map Prod.snd = some .read) :
    t.Enabled c out inn := by
  rcases hread : inn.reader.readPacket inn.wire with f | ⟨packet, reader, rest⟩
  · have hstep' : inn.step .read = some { inn with failed := true } := by
      rw [OneWay.step, if_pos ⟨hfailed, hwire⟩, hread]
    refine enabled_of_serve (hown []) (hok []) (hstep []) fun t₁ ↦ ?_
    rw [serve, hstep']
    exact ⟨_, rfl⟩
  · have hstep' : inn.step .read =
        some (inn.turn reader rest packet) := by
      rw [OneWay.step, if_pos ⟨hfailed, hwire⟩, hread]
    refine enabled_of_serve (hown packet) (hok packet) (hstep packet) fun t₁ ↦ ?_
    rw [serve, hstep', hpacket, Option.bind_eq_bind, Option.bind_some, OneWay.turn, hfailed,
      if_neg Bool.false_ne_true, List.getLast?_concat, Option.bind_eq_bind, Option.bind_some,
      if_pos rfl]
    split_ifs
    · exact ⟨_, rfl⟩
    · exact ⟨_, rfl⟩

/-- Where an end waits: for a request or the other end's `kexInit`, or for a packet of the
exchange. -/
inductive Waits (t : HandshakeTransport) : Prop
  | idle {sent first} (hloop : t.kexLoop = .select sent) (hread : t.readLoop = .reading first)
      (hrequest : t.requestKex = false)
  | receive {d} (hloop : t.kexLoop = .exchange (.recv d))

end HandshakeTransport

section Enabled

open HandshakeTransport

/-- The reader of an end goes on as long as it does not wait for an exchange. -/
theorem Pair.enabled_reader (h : Pair c c' k k' t t' out inn) (hbusy : t.kexLoop.isBusy = false)
    (hstart : t.startKex = none) (htaken : t.taken = t.incoming.length) :
    t.Enabled c out inn ∨ (∃ first, t.readLoop = .reading first) ∧ inn.wire = [] := by
  have hc := h.orderly.coherent
  rw [Coherent] at hc
  rcases hread : t.readLoop with first | ⟨otherInit, firstKex⟩ | firstKex | e | -
  · rcases hwire : inn.wire with - | ⟨b, bs⟩
    · exact .inr ⟨⟨first, rfl⟩, rfl⟩
    · refine .inl (enabled_of_read (fun packet ↦ .readOnePacket (.ok packet))
        (fun _ ↦ rfl) (fun _ ↦ rfl) (fun _ ↦ rfl) h.symm.accepted_eq.1
        (hwire ▸ List.cons_ne_nil b bs) fun packet ↦ ?_)
      -- all is taken out, so there is room
      rw [step, readOnePacket.eq_def, if_neg (by omega), hread]
      rfl
  · refine .inl (enabled_of_nothing (a := .post) rfl rfl ?_)
    rw [step, post, hread, hstart]
    rfl
  · rw [hread] at hc
    obtain ⟨⟨_, hx⟩, -⟩ | ⟨-, -, hx⟩ | ⟨-, hdone, -⟩ := hc
    · rw [hstart] at hx
      cases hx
    · rw [hbusy] at hx
      cases hx
    · refine .inl (enabled_of_nothing (a := .resume) rfl rfl ?_)
      rw [step, resume, hread, hdone]
      rfl
  · rw [hread] at hc
    exact hc.elim
  · rw [hread] at hc
    exact hc.elim

/-- `enterKeyExchange` goes on, or waits for a packet. -/
theorem Pair.enabled_exchange (h : Pair c c' k k' t t' out inn) {d : KeyExchange}
    (hloop : t.kexLoop = .exchange d) : t.Enabled c out inn ∨ t.Waits ∧ inn.wire = [] := by
  rcases d with ⟨packet, d⟩ | next | ⟨keys, d⟩ | r
  · refine .inl (enabled_of_push (a := .kexSend none) packet rfl rfl h.accepted_eq.1 ?_)
    rw [step, kexSend, hloop]
    rfl
  · rcases hwire : inn.wire with - | ⟨b, bs⟩
    · exact .inr ⟨.receive hloop, rfl⟩
    · refine .inl (enabled_of_read (fun packet ↦ .kexReceive (.ok packet))
        (fun _ ↦ rfl) (fun _ ↦ rfl) (fun _ ↦ rfl) h.symm.accepted_eq.1
        (hwire ▸ List.cons_ne_nil b bs) fun packet ↦ ?_)
      rw [step, kexReceive, hloop]
      rfl
  · set t₁ : HandshakeTransport :=
      { t with sessionID := t.sessionID.or (some keys.h), kexLoop := .exchange d }
    have hstep : t.step c .kexPrepare = some (t₁, .prepareKeyChange keys) := by
      rw [step, kexPrepare, hloop]
    have hp : t.Proceeds c (.act keys d) t₁ d (t.sessionID.or (some keys.h)) :=
      proceeds_of_exchange h.orderly hloop
    obtain ⟨out₁, inn₁, hwriter, hreader, -⟩ := h.prepare hp
    refine .inl (enabled_of_serve (a := .kexPrepare) rfl rfl
      (congrArg (Option.map Prod.snd) hstep) fun t₁ ↦ ?_)
    rw [serve, hreader, hwriter]
    exact ⟨_, rfl⟩
  · refine .inl (enabled_of_nothing (a := .finish) rfl rfl ?_)
    rw [step, HandshakeTransport.finish, hloop]
    rfl

/-- An end whose callers have taken all there is goes on or waits. -/
theorem Pair.enabled_of_taken (h : Pair c c' k k' t t' out inn)
    (htaken : t.taken = t.incoming.length) : t.Enabled c out inn ∨ t.Waits ∧ inn.wire = [] := by
  have hfailed : out.failed = false := h.accepted_eq.1
  have horderly : t.Orderly c := h.orderly
  -- what the loop of the exchanges can do, by where it stands
  rcases hloop : t.kexLoop with - | sent | request | request | d | - | -
  · refine .inl (enabled_of_nothing (a := .check) rfl rfl ?_)
    rw [step, check, hloop, horderly.writeError]
    rfl
  · rcases hstart : t.startKex with - | otherInit
    · -- with nothing to begin, it is for the reader to go on
      obtain hx | ⟨⟨first, hread⟩, hwire⟩ := h.enabled_reader (by rw [hloop]; rfl) hstart htaken
      · exact .inl hx
      rcases hrequest : t.requestKex with - | -
      · exact .inr ⟨.idle hloop hread hrequest, hwire⟩
      · refine .inl (enabled_of_nothing (a := .takeRequest) rfl rfl ?_)
        rw [step, takeRequest, hloop, hrequest]
        rcases sent with - | - <;> rfl
    · refine .inl (enabled_of_nothing (a := .takeStart) rfl rfl ?_)
      rw [step, takeStart, hloop, hstart]
      rcases sent with - | - <;> rfl
  · have hsent : t.sentInit = none := by
      rw [horderly.sentInit, hloop]
      rfl
    refine .inl (enabled_of_push (a := .sendKexInit none) (c.kexInit t.exchanges) rfl rfl hfailed
      ?_)
    rw [step, sendKexInit, hloop, hsent]
    rfl
  · obtain ⟨-, -, -, hbusy⟩ := horderly.coherent.of_not_free (by rw [hloop]; rfl)
    rw [hloop] at hbusy
    rcases request with - | otherInit
    · cases hbusy
    · refine .inl (enabled_of_nothing (a := .leave) rfl rfl ?_)
      rw [step, leave, hloop, horderly.writeError]
      rfl
  · exact h.enabled_exchange hloop
  · rcases hpending : t.pendingPackets with - | ⟨packet, packets⟩
    · refine .inl (enabled_of_nothing (a := .flush none) rfl rfl ?_)
      rw [step, flush.eq_def, hloop, hpending]
      rfl
    · refine .inl (enabled_of_push (a := .flush none) packet rfl rfl hfailed ?_)
      rw [step, flush.eq_def, hloop, hpending]
      rfl
  · obtain ⟨-, -, -, hbusy⟩ := horderly.coherent.of_not_free (by rw [hloop]; rfl)
    rw [hloop] at hbusy
    cases hbusy

/-- **An end goes on or waits**, and then its callers have all that is there, and nothing is on its
way to it. -/
theorem Pair.enabled_or_waits (h : Pair c c' k k' t t' out inn) :
    t.Enabled c out inn ∨ t.Waits ∧ inn.wire = [] ∧ t.taken = t.incoming.length := by
  obtain htaken | hlt := Nat.eq_or_lt_of_le h.orderly.incoming.1
  · exact (h.enabled_of_taken htaken).imp_right fun ⟨hwaits, hwire⟩ ↦ ⟨hwaits, hwire, htaken⟩
  · refine .inl (enabled_of_nothing (a := .readPacket) rfl rfl ?_)
    rw [step, readPacket, if_pos hlt]
    rfl

end Enabled

/-- An end that is behind does not wait. -/
theorem Ahead.not_waits {e : ℕ} {users queue : List Bytes} {m m' : Watch}
    {r : Except String Unit} (h : Ahead c c' k k' t t' out inn e users queue m m' r)
    (hout : out.wire = []) : ¬ t'.Waits := by
  rintro (@⟨sent, first, hloop, -, -⟩ | @⟨next, hloop⟩)
  · obtain ⟨d, hd⟩ := h.exchanging'
    rw [hloop] at hd
    cases hd
  · have hfinishes := h.finishes
    rw [control_of_exchange hloop] at hfinishes
    obtain hx | hx | ⟨_, _, -, hx⟩ := hfinishes.progress
    · exact hx
    · have hnil := h.outInv.flight.queue_eq_nil_iff.2 hout
      rw [List.append_eq_nil_iff, List.append_eq_nil_iff] at hnil
      exact hx hnil.1.1
    · cases hx

/-- Nothing is held back by an end that has not begun an exchange. -/
theorem HandshakeTransport.Orderly.pending_eq_nil (h : t.Orderly c) {sent : Bool}
    (hloop : t.kexLoop = .select sent) (hsent : t.kexLoop.isSent = false) :
    t.pendingPackets = [] := by
  by_contra hne
  obtain ⟨-, hx | hx⟩ := h.pending hne
  · rw [hsent] at hx
    cases hx
  · rw [hloop] at hx
    cases hx

/-- Two ends that wait, with nothing on its way, are both idle. -/
theorem Together.idle {e : ℕ} {m m' : Watch}
    (h : Together c c' k k' t t' out inn e [] [] [] [] m m') (hwaits : t.Waits)
    (hwaits' : t'.Waits) : t.exchanges ≠ 0 ∧ t.pendingPackets = [] ∧ t'.pendingPackets = [] := by
  have hunsent : ¬ t'.Engaged → t.kexLoop.isSent = false := fun hx ↦ by
    by_contra hsent
    obtain ⟨_, hnil⟩ := h.front.waiting hx (Bool.eq_true_of_not_eq_false hsent)
    cases hnil
  have hunsent' : ¬ t.Engaged → t'.kexLoop.isSent = false := fun hx ↦ by
    by_contra hsent
    obtain ⟨_, hnil⟩ := h.front'.waiting hx (Bool.eq_true_of_not_eq_false hsent)
    cases hnil
  rcases hwaits with @⟨sent, first, hloop, hread, hrequest⟩ | @⟨next, hloop⟩ <;>
    rcases hwaits' with @⟨sent', first', hloop', hread', -⟩ | @⟨next', hloop'⟩
  · have hsent := hunsent (h.orderly'.not_engaged hread')
    have hsent' := hunsent' (h.orderly.not_engaged hread)
    refine ⟨fun hzero ↦ ?_, h.orderly.pending_eq_nil hloop hsent,
      h.orderly'.pending_eq_nil hloop' hsent'⟩
    -- it would have been asked to begin
    rcases sent with - | -
    · exact absurd (h.orderly.eager hzero (by rw [hloop]; rfl)) (by rw [hrequest]; decide)
    · rw [hloop] at hsent
      cases hsent
  · have hsent' := hunsent' (h.orderly.not_engaged hread)
    rw [hloop'] at hsent'
    cases hsent'
  · have hsent := hunsent (h.orderly'.not_engaged hread')
    rw [hloop] at hsent
    cases hsent
  · -- two processes that fit together do not both wait
    have hfinishes := h.finishes
    rw [control_of_exchange hloop, control_of_exchange hloop'] at hfinishes
    obtain hx | hx | ⟨_, _, hx, -⟩ := hfinishes.progress
    · exact absurd rfl hx
    · exact absurd rfl hx
    · cases hx

/-- **The two never wait for each other**: where both wait and nothing is on its way, both are after
the same exchange, and everything is delivered. -/
theorem Pair.idle_of_waits (h : Pair c c' k k' t t' out inn) (hwaits : t.Waits)
    (hinn : inn.wire = []) (hwaits' : t'.Waits) (hout : out.wire = []) :
    t.exchanges ≠ 0 ∧ t.exchanges = t'.exchanges ∧ t'.delivered = t.accepted ∧
      t.delivered = t'.accepted := by
  rcases h with @⟨e, users, users', queue, queue', m, m', h⟩ | h | h
  · obtain ⟨rfl, rfl⟩ := List.append_eq_nil_iff.1 (h.outInv.flight.queue_eq_nil_iff.2 hout)
    obtain ⟨rfl, rfl⟩ := List.append_eq_nil_iff.1 (h.innInv.flight.queue_eq_nil_iff.2 hinn)
    obtain ⟨hpos, hpending, hpending'⟩ := h.idle hwaits hwaits'
    refine ⟨hpos, h.exchanges.trans h.exchanges'.symm, ?_, ?_⟩
    · rw [h.accepted, hpending, List.append_nil, List.append_nil]
    · rw [h.accepted', hpending', List.append_nil, List.append_nil]
  · exact absurd hwaits' (h.not_waits hout)
  · exact absurd hwaits (h.not_waits hinn)

namespace Peers

variable {s : Peers} {as : List Act}

theorem pair_of_run (hag : Agreement c c' k k')
    (hrun : RunWhile (step c c') Proper (new c c') as s) :
    Pair c c' k k' s.client s.server s.up s.down := by
  refine hrun.invariant (I := fun s ↦ Pair c c' k k' s.client s.server s.up s.down) ?_
    (Pair.new hag)
  rintro s (⟨a, rand⟩ | ⟨a, rand⟩) s' h hproper hstep
  · obtain ⟨⟨t, out, inn⟩, hmove, rfl⟩ := Option.map_eq_some_iff.1 hstep
    exact h.move hag hproper hmove
  · obtain ⟨⟨t, out, inn⟩, hmove, rfl⟩ := Option.map_eq_some_iff.1 hstep
    exact (h.symm.move hag.symm hproper hmove).symm

/-- **No exchange disturbs the callers.** However the steps of the two ends and of their goroutines
interleave, and whoever begins an exchange and when: nothing fails, and what one end delivers is
what the other took, in order and without a gap. After the first exchange both have the same number
of the session, and keep it. -/
theorem delivers_accepted (hag : Agreement c c' k k')
    (hrun : RunWhile (step c c') Proper (new c c') as s) :
    (s.up.failed = false ∧ s.client.writeError = none ∧ s.server.delivered <+: s.client.accepted) ∧
      (s.down.failed = false ∧ s.server.writeError = none ∧
        s.client.delivered <+: s.server.accepted) ∧
      (0 < s.client.exchanges → s.client.sessionID = some (k 0).h) ∧
      (0 < s.server.exchanges → s.server.sessionID = some (k 0).h) := by
  have h := pair_of_run hag hrun
  obtain ⟨hfailed, herror, users, haccepted, -⟩ := h.accepted_eq
  obtain ⟨hfailed', herror', users', haccepted', -⟩ := h.symm.accepted_eq
  rw [List.append_assoc] at haccepted haccepted'
  refine ⟨⟨hfailed, herror, _, haccepted.symm⟩, ⟨hfailed', herror', _, haccepted'.symm⟩,
    h.sessionID_eq, fun hpos ↦ ?_⟩
  rw [h.symm.sessionID_eq hpos, hag.h 0]

/-- The step of a caller that writes, at either end. -/
def Act.isWrite : Act → Bool
  | .client a _ | .server a _ => a.isWrite

/-- Both have ended the same number of exchanges, which is not zero, and their callers have taken
out all that the callers of the other have written. -/
structure Settled (s : Peers) : Prop where
  exchanged : s.client.exchanges ≠ 0
  exchanges : s.client.exchanges = s.server.exchanges
  delivered : s.server.delivered = s.client.accepted
  delivered' : s.client.delivered = s.server.accepted
  taken : s.client.taken = s.client.incoming.length
  taken' : s.server.taken = s.server.incoming.length

theorem Settled.of_pair (h : Pair c c' k k' s.client s.server s.up s.down)
    (hidle : ∀ a, a.isWrite = false → s.Proper a → step c c' s a = none) : s.Settled := by
  obtain ⟨a, rand, r, hown, hproper, hmove⟩ | ⟨hwaits, hdown, htaken⟩ := h.enabled_or_waits
  · have hnone := hidle (.client a rand) hown hproper
    rw [step, hmove] at hnone
    cases hnone
  obtain ⟨a, rand, r, hown, hproper, hmove⟩ | ⟨hwaits', hup, htaken'⟩ := h.symm.enabled_or_waits
  · have hnone := hidle (.server a rand) hown hproper
    rw [step, hmove] at hnone
    cases hnone
  obtain ⟨hpos, heq, hdelivered, hdelivered'⟩ := h.idle_of_waits hwaits hdown hwaits' hup
  exact ⟨hpos, heq, hdelivered, hdelivered', htaken, htaken'⟩

/-- **No two ends wait for each other.** In every state of every run a goroutine of one of them can
go on or a caller can take a packet, unless everything is exchanged, delivered and taken out. A
caller that takes nothing out does stop its end, once `incoming` is full. -/
theorem progress_or_delivered (hag : Agreement c c' k k')
    (hrun : RunWhile (step c c') Proper (new c c') as s) :
    (∃ a s', a.isWrite = false ∧ s.Proper a ∧ step c c' s a = some s') ∨ s.Settled := by
  by_contra hnot
  rw [not_or, not_exists] at hnot
  refine hnot.2 (.of_pair (pair_of_run hag hrun) fun a hown hproper ↦ ?_)
  exact Option.eq_none_iff_forall_ne_some.2 fun s' hstep ↦ hnot.1 a ⟨s', hown, hproper, hstep⟩

end Peers

end Ssh
