import Isle.Forward.Connection
import Mathlib.Data.List.Basic

/-!
# From the service to the client

One direction of a forwarded connection, over every interleaving of the two ends. The host takes the
reply from its decoder and what follows it from the stream, and the decoder may hold both. What it
holds behind the reply when the reply is decoded stays there for the rest of the connection, and
`Down.conserved` says where everything is: in the decoder, with the client, in the stream, or not
read yet.

**What can be lost.** Bytes get out of the client's reach in two ways. The decoder keeps what it has
read behind the reply; whether there is something depends on how the stream delivers the reply and
the first bytes of a service that speaks first. And a copy loop that ends, at either end and for
either direction, closes both connections: a client that has sent all it has to send, and says so,
loses the answer that is still on its way. `Within` says that neither has happened, and that is
exactly when copying on delivers everything (`serviceToClient_iff`).

**The steps once.** `Way` says what an action does to this direction. `Down`, which holds in every
state, and the two lemmas about `Within` (`Within.step_iff`, `Within.of_step`) are each a case split
over it. `serviceToClient_throughout_iff` is the conclusion for runs, and
`not_serviceToClient_banner_coalesced` has a run for each of the two ways.
-/

namespace Forward

/-! ### Phases -/

/-- The host has accepted the reply. -/
@[simp] def HostPhase.accepted : HostPhase → Bool
  | .forwarding | .closed => true
  | _ => false

/-- The host has taken the reply, one way or the other. -/
def HostPhase.decided : HostPhase → Bool
  | .forwarding | .closed | .rejected => true
  | _ => false

/-- The guest has sent `OK`. -/
@[simp] def GuestPhase.joined : GuestPhase → Bool
  | .forwarding | .closed => true
  | _ => false

/-- The guest has sent a reply. -/
@[simp] def GuestPhase.answered : GuestPhase → Bool
  | .refused _ | .forwarding | .closed => true
  | _ => false

theorem HostPhase.decided_eq_false_iff {p : HostPhase} :
    p.decided = false ↔ p.accepted = false ∧ p ≠ .rejected := by
  cases p <;> simp [decided, accepted]

theorem GuestPhase.answered_eq_false_iff {g : GuestPhase} :
    g.answered = false ↔ g.joined = false ∧ ∀ text, g ≠ .refused text := by
  cases g <;> simp [answered, joined]

variable {cbor : Cbor} {pf : PortForwardMessage} {s t : Conn} {a : Action}

/-! ### From the service to the client -/

/-- What holds of the bytes on their way to the host. -/
structure Down (cbor : Cbor) (s : Conn) : Prop where
  joined_of_accepted : s.host.accepted = true → s.guest.joined = true
  refused_of_rejected : s.host = .rejected → ∃ text, s.guest = .refused text
  silent : s.guest.answered = false → s.hostBuf = [] ∧ s.toHost = []
  unheard : s.host.accepted = false → s.clientReceived = []
  unread : s.guest.joined = false → s.serviceUnread = s.serviceSent
  refused : ∀ text, s.guest = .refused text → s.host ≠ .rejected →
    cbor.response.encode (.failed text) = some (s.hostBuf ++ s.toHost)
  offered : s.guest.joined = true → s.host.accepted = false →
    ∃ bs, cbor.response.encode .ok = some bs ∧
      s.hostBuf ++ s.toHost ++ s.serviceUnread = bs ++ s.serviceSent
  /-- What the decoder read ahead of the reply comes first, and stays where it is. -/
  conserved : s.host.accepted = true →
    s.hostBuf ++ (s.clientReceived ++ s.toHost ++ s.serviceUnread) = s.serviceSent

theorem down_start : Down cbor .start where
  joined_of_accepted h := absurd h (by decide)
  refused_of_rejected h := absurd h (by decide)
  silent _ := ⟨rfl, rfl⟩
  unheard _ := rfl
  unread _ := rfl
  refused _ h := absurd h (by simp [Conn.start])
  offered h := absurd h (by decide)
  conserved h := absurd h (by decide)

namespace Down

theorem decided_eq_false (h : Down cbor s) (hs : s.guest.answered = false) :
    s.host.decided = false := by
  obtain ⟨hjoined, hrefused⟩ := GuestPhase.answered_eq_false_iff.1 hs
  refine HostPhase.decided_eq_false_iff.2 ⟨Bool.eq_false_iff.2 fun hacc ↦ ?_, fun hrej ↦ ?_⟩
  · exact Bool.eq_false_iff.1 hjoined (h.joined_of_accepted hacc)
  · obtain ⟨text, htext⟩ := h.refused_of_rejected hrej
    exact hrefused text htext

/-- Before it has answered, what the guest does is not seen by the host. -/
theorem guest_moves (h : Down cbor s) (hs : s.guest.answered = false) {g : GuestPhase}
    (hg : g.answered = false) (b b' : Bytes) :
    Down cbor { s with guest := g, bufio := b, guestBuf := b' } := by
  obtain ⟨hacc, hrej⟩ := HostPhase.decided_eq_false_iff.1 (h.decided_eq_false hs)
  obtain ⟨hjoined, hrefused⟩ := GuestPhase.answered_eq_false_iff.1 hg
  exact {
    joined_of_accepted := fun hacc' ↦ absurd hacc' (Bool.eq_false_iff.1 hacc)
    refused_of_rejected := fun hrej' ↦ absurd hrej' hrej
    silent := fun _ ↦ h.silent hs
    unheard := h.unheard
    unread := fun _ ↦ h.unread (GuestPhase.answered_eq_false_iff.1 hs).1
    refused := fun text htext ↦ absurd htext (hrefused text)
    offered := fun hjoined' ↦ absurd hjoined' (Bool.eq_false_iff.1 hjoined)
    conserved := fun hacc' ↦ absurd hacc' (Bool.eq_false_iff.1 hacc) }

/-- Before it has taken the reply, where the host is does not matter. -/
theorem host_moves (h : Down cbor s) (hs : s.host.decided = false) {p : HostPhase}
    (hp : p.decided = false) (b : Bytes) : Down cbor { s with host := p, toGuest := b } := by
  obtain ⟨hacc, hrej⟩ := HostPhase.decided_eq_false_iff.1 hs
  obtain ⟨hacc', hrej'⟩ := HostPhase.decided_eq_false_iff.1 hp
  exact {
    joined_of_accepted := fun hp' ↦ absurd hp' (Bool.eq_false_iff.1 hacc')
    refused_of_rejected := fun hp' ↦ absurd hp' hrej'
    silent := h.silent
    unheard := fun _ ↦ h.unheard hacc
    unread := h.unread
    refused := fun text htext _ ↦ h.refused text htext hrej
    offered := fun hjoined _ ↦ h.offered hjoined hacc
    conserved := fun hp' ↦ absurd hp' (Bool.eq_false_iff.1 hacc') }

/-- **What the host decodes is the reply the guest sent**, and what is left in the decoder is what
it read ahead of it. -/
theorem next_reply (h : Down cbor s) (hs : s.host.decided = false) :
    cbor.response.next s.hostBuf = .incomplete ∨
      (s.guest.joined = true ∧ ∃ bs extra, cbor.response.next s.hostBuf = .item .ok bs.length ∧
        s.hostBuf = bs ++ extra ∧ extra ++ s.toHost ++ s.serviceUnread = s.serviceSent) ∨
      ∃ text n, s.guest = .refused text ∧
        cbor.response.next s.hostBuf = .item (.failed text) n := by
  obtain ⟨hacc, hrej⟩ := HostPhase.decided_eq_false_iff.1 hs
  cases hans : s.guest.answered with
  | false => exact .inl (by rw [(h.silent hans).1, Codec.next_nil])
  | true =>
    cases hjoined : s.guest.joined with
    | true =>
      obtain ⟨bs, hbs, heq⟩ := h.offered hjoined hacc
      have hpre : s.hostBuf <+: bs ++ s.serviceSent := by
        rw [← heq, List.append_assoc]
        exact List.prefix_append ..
      rcases cbor.response.next_of_prefix hbs hpre with hinc | ⟨extra, hbuf, -, hitem⟩
      · exact .inl hinc
      · refine .inr (.inl ⟨rfl, bs, extra, hitem, hbuf, ?_⟩)
        rw [hbuf, List.append_assoc bs, List.append_assoc bs] at heq
        exact List.append_cancel_left heq
    | false =>
      obtain ⟨text, htext⟩ : ∃ text, s.guest = .refused text := by
        by_contra hno
        rw [not_exists] at hno
        rw [GuestPhase.answered_eq_false_iff.2 ⟨hjoined, hno⟩] at hans
        exact absurd hans (by simp)
      have hpre : s.hostBuf <+: s.hostBuf ++ s.toHost ++ [] := by
        rw [List.append_nil]
        exact List.prefix_append ..
      rcases cbor.response.next_of_prefix (h.refused text htext hrej) hpre with
        hinc | ⟨-, -, -, hitem⟩
      · exact .inl hinc
      · exact .inr (.inr ⟨text, _, htext, hitem⟩)

theorem serviceSend (h : Down cbor s) (bs : Bytes) :
    Down cbor { s with
      serviceSent := s.serviceSent ++ bs, serviceUnread := s.serviceUnread ++ bs } :=
  { h with
    unread := fun hjoined ↦ by simp only [h.unread hjoined]
    offered := fun hjoined hacc ↦ by
      obtain ⟨bs', hbs', heq⟩ := h.offered hjoined hacc
      exact ⟨bs', hbs', by rw [← List.append_assoc, heq, List.append_assoc]⟩
    conserved := fun hacc ↦ by
      rw [← h.conserved hacc]
      simp only [List.append_assoc] }

theorem hostRead (h : Down cbor s) (hhost : s.host = .awaiting) {n : ℕ} (hn : Chunk n s.toHost) :
    Down cbor { s with hostBuf := s.hostBuf ++ s.toHost.take n, toHost := s.toHost.drop n } := by
  have hmove : s.hostBuf ++ s.toHost.take n ++ s.toHost.drop n = s.hostBuf ++ s.toHost := by
    rw [List.append_assoc, List.take_append_drop]
  exact { h with
    silent := fun hans ↦ by
      have hlen := hn.2
      rw [(h.silent hans).2] at hlen
      exact absurd hlen (Nat.not_le.2 hn.1)
    refused := by simpa only [hmove] using h.refused
    offered := by simpa only [hmove] using h.offered
    conserved := fun hacc ↦ absurd hacc (by simp [hhost]) }

theorem acceptReply (h : Down cbor s) (hacc : s.host.accepted = false)
    (hjoined : s.guest.joined = true) {extra : Bytes}
    (heq : extra ++ s.toHost ++ s.serviceUnread = s.serviceSent) :
    Down cbor { s with host := .forwarding, hostBuf := extra } where
  joined_of_accepted _ := hjoined
  refused_of_rejected hrej := absurd hrej (by simp)
  silent hans := absurd hjoined (Bool.eq_false_iff.1 (GuestPhase.answered_eq_false_iff.1 hans).1)
  unheard hacc' := absurd hacc' (by simp)
  unread hj := absurd hjoined (Bool.eq_false_iff.1 hj)
  refused text hg := absurd hjoined (by rw [show s.guest = _ from hg]; simp)
  offered _ hacc' := absurd hacc' (by simp)
  conserved _ := by rw [h.unheard hacc, List.nil_append, ← List.append_assoc, heq]

theorem rejectReply (h : Down cbor s) (hacc : s.host.accepted = false) {text : String}
    (hguest : s.guest = .refused text) (buf : Bytes) :
    Down cbor { s with host := .rejected, hostBuf := buf } where
  joined_of_accepted hacc' := absurd hacc' (by simp)
  refused_of_rejected _ := ⟨text, hguest⟩
  silent hans := absurd hans (by simp [hguest])
  unheard _ := h.unheard hacc
  unread := h.unread
  refused _ _ hrej := absurd rfl hrej
  offered hj := absurd hj (by simp [hguest])
  conserved hacc' := absurd hacc' (by simp)

theorem hostDown (h : Down cbor s) (hhost : s.host = .forwarding) (n : ℕ) :
    Down cbor { s with
      clientReceived := s.clientReceived ++ s.toHost.take n, toHost := s.toHost.drop n } := by
  have hacc : s.host.accepted = true := by rw [hhost]; rfl
  have hjoined := h.joined_of_accepted hacc
  exact { h with
    silent := fun hans ↦
      absurd hjoined (Bool.eq_false_iff.1 (GuestPhase.answered_eq_false_iff.1 hans).1)
    unheard := fun hacc' ↦ absurd hacc (Bool.eq_false_iff.1 hacc')
    refused := fun text hg ↦
      absurd hjoined (by rw [show s.guest = _ from hg]; simp)
    offered := fun _ hacc' ↦ absurd hacc (Bool.eq_false_iff.1 hacc')
    conserved := fun _ ↦ by
      rw [List.append_assoc s.clientReceived, List.take_append_drop]
      exact h.conserved hacc }

theorem hostClose (h : Down cbor s) (hhost : s.host = .forwarding) :
    Down cbor { s with host := .closed } := by
  have hacc : s.host.accepted = true := by rw [hhost]; rfl
  exact { h with
    joined_of_accepted := fun _ ↦ h.joined_of_accepted hacc
    refused_of_rejected := fun hrej ↦ absurd hrej (by simp)
    unheard := fun hacc' ↦ absurd hacc' (by simp)
    refused := fun text hg _ ↦ h.refused text hg (by simp [hhost])
    offered := fun _ hacc' ↦ absurd hacc' (by simp)
    conserved := fun _ ↦ h.conserved hacc }

theorem sendOk (h : Down cbor s) (hguest : s.guest = .accept) {bs : Bytes}
    (henc : cbor.response.encode .ok = some bs) :
    Down cbor { s with guest := .forwarding, toHost := s.toHost ++ bs } := by
  have hans : s.guest.answered = false := by rw [hguest]; rfl
  obtain ⟨hacc, hrej⟩ := HostPhase.decided_eq_false_iff.1 (h.decided_eq_false hans)
  exact {
    joined_of_accepted := fun _ ↦ rfl
    refused_of_rejected := fun hrej' ↦ absurd hrej' hrej
    silent := fun hans' ↦ absurd hans' (by simp)
    unheard := h.unheard
    unread := fun hj ↦ absurd hj (by simp)
    refused := fun text hg ↦ absurd hg (by simp)
    offered := fun _ _ ↦ ⟨bs, henc, by
      rw [(h.silent hans).1, (h.silent hans).2, h.unread (by rw [hguest]; rfl)]
      rfl⟩
    conserved := fun hacc' ↦ absurd hacc' (Bool.eq_false_iff.1 hacc) }

/-- The guest answers that it could not connect. -/
theorem sendError (h : Down cbor s) {text : String} (hguest : s.guest = .refuse text)
    {bs : Bytes} (henc : cbor.response.encode (.failed text) = some bs) :
    Down cbor { s with guest := .refused text, toHost := s.toHost ++ bs } := by
  have hans : s.guest.answered = false := by rw [hguest]; rfl
  obtain ⟨hacc, hrej⟩ := HostPhase.decided_eq_false_iff.1 (h.decided_eq_false hans)
  exact {
    joined_of_accepted := fun hacc' ↦ absurd hacc' (Bool.eq_false_iff.1 hacc)
    refused_of_rejected := fun _ ↦ ⟨text, rfl⟩
    silent := fun hans' ↦ absurd hans' (by simp)
    unheard := h.unheard
    unread := fun _ ↦ h.unread (by rw [hguest]; rfl)
    refused := fun text' hg _ ↦ by
      cases hg
      rw [(h.silent hans).1, (h.silent hans).2, henc]
      rfl
    offered := fun hj ↦ absurd hj (by simp)
    conserved := fun hacc' ↦ absurd hacc' (Bool.eq_false_iff.1 hacc) }

theorem guestDown (h : Down cbor s) (hguest : s.guest = .forwarding) (n : ℕ) :
    Down cbor { s with
      toHost := s.toHost ++ s.serviceUnread.take n, serviceUnread := s.serviceUnread.drop n } := by
  have hmove : ∀ bs : Bytes, bs ++ s.serviceUnread.take n ++ s.serviceUnread.drop n =
      bs ++ s.serviceUnread := fun bs ↦ by rw [List.append_assoc, List.take_append_drop]
  exact { h with
    silent := fun hans ↦ absurd hans (by simp [hguest])
    unread := fun hj ↦ absurd hj (by simp [hguest])
    refused := fun text hg ↦ absurd hg (by simp [hguest])
    offered := fun hj hacc ↦ by simpa only [← List.append_assoc, hmove] using h.offered hj hacc
    conserved := fun hacc ↦ by simpa only [← List.append_assoc, hmove] using h.conserved hacc }

theorem guestClose (h : Down cbor s) (hguest : s.guest = .forwarding) :
    Down cbor { s with guest := .closed } :=
  { h with
    joined_of_accepted := fun _ ↦ rfl
    refused_of_rejected := fun hrej ↦ by
      obtain ⟨text, hg⟩ := h.refused_of_rejected hrej
      exact absurd hg (by simp [hguest])
    silent := fun hans ↦ absurd hans (by simp)
    unread := fun hj ↦ absurd hj (by simp)
    refused := fun text hg ↦ absurd hg (by simp)
    offered := fun _ ↦ h.offered (by rw [hguest]; rfl) }

end Down

theorem answered_eq_false_of_fallible {g : GuestPhase} (h : g.fallible = true) :
    g.answered = false := by
  cases g <;> simp_all [GuestPhase.fallible]

theorem decided_eq_false_of_fallible {p : HostPhase} (h : p.fallible = true) :
    p.decided = false := by
  cases p <;> simp_all [HostPhase.fallible, HostPhase.decided]

theorem Greets.decided_eq_false {p q : HostPhase} {bs : Bytes} (h : Greets cbor pf p bs q) :
    p.decided = false ∧ q.decided = false := by
  cases h <;> exact ⟨rfl, rfl⟩

theorem answered_dispatch (kind : String) : (dispatch kind).answered = false := by
  unfold dispatch
  split_ifs <;> rfl

/-! ### The steps -/

/-- What the decoder holds behind a reply that the host accepts, if it is at one. -/
def behindReply (cbor : Cbor) (s : Conn) : Option Bytes :=
  match cbor.response.next s.hostBuf with
  | .item m n => if m.code = codeOK then some (s.hostBuf.drop n) else none
  | _ => none

/-- A step that leaves nothing behind: a reply is decoded with nothing behind it, the copy loops of
an end are over only when there is nothing more to copy, and nothing is sent to a client whose
connection is closed. -/
def NothingLeftBehind (cbor : Cbor) (s : Conn) : Action → Prop
  | .hostDecode => ∀ bs ∈ behindReply cbor s, bs = [] ∧ (s.guest = .closed → s.serviceUnread = [])
  | .hostClose => s.toHost = [] ∧ s.serviceUnread = []
  | .guestClose => s.host.accepted = true → s.serviceUnread = []
  | .serviceSend bs => s.host = .closed → bs = []
  | _ => True

instance (cbor : Cbor) (s : Conn) (a : Action) : Decidable (NothingLeftBehind cbor s a) := by
  cases a <;> unfold NothingLeftBehind <;> infer_instance

/-- What an action does to the way from the service to the client. Those that only take an end
further in the handshake, or carry bytes to the service, are told apart by no more than that. -/
inductive Way (cbor : Cbor) (s : Conn) : Action → Conn → Prop
  | aside {a : Action} {t : Conn} (ha : NothingLeftBehind cbor s a) (ht : t = { s with
      clientSent := t.clientSent, clientUnread := t.clientUnread, toGuest := t.toGuest
      serviceReceived := t.serviceReceived, bufio := t.bufio, guestBuf := t.guestBuf }) :
      Way cbor s a t
  | hostMoves {a : Action} {p} (b : Bytes) (ha : NothingLeftBehind cbor s a)
      (hs : s.host.decided = false) (hp : p.decided = false) :
      Way cbor s a { s with host := p, toGuest := b }
  | guestMoves {a : Action} {g} (b b' : Bytes) (ha : NothingLeftBehind cbor s a)
      (hs : s.guest.answered = false) (hg : g.answered = false) :
      Way cbor s a { s with guest := g, bufio := b, guestBuf := b' }
  | serviceSend (bs : Bytes) (hs : s.guest.connected = true) :
      Way cbor s (.serviceSend bs) { s with
        serviceSent := s.serviceSent ++ bs, serviceUnread := s.serviceUnread ++ bs }
  | hostRead (n : ℕ) (hs : s.host = .awaiting) (hn : Chunk n s.toHost) :
      Way cbor s (.hostRead n) { s with
        hostBuf := s.hostBuf ++ s.toHost.take n, toHost := s.toHost.drop n }
  | decode (m : ResponseMessage) (n : ℕ) (hs : s.host = .awaiting)
      (hnext : cbor.response.next s.hostBuf = .item m n) :
      Way cbor s .hostDecode { s with
        host := if m.code = codeOK then .forwarding else .rejected
        hostBuf := s.hostBuf.drop n }
  | hostDown (n : ℕ) (hs : s.host = .forwarding) :
      Way cbor s (.hostDown n) { s with
        clientReceived := s.clientReceived ++ s.toHost.take n, toHost := s.toHost.drop n }
  | hostClose (hs : s.host = .forwarding) : Way cbor s .hostClose { s with host := .closed }
  | sendOk {bs} (hs : s.guest = .accept) (henc : cbor.response.encode .ok = some bs) :
      Way cbor s .guestReply { s with guest := .forwarding, toHost := s.toHost ++ bs }
  | sendError {text bs} (hs : s.guest = .refuse text)
      (henc : cbor.response.encode (.failed text) = some bs) :
      Way cbor s .guestReply { s with guest := .refused text, toHost := s.toHost ++ bs }
  | guestDown (n : ℕ) (hs : s.guest = .forwarding) (hn : Chunk n s.serviceUnread) :
      Way cbor s (.guestDown n) { s with
        toHost := s.toHost ++ s.serviceUnread.take n, serviceUnread := s.serviceUnread.drop n }
  | guestClose (hs : s.guest = .forwarding) : Way cbor s .guestClose { s with guest := .closed }

/-- **Every action is one of these.** -/
theorem way_of_step (hstep : step cbor pf s a = some t) : Way cbor s a t := by
  cases a with
  | hostSend =>
    rcases sendGreeting_cases hstep with ⟨hfal, rfl⟩ | ⟨bs, p, hgreet, rfl⟩
    · exact .hostMoves s.toGuest trivial (decided_eq_false_of_fallible hfal) rfl
    · exact .hostMoves _ trivial hgreet.decided_eq_false.1 hgreet.decided_eq_false.2
  | hostDecode =>
    obtain ⟨hhost, ⟨m, n, hnext, rfl⟩ | ⟨hnext, rfl⟩⟩ := decodeReply_cases hstep
    · exact .decode m n hhost hnext
    · -- no reply was read, so there is nothing behind one
      refine .hostMoves s.toGuest (fun bs hbs ↦ ?_) (by rw [hhost]; rfl) rfl
      rw [behindReply, hnext] at hbs
      cases hbs
  | hostFail =>
    obtain ⟨hfal, rfl⟩ := guarded_eq_some hstep
    exact .hostMoves s.toGuest trivial (decided_eq_false_of_fallible hfal) rfl
  | guestPeek =>
    obtain ⟨hguest, b, bs, -, ⟨-, rfl⟩ | ⟨-, rfl⟩⟩ := peekProtocol_cases hstep
    · exact .guestMoves bs s.guestBuf trivial (by rw [hguest]; rfl) rfl
    · exact .guestMoves s.bufio s.guestBuf trivial (by rw [hguest]; rfl) rfl
  | guestDecode =>
    rcases decodeRequest_cases hstep with ⟨hguest, m, n, -, rfl⟩ | ⟨hguest, m, n, -, rfl⟩ |
      ⟨hfal, rfl⟩
    · exact .guestMoves s.bufio _ trivial (by rw [hguest]; rfl) (answered_dispatch _)
    · exact .guestMoves s.bufio _ trivial (by rw [hguest]; rfl) rfl
    · exact .guestMoves s.bufio s.guestBuf trivial (answered_eq_false_of_fallible hfal) rfl
  | guestDial err =>
    simp only [step] at hstep
    split at hstep
    · next hguest =>
      cases hstep
      refine .guestMoves s.bufio s.guestBuf trivial (by rw [hguest]; rfl) ?_
      cases err <;> rfl
    · exact absurd hstep (by simp)
  | guestReply =>
    rcases sendReply_cases hstep with ⟨hguest, bs, henc, rfl⟩ | ⟨text, hguest, bs, henc, rfl⟩ |
      ⟨hguest, rfl⟩
    · exact .sendOk hguest henc
    · exact .sendError hguest henc
    · refine .guestMoves s.bufio s.guestBuf trivial ?_ rfl
      rcases hguest with hguest | ⟨text, hguest⟩ <;> rw [hguest] <;> rfl
  | guestFail =>
    obtain ⟨hfal, rfl⟩ := guarded_eq_some hstep
    exact .guestMoves s.bufio s.guestBuf trivial (answered_eq_false_of_fallible hfal) rfl
  | serviceSend bs =>
    obtain ⟨hs, rfl⟩ := guarded_eq_some hstep
    exact .serviceSend bs hs
  | hostRead n =>
    obtain ⟨⟨hs, -, hn⟩, rfl⟩ := guarded_eq_some hstep
    exact .hostRead n hs hn
  | hostDown n =>
    obtain ⟨⟨hs, -⟩, rfl⟩ := guarded_eq_some hstep
    exact .hostDown n hs
  | hostClose =>
    obtain ⟨hs, rfl⟩ := guarded_eq_some hstep
    exact .hostClose hs
  | guestDown n =>
    obtain ⟨⟨hs, hn⟩, rfl⟩ := guarded_eq_some hstep
    exact .guestDown n hs hn
  | guestClose =>
    obtain ⟨hs, rfl⟩ := guarded_eq_some hstep
    exact .guestClose hs
  | clientSend bs =>
    cases hstep
    exact .aside trivial rfl
  | hostUp n | guestFill n | guestRead n | guestUp n =>
    obtain ⟨-, rfl⟩ := guarded_eq_some hstep
    exact .aside trivial rfl

/-- **Every action keeps it.** -/
theorem down_step (h : Down cbor s) (hstep : step cbor pf s a = some t) : Down cbor t := by
  cases way_of_step hstep with
  | aside _ ht =>
    rw [ht]
    exact { h with }
  | hostMoves b _ hs hp => exact h.host_moves hs hp b
  | guestMoves b b' _ hs hg => exact h.guest_moves hs hg b b'
  | serviceSend bs => exact h.serviceSend bs
  | hostRead n hs hn => exact h.hostRead hs hn
  | decode m n hs hnext =>
    have hdec : s.host.decided = false := by rw [hs]; rfl
    have hacc := (HostPhase.decided_eq_false_iff.1 hdec).1
    rcases h.next_reply hdec with hinc | ⟨hjoined, bs, extra, hitem, hbuf, heq⟩ |
      ⟨text, k, hguest, hitem⟩
    · rw [hnext] at hinc
      exact absurd hinc (by simp)
    · rw [hnext] at hitem
      cases hitem
      simpa [ResponseMessage.ok, hbuf] using h.acceptReply hacc hjoined heq
    · rw [hnext] at hitem
      cases hitem
      exact h.rejectReply hacc hguest _
  | hostDown n hs => exact h.hostDown hs n
  | hostClose hs => exact h.hostClose hs
  | sendOk hs henc => exact h.sendOk hs henc
  | sendError hs henc => exact h.sendError hs henc
  | guestDown n hs => exact h.guestDown hs n
  | guestClose hs => exact h.guestClose hs

/-! ### What is within reach -/

/-- Nothing of what the service has sent is out of the client's reach: the decoder has kept nothing,
and an end that has closed the connection has left nothing unread. -/
structure Within (s : Conn) : Prop where
  decoder : s.hostBuf = []
  host : s.host = .closed → s.toHost = [] ∧ s.serviceUnread = []
  guest : s.guest = .closed → s.serviceUnread = []

section Accepted

variable (h : Down cbor s) (hacc : s.host.accepted = true)
include hacc

/-- With the reply accepted the host's handshake is over. -/
theorem not_undecided (hs : s.host.decided = false) : False :=
  Bool.eq_false_iff.1 (HostPhase.decided_eq_false_iff.1 hs).1 hacc

/-- A reply that was accepted stays accepted. -/
theorem accepted_step (hstep : step cbor pf s a = some t) : t.host.accepted = true := by
  cases way_of_step hstep with
  | aside _ ht => rwa [ht]
  | hostMoves _ _ hs _ => exact (not_undecided hacc hs).elim
  | decode _ _ hs _ => exact (not_undecided hacc (by rw [hs]; rfl)).elim
  | hostClose _ => rfl
  | _ => exact hacc

include h

/-- And so is the guest's. -/
theorem not_unanswered (hs : s.guest.answered = false) : False :=
  Bool.eq_false_iff.1 (GuestPhase.answered_eq_false_iff.1 hs).1 (h.joined_of_accepted hacc)

/-- **One step leaves everything within reach exactly if it leaves nothing behind.** -/
theorem Within.step_iff (hw : Within s) (hstep : step cbor pf s a = some t) :
    Within t ↔ NothingLeftBehind cbor s a := by
  cases way_of_step hstep with
  | aside ha ht =>
    rw [ht]
    exact iff_of_true ⟨hw.decoder, hw.host, hw.guest⟩ ha
  | hostMoves _ _ hs _ => exact (not_undecided hacc hs).elim
  | hostRead _ hs | decode _ _ hs => exact (not_undecided hacc (by rw [hs]; rfl)).elim
  | guestMoves _ _ _ hs _ => exact (not_unanswered h hacc hs).elim
  | sendOk hs | sendError hs => exact (not_unanswered h hacc (by rw [hs]; rfl)).elim
  | serviceSend bs hs =>
    refine ⟨fun hw' hc ↦ (List.append_eq_nil_iff.1 (hw'.host hc).2).2, fun hbs ↦ ?_⟩
    refine ⟨hw.decoder, fun hc ↦ ⟨(hw.host hc).1, ?_⟩, fun hg ↦ ?_⟩
    · exact List.append_eq_nil_iff.2 ⟨(hw.host hc).2, hbs hc⟩
    · rw [show s.guest = _ from hg] at hs
      cases hs
  | hostDown n hs =>
    exact iff_of_true ⟨hw.decoder, fun hc ↦ absurd (hs.symm.trans hc) (by decide), hw.guest⟩ trivial
  | hostClose _ => exact ⟨fun hw' ↦ hw'.host rfl, fun hs ↦ ⟨hw.decoder, fun _ ↦ hs, hw.guest⟩⟩
  | guestDown n hs hn =>
    refine iff_of_true ⟨hw.decoder, fun hc ↦ ?_, fun hg ↦ absurd (hs.symm.trans hg) (by decide)⟩
      trivial
    rw [Chunk, (hw.host hc).2] at hn
    exact absurd hn.2 (Nat.not_le.2 hn.1)
  | guestClose _ =>
    exact ⟨fun hw' _ ↦ hw'.guest rfl, fun hs ↦ ⟨hw.decoder, hw.host, fun _ ↦ hs hacc⟩⟩

/-- What is out of reach stays so. -/
theorem Within.of_step (hw : Within t) (hstep : step cbor pf s a = some t) : Within s := by
  cases way_of_step hstep with
  | aside _ ht =>
    rw [ht] at hw
    exact ⟨hw.decoder, hw.host, hw.guest⟩
  | hostMoves _ _ hs _ => exact (not_undecided hacc hs).elim
  | hostRead _ hs | decode _ _ hs => exact (not_undecided hacc (by rw [hs]; rfl)).elim
  | guestMoves _ _ _ hs _ => exact (not_unanswered h hacc hs).elim
  | sendOk hs | sendError hs => exact (not_unanswered h hacc (by rw [hs]; rfl)).elim
  | serviceSend bs hs =>
    exact ⟨hw.decoder, fun hc ↦ ⟨(hw.host hc).1, (List.append_eq_nil_iff.1 (hw.host hc).2).1⟩,
      fun hg ↦ (List.append_eq_nil_iff.1 (hw.guest hg)).1⟩
  | hostDown n hs | hostClose hs =>
    exact ⟨hw.decoder, fun hc ↦ absurd (hs.symm.trans hc) (by decide), hw.guest⟩
  | guestDown n hs hn =>
    refine ⟨hw.decoder, fun hc ↦ ?_, fun hg ↦ absurd (hs.symm.trans hg) (by decide)⟩
    obtain ⟨hto, hdrop⟩ := hw.host hc
    obtain ⟨hto, htake⟩ := List.append_eq_nil_iff.1 hto
    rw [← List.take_append_drop n s.serviceUnread, htake]
    exact ⟨hto, hdrop⟩
  | guestClose hs => exact ⟨hw.decoder, hw.host, fun hg ↦ absurd (hs.symm.trans hg) (by decide)⟩

end Accepted

/-! ### Transparency -/

/-- The pipe is transparent: once the host has accepted the reply, what the client has received,
followed by what is in the stream and what the guest has still to read, is what the service has
sent; some continuation delivers the rest of it; and when the host has closed the connection there
is no rest. -/
def ServiceToClient (cbor : Cbor) (pf : PortForwardMessage) (s : Conn) : Prop :=
  s.host.accepted = true →
    s.clientReceived ++ s.toHost ++ s.serviceUnread = s.serviceSent ∧
    (∃ as t, Run (step cbor pf) s as t ∧ t.serviceSent = s.serviceSent ∧
      t.clientReceived = s.serviceSent) ∧
    (s.host = .closed → s.clientReceived = s.serviceSent)

section Delivery

variable (cbor pf)

/-- The guest copies all that the service has sent, if it has not done so already. -/
theorem exists_run_guestDown (hguest : s.guest = .forwarding ∨ s.serviceUnread = []) :
    ∃ as, Run (step cbor pf) s as
      { s with toHost := s.toHost ++ s.serviceUnread, serviceUnread := [] } := by
  by_cases hnil : s.serviceUnread = []
  · refine ⟨[], ?_⟩
    rw [hnil, List.append_nil, ← hnil]
    exact .nil s
  · have hguest := hguest.resolve_right hnil
    refine ⟨[.guestDown s.serviceUnread.length], .cons trivial ?_ (.nil _)⟩
    rw [step, if_pos ⟨hguest, List.length_pos_iff.2 hnil, le_rfl⟩, List.take_length,
      List.drop_length]

/-- The host copies all that is in the stream. -/
theorem exists_run_hostDown (hhost : s.host = .forwarding ∨ s.toHost = []) :
    ∃ as, Run (step cbor pf) s as
      { s with clientReceived := s.clientReceived ++ s.toHost, toHost := [] } := by
  by_cases hnil : s.toHost = []
  · refine ⟨[], ?_⟩
    rw [hnil, List.append_nil, ← hnil]
    exact .nil s
  · have hhost := hhost.resolve_right hnil
    refine ⟨[.hostDown s.toHost.length], .cons trivial ?_ (.nil _)⟩
    rw [step, if_pos ⟨hhost, List.length_pos_iff.2 hnil, le_rfl⟩, List.take_length,
      List.drop_length]

end Delivery

/-- What is within reach is delivered by copying on. -/
theorem Within.exists_run (hw : Within s) (h : Down cbor s) (hacc : s.host.accepted = true) :
    ∃ as t, Run (step cbor pf) s as t ∧ t.serviceSent = s.serviceSent ∧
      t.clientReceived = s.serviceSent := by
  have hguest : s.guest = .forwarding ∨ s.serviceUnread = [] := by
    have hjoined := h.joined_of_accepted hacc
    cases hg : s.guest <;> simp_all [hw.guest]
  obtain ⟨as, hrun⟩ := exists_run_guestDown cbor pf hguest
  have hhost : s.host = .forwarding ∨ s.toHost ++ s.serviceUnread = [] := by
    cases hp : s.host <;> simp_all [hw.host]
  obtain ⟨bs, hrun'⟩ := exists_run_hostDown cbor pf (s := { s with
    toHost := s.toHost ++ s.serviceUnread, serviceUnread := [] }) hhost
  refine ⟨_, _, hrun.append hrun', rfl, ?_⟩
  rw [← h.conserved hacc, hw.decoder]
  simp

/-- Where everything was delivered, everything was within reach all along. -/
theorem within_of_run {as : List Action} (hrun : Run (step cbor pf) s as t) (h : Down cbor s)
    (hacc : s.host.accepted = true) (ht : t.clientReceived = t.serviceSent) : Within s := by
  induction hrun with
  | nil s =>
    have heq := h.conserved hacc
    rw [ht] at heq
    have hlen := congrArg List.length heq
    simp only [List.length_append] at hlen
    have hnil : ∀ l : Bytes, l.length = 0 → l = [] := fun _ ↦ List.eq_nil_of_length_eq_zero
    exact ⟨hnil _ (by omega), fun _ ↦ ⟨hnil _ (by omega), hnil _ (by omega)⟩,
      fun _ ↦ hnil _ (by omega)⟩
  | cons _ head _ ih =>
    exact Within.of_step h hacc (ih (down_step h head) (accepted_step hacc head) ht) head

/-- Once the host has accepted the reply, the pipe is transparent exactly as long as everything is
within reach. -/
theorem serviceToClient_iff (h : Down cbor s) (hacc : s.host.accepted = true) :
    ServiceToClient cbor pf s ↔ Within s := by
  constructor
  · intro hpipe
    obtain ⟨-, ⟨as, t, hrun, hsent, hreceived⟩, -⟩ := hpipe hacc
    exact within_of_run hrun h hacc (hreceived.trans hsent.symm)
  · intro hw _
    have heq := h.conserved hacc
    rw [hw.decoder, List.nil_append] at heq
    refine ⟨heq, hw.exists_run h hacc, fun hclosed ↦ ?_⟩
    rw [← heq, (hw.host hclosed).1, (hw.host hclosed).2, List.append_nil, List.append_nil]

/-- **One action keeps the pipe transparent exactly if it leaves nothing behind.** -/
theorem serviceToClient_step_iff (h : Down cbor s) (hpipe : ServiceToClient cbor pf s)
    (hstep : step cbor pf s a = some t) :
    ServiceToClient cbor pf t ↔ NothingLeftBehind cbor s a := by
  have hdown := down_step h hstep
  cases hs : s.host.accepted with
  | true =>
    rw [serviceToClient_iff hdown (accepted_step hs hstep)]
    exact Within.step_iff h hs ((serviceToClient_iff h hs).1 hpipe) hstep
  | false =>
    have hne := Bool.eq_false_iff.1 hs
    cases way_of_step hstep with
    | decode m n _ hnext =>
      -- the reply decides whether the host forwards, and what is behind it stays in the decoder
      by_cases hcode : m.code = codeOK
      · rw [serviceToClient_iff hdown (by rw [if_pos hcode]; rfl), NothingLeftBehind, behindReply]
        simp only [hnext, if_pos hcode, Option.mem_some_iff, forall_eq']
        exact ⟨fun hw ↦ ⟨hw.decoder, hw.guest⟩,
          fun hs ↦ ⟨hs.1, fun hc ↦ absurd hc (by simp), hs.2⟩⟩
      · refine iff_of_true (fun hacc ↦ ?_) fun bs hbs ↦ ?_
        · rw [if_neg hcode] at hacc
          cases hacc
        · simp only [behindReply, hnext, if_neg hcode] at hbs
          cases hbs
    | hostMoves b ha _ hp =>
      refine iff_of_true (fun hacc ↦ ?_) ha
      exact absurd hacc (Bool.eq_false_iff.1 (HostPhase.decided_eq_false_iff.1 hp).1)
    | hostClose hs' | hostDown n hs' => exact absurd (by rw [hs']; rfl) hne
    | aside ha ht =>
      rw [ht]
      exact iff_of_true (fun hacc ↦ absurd hacc hne) ha
    | guestMoves _ _ ha _ _ => exact iff_of_true (fun hacc ↦ absurd hacc hne) ha
    | guestClose _ => exact iff_of_true (fun hacc ↦ absurd hacc hne) fun hacc ↦ absurd hacc hne
    | serviceSend bs _ =>
      refine iff_of_true (fun hacc ↦ absurd hacc hne) fun hc ↦ ?_
      exact absurd (by rw [hc]; rfl) hne
    | _ => exact iff_of_true (fun hacc ↦ absurd hacc hne) trivial

/-- **A forwarded connection is a transparent pipe from the service to the client exactly when
nothing is left behind**: in every run, all that the service has sent is with the client or can
still be delivered, in order, in every state once the host has accepted the reply, exactly if the
decoder has read nothing behind the reply, neither end closes the connection with bytes on their
way, and the service sends nothing to a connection that the host has closed. -/
theorem serviceToClient_throughout_iff {as : List Action} (h : Run (step cbor pf) .start as s) :
    Throughout (step cbor pf) (ServiceToClient cbor pf) .start as ↔
      RunWhile (step cbor pf) (NothingLeftBehind cbor) .start as s :=
  h.throughout_iff (fun _ _ _ hs hstep ↦ down_step hs hstep)
    (fun _ _ _ hs hpipe hstep ↦ serviceToClient_step_iff hs hpipe hstep) down_start
    fun hacc ↦ absurd hacc (by decide)

/-- A connection to a service that speaks first, up to where the host decodes the reply. -/
def bannerRun (n : ℕ) : List Action :=
  [.hostSend, .hostSend, .hostSend, .guestFill 41, .guestPeek, .guestRead 40, .guestDecode,
    .guestDecode, .guestDial none, .serviceSend [0x68, 0x69], .guestReply, .guestDown 2,
    .hostRead n, .hostDecode]

/-- Read alone, the reply loses nothing: the client has the banner when the service has hung up. -/
theorem serviceToClient_banner_separate :
    ∃ s, Run (step rfc8949 ⟨80, "10.0.0.2"⟩) .start
        (bannerRun 14 ++ [.hostDown 2, .guestClose, .hostClose]) s ∧
      s.clientReceived = [0x68, 0x69] ∧
      Throughout (step rfc8949 ⟨80, "10.0.0.2"⟩) (ServiceToClient rfc8949 ⟨80, "10.0.0.2"⟩) .start
        (bannerRun 14 ++ [.hostDown 2, .guestClose, .hostClose]) := by
  have hrun : Run (step rfc8949 ⟨80, "10.0.0.2"⟩) .start
      (bannerRun 14 ++ [.hostDown 2, .guestClose, .hostClose])
      ⟨[], [], [0x68, 0x69], [0x68, 0x69], [], [], [], [], .closed, [], .closed, [], []⟩ :=
    run_iff_foldlM.2 (by decide)
  exact ⟨_, hrun, rfl, (serviceToClient_throughout_iff hrun).2
    (runWhile_iff_foldlM.2 (by decide))⟩

/-- Read together with the reply, the banner of the service stays in the decoder; and a client that
has nothing more to send, at which the host closes the connection, does not get a banner that is in
the stream. -/
theorem not_serviceToClient_banner_coalesced :
    (∃ s, Run (step rfc8949 ⟨80, "10.0.0.2"⟩) .start (bannerRun 16) s ∧
      s.host = .forwarding ∧ s.serviceSent = [0x68, 0x69] ∧ s.hostBuf = [0x68, 0x69] ∧
      s.clientReceived ++ s.toHost ++ s.serviceUnread = [] ∧
      ¬ ServiceToClient rfc8949 ⟨80, "10.0.0.2"⟩ s) ∧
    ∃ s, Run (step rfc8949 ⟨80, "10.0.0.2"⟩) .start (bannerRun 14 ++ [.hostClose]) s ∧
      s.serviceSent = [0x68, 0x69] ∧ s.clientReceived = [] ∧
      ¬ ServiceToClient rfc8949 ⟨80, "10.0.0.2"⟩ s :=
  ⟨⟨⟨[], [], [], [0x68, 0x69], [], [], [], [], .forwarding, [0x68, 0x69], .forwarding, [], []⟩,
    run_iff_foldlM.2 (by decide), rfl, rfl, rfl, rfl, fun h ↦ absurd (h rfl).1 (by decide)⟩,
    ⟨[], [], [], [0x68, 0x69], [], [], [], [0x68, 0x69], .closed, [], .forwarding, [], []⟩,
    run_iff_foldlM.2 (by decide), rfl, rfl, fun h ↦ absurd ((h rfl).2.2 rfl) (by decide)⟩

end Forward
