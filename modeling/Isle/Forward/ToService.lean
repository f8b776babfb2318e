import Isle.Forward.ToClient

/-!
# From the client to the service

The other direction of a forwarded connection. The guest reads the greeting through two layers of
buffers, the `bufio.Reader` and the decoder on top of it, and copies from the lower one only; what
the decoder has read ahead would be lost. It reads nothing ahead: what is in the stream while the
guest decodes is the greeting alone (`Greeting`), for the host sends no byte of the client before it
has the reply (`Down.joined_of_accepted`), and the guest replies after the last message of the
greeting.

`clientToService` is the conclusion, over every interleaving: the service has received an initial
part of what the client sent, and while the guest forwards, the rest of it is in the buffered
reader, in the stream, or not read yet, and can be delivered.
-/

namespace Forward

variable {cbor : Cbor} {pf : PortForwardMessage} {s t : Conn} {a : Action}

/-! ### The greeting -/

/-- The host is still sending its greeting. -/
def HostPhase.greeting : HostPhase → Bool
  | .start | .header | .portForward => true
  | _ => false

/-- The guest is still reading the greeting. -/
def GuestPhase.greeting : GuestPhase → Bool
  | .peek | .header | .portForward => true
  | _ => false

/-- The guest has read the greeting. -/
@[simp] def GuestPhase.greeted : GuestPhase → Bool
  | .dial _ | .accept | .refuse _ | .refused _ | .forwarding | .closed => true
  | _ => false

variable {g : GuestPhase} {p : HostPhase} {bs : Bytes}

theorem GuestPhase.greeted_of_joined (h : g.joined = true) : g.greeted = true := by
  cases g <;> simp_all [joined, greeted]

theorem GuestPhase.not_greeting_of_joined (h : g.joined = true) : g.greeting = false := by
  cases g <;> simp_all [joined, greeting]

theorem GuestPhase.greeting_eq_false (h : g.greeted = true) : g.greeting = false := by
  cases g <;> simp_all [greeted, greeting]

/-- What the host can have sent of its greeting: the messages of it up to some point. -/
inductive Greeting (cbor : Cbor) (pf : PortForwardMessage) : Bytes → Prop
  | nothing : Greeting cbor pf []
  | byte : Greeting cbor pf [protocolByte]
  | header (hb : Bytes) (h : cbor.header.encode forwardHeader = some hb) :
      Greeting cbor pf (protocolByte :: hb)
  | portForward (hb fb : Bytes) (h : cbor.header.encode forwardHeader = some hb)
      (h' : cbor.portForward.encode pf = some fb) : Greeting cbor pf (protocolByte :: (hb ++ fb))

/-- What the host has sent of its greeting in a phase. -/
def Sent (cbor : Cbor) (pf : PortForwardMessage) : HostPhase → Bytes → Prop
  | .start, bs => bs = []
  | .header, bs => bs = [protocolByte]
  | .portForward, bs =>
    ∃ hb, cbor.header.encode forwardHeader = some hb ∧ bs = protocolByte :: hb
  | _, bs => Greeting cbor pf bs

/-- What the guest has taken of the greeting in a phase. -/
def Took (cbor : Cbor) : GuestPhase → Bytes → Prop
  | .peek, bs => bs = []
  | .header, bs => bs = [protocolByte]
  | .portForward, bs =>
    ∃ hb, cbor.header.encode forwardHeader = some hb ∧ bs = protocolByte :: hb
  | _, _ => True

theorem Sent.greeting (h : Sent cbor pf p bs) : Greeting cbor pf bs := by
  cases p with
  | start => exact (show bs = [] from h) ▸ .nothing
  | header => exact (show bs = [protocolByte] from h) ▸ .byte
  | portForward =>
    obtain ⟨hb, hhb, rfl⟩ := h
    exact .header hb hhb
  | _ => exact h

theorem sent_of_greeting (hp : p.greeting = false) (h : Greeting cbor pf bs) :
    Sent cbor pf p bs := by
  cases p <;> first | exact h | simp [HostPhase.greeting] at hp

theorem Greets.sent {q : HostPhase} {sent : Bytes} (h : Greets cbor pf p bs q)
    (hsent : Sent cbor pf p sent) : Sent cbor pf q (sent ++ bs) := by
  cases h with
  | start => rw [show sent = [] from hsent]; rfl
  | header henc => rw [show sent = [protocolByte] from hsent]; exact ⟨bs, henc, rfl⟩
  | portForward henc =>
    obtain ⟨hb, hhb, rfl⟩ := hsent
    exact .portForward hb bs hhb henc

/-- What holds of the bytes on their way to the guest. -/
structure Up (cbor : Cbor) (pf : PortForwardMessage) (s : Conn) : Prop where
  waiting : s.host.accepted = false → s.clientUnread = s.clientSent
  unserved : s.guest.joined = false → s.serviceReceived = []
  unbuffered : s.guest = .peek → s.guestBuf = []
  greeting : s.guest.greeting = true → ∃ sent took, Sent cbor pf s.host sent ∧
    Took cbor s.guest took ∧ took ++ s.guestBuf ++ s.bufio ++ s.toGuest = sent
  quiet : s.guest.greeted = true → s.host.greeting = false
  drained : s.guest.greeted = true → s.guest.joined = false → s.bufio = [] ∧ s.toGuest = []
  pipe : s.guest.joined = true →
    s.serviceReceived ++ s.bufio ++ s.toGuest ++ s.clientUnread = s.clientSent

namespace Up

/-- The host moves on, past its greeting. -/
theorem host_moves (h : Up cbor pf s) {q : HostPhase} (hq : q.greeting = false)
    (hacc : q.accepted = false → s.host.accepted = false) (b : Bytes) :
    Up cbor pf { s with host := q, hostBuf := b } :=
  { h with
    waiting := fun hq' ↦ h.waiting (hacc hq')
    greeting := fun hg ↦ by
      obtain ⟨sent, took, hsent, htook, heq⟩ := h.greeting hg
      exact ⟨sent, took, sent_of_greeting hq hsent.greeting, htook, heq⟩
    quiet := fun _ ↦ hq }

variable {g : GuestPhase} {n : ℕ}

/-- The guest moves on between the greeting and the reply. -/
theorem guest_moves (h : Up cbor pf s) (hs : s.guest.greeted = true) (hs' : s.guest.joined = false)
    (hg : g.greeted = true) (hg' : g.joined = false) (b : Bytes) :
    Up cbor pf { s with guest := g, toHost := b } where
  waiting := h.waiting
  unserved _ := h.unserved hs'
  unbuffered hpeek := absurd hg (by rw [show g = _ from hpeek]; simp)
  greeting hgr := absurd hgr (Bool.eq_false_iff.1 (GuestPhase.greeting_eq_false hg))
  quiet _ := h.quiet hs
  drained _ _ := h.drained hs hs'
  pipe hj := absurd hj (Bool.eq_false_iff.1 hg')

theorem clientSend (h : Up cbor pf s) (bs : Bytes) :
    Up cbor pf { s with
      clientSent := s.clientSent ++ bs, clientUnread := s.clientUnread ++ bs } :=
  { h with
    waiting := fun hacc ↦ by simp only [h.waiting hacc]
    pipe := fun hj ↦ by rw [← List.append_assoc, h.pipe hj] }

/-- The host sends the next part of its greeting. -/
theorem hostSend (h : Up cbor pf s) {q : HostPhase} (hgreet : Greets cbor pf s.host bs q) :
    Up cbor pf { s with host := q, toGuest := s.toGuest ++ bs } := by
  have hhost : s.host.greeting = true := by
    generalize s.host = p at hgreet
    cases hgreet <;> rfl
  -- the guest cannot have read a greeting that is still being sent
  have hgreeted : s.guest.greeted = false := Bool.eq_false_iff.2 fun hg ↦
    Bool.eq_false_iff.1 (h.quiet hg) hhost
  have hacc : s.host.accepted = false :=
    (HostPhase.decided_eq_false_iff.1 hgreet.decided_eq_false.1).1
  exact { h with
    waiting := fun _ ↦ h.waiting hacc
    greeting := fun hg ↦ by
      obtain ⟨sent, took, hsent, htook, heq⟩ := h.greeting hg
      exact ⟨sent ++ bs, took, hgreet.sent hsent, htook, by rw [← heq]; simp⟩
    quiet := fun hg ↦ absurd hg (Bool.eq_false_iff.1 hgreeted)
    drained := fun hg ↦ absurd hg (Bool.eq_false_iff.1 hgreeted)
    pipe := fun hj ↦ absurd (GuestPhase.greeted_of_joined hj) (Bool.eq_false_iff.1 hgreeted) }

theorem hostUp (h : Up cbor pf s) (hacc : s.host.accepted = true) (hj : s.guest.joined = true)
    (n : ℕ) : Up cbor pf { s with
      toGuest := s.toGuest ++ s.clientUnread.take n, clientUnread := s.clientUnread.drop n } := by
  have hgreeted := GuestPhase.greeted_of_joined hj
  exact { h with
    waiting := fun hacc' ↦ absurd hacc (Bool.eq_false_iff.1 hacc')
    greeting := fun hg ↦ absurd hg (Bool.eq_false_iff.1 (GuestPhase.greeting_eq_false hgreeted))
    drained := fun _ hj' ↦ absurd hj (Bool.eq_false_iff.1 hj')
    pipe := fun _ ↦ by
      rw [← List.append_assoc _ s.toGuest, List.append_assoc _ (List.take n _),
        List.take_append_drop]
      exact h.pipe hj }

theorem guestFill (h : Up cbor pf s) (hbufio : s.bufio = []) (hn : Chunk n s.toGuest) :
    Up cbor pf { s with bufio := s.toGuest.take n, toGuest := s.toGuest.drop n } := by
  have hmove : ∀ bs : Bytes, bs ++ s.toGuest.take n ++ s.toGuest.drop n =
      bs ++ s.bufio ++ s.toGuest := fun bs ↦ by
    rw [List.append_assoc, List.take_append_drop, hbufio, List.append_nil]
  exact { h with
    greeting := by simpa only [hmove] using h.greeting
    drained := fun hg hj ↦ by
      have hlen := hn.2
      rw [(h.drained hg hj).2] at hlen
      exact absurd hlen (Nat.not_le.2 hn.1)
    pipe := by simpa only [hmove] using h.pipe }

theorem guestPeek (h : Up cbor pf s) (hguest : s.guest = .peek)
    (hbufio : s.bufio = protocolByte :: bs) :
    Up cbor pf { s with guest := .header, bufio := bs } where
  waiting := h.waiting
  unserved _ := h.unserved (by rw [hguest]; rfl)
  unbuffered hpeek := absurd hpeek (by simp)
  greeting _ := by
    obtain ⟨sent, took, hsent, htook, heq⟩ := h.greeting (by rw [hguest]; rfl)
    rw [hguest] at htook
    refine ⟨sent, [protocolByte], hsent, rfl, ?_⟩
    rw [← heq, show took = [] from htook, h.unbuffered hguest, hbufio]
    simp
  quiet hg := absurd hg (by simp)
  drained hg := absurd hg (by simp)
  pipe hj := absurd hj (by simp)

theorem guestRead (h : Up cbor pf s) (hwants : s.guest.wants cbor s.guestBuf = true) (n : ℕ) :
    Up cbor pf { s with
      guestBuf := s.guestBuf ++ s.bufio.take n, bufio := s.bufio.drop n } := by
  have hg : s.guest = .header ∨ s.guest = .portForward := by
    cases hguest : s.guest <;> simp_all [GuestPhase.wants]
  have hgreeted : s.guest.greeted = false := by rcases hg with hg | hg <;> rw [hg] <;> rfl
  have hjoined : s.guest.joined = false := by rcases hg with hg | hg <;> rw [hg] <;> rfl
  exact { h with
    unbuffered := fun hpeek ↦ by rcases hg with hg | hg <;> exact absurd hpeek (by simp [hg])
    greeting := fun hgr ↦ by
      obtain ⟨sent, took, hsent, htook, heq⟩ := h.greeting hgr
      refine ⟨sent, took, hsent, htook, ?_⟩
      rw [← heq, ← List.append_assoc took, List.append_assoc _ (List.take n _),
        List.take_append_drop]
    drained := fun hgr ↦ absurd hgr (Bool.eq_false_iff.1 hgreeted)
    pipe := fun hj ↦ absurd hj (Bool.eq_false_iff.1 hjoined) }

/-- Once the guest has joined the two connections, it is the pipe that matters. -/
theorem joins (h : Up cbor pf s) (hgreeted : s.guest.greeted = true) (hg : g.joined = true)
    (b : Bytes)
    (hpipe : s.serviceReceived ++ s.bufio ++ s.toGuest ++ s.clientUnread = s.clientSent) :
    Up cbor pf { s with guest := g, toHost := b } where
  waiting := h.waiting
  unserved hj := absurd (hg.symm.trans hj) nofun
  unbuffered hpeek := absurd (show g = .peek from hpeek) (by rintro rfl; cases hg)
  greeting hgreeting := absurd hgreeting (by simp [GuestPhase.not_greeting_of_joined hg])
  quiet _ := h.quiet hgreeted
  drained _ hj := absurd (hg.symm.trans hj) nofun
  pipe _ := hpipe

/-- With the reply the pipe is open, and it is empty. -/
theorem sendOk (h : Up cbor pf s) (hguest : s.guest = .accept) (hacc : s.host.accepted = false)
    (b : Bytes) : Up cbor pf { s with guest := .forwarding, toHost := b } := by
  have hgreeted : s.guest.greeted = true := by rw [hguest]; rfl
  have hjoined : s.guest.joined = false := by rw [hguest]; rfl
  refine h.joins hgreeted rfl b ?_
  obtain ⟨hbufio, hto⟩ := h.drained hgreeted hjoined
  rw [h.unserved hjoined, hbufio, hto, h.waiting hacc]
  rfl

theorem guestUp (h : Up cbor pf s) (hguest : s.guest = .forwarding) (n : ℕ) :
    Up cbor pf { s with
      serviceReceived := s.serviceReceived ++ s.bufio.take n, bufio := s.bufio.drop n } :=
  { h with
    unserved := fun hj ↦ absurd hj (by simp [hguest])
    greeting := fun hg ↦ absurd hg (by simp [hguest, GuestPhase.greeting])
    drained := fun _ hj ↦ absurd hj (by simp [hguest])
    pipe := fun hj ↦ by
      rw [List.append_assoc s.serviceReceived, List.take_append_drop]
      exact h.pipe hj }

theorem guestClose (h : Up cbor pf s) (hguest : s.guest = .forwarding) :
    Up cbor pf { s with guest := .closed } :=
  h.joins (by rw [hguest]; rfl) rfl s.toHost (h.pipe (by rw [hguest]; rfl))

end Up

section Delivery

variable (cbor pf)

end Delivery

end Forward
