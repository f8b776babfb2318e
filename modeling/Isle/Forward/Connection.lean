import Isle.Foundation.Run
import Isle.Forward.Message

/-!
# One forwarded connection

The life of one connection that a client makes to a forwarded port: the body of the loop of
`forwardPort` on the host (`vm/vm.go`), and `HandleConn` and `handleProtocol` in the guest
(`guest/guest.go`), joined by a stream with a direction each way.

The two ends read the stream through different layers, and that is what the model keeps apart:

* the **host** reads the reply through a message decoder with a private buffer (`hostBuf`), and then
  copies from the *stream*;
* the **guest** reads the greeting through a buffered reader (`bufio`) and, on top of it, a message
  decoder with a private buffer (`guestBuf`), and then copies from the *buffered reader*.

A step is one action of one party, so a run is an interleaving. A read takes any number of bytes
that are there; a copying step is a read and the write of what was read. A decoder reads only when
its buffer does not hold a whole message. Errors are steps too: a party in the handshake may fail,
and a pair of copy loops may end, at any point.
-/

namespace Forward

/-! ### The state -/

/-- Where the loop body of `forwardPort` is. -/
inductive HostPhase
  /-- The stream is open; the protocol byte is next. -/
  | start
  | header
  | portForward
  /-- In `dec.Decode(&resp)`. -/
  | awaiting
  | forwarding
  /-- A copy loop has ended and closed both connections. -/
  | closed
  /-- The reply was not `OK`. -/
  | rejected
  /-- A message could not be sent, or the reply not be decoded. -/
  | failed
  deriving DecidableEq, Repr

/-- Where `HandleConn` is. -/
inductive GuestPhase
  | peek
  /-- In `dec.Decode(&hdr)`. -/
  | header
  /-- In `dec.Decode(&pf)`. -/
  | portForward
  | dial (address : String)
  /-- The service is connected; the reply is next. -/
  | accept
  /-- An error reply is next. -/
  | refuse (text : String)
  | refused (text : String)
  | forwarding
  /-- A copy loop has ended and closed both connections. -/
  | closed
  /-- The connection is an SSH one. -/
  | ssh
  /-- Another request of the protocol: `shutdown` or `timesync`. -/
  | other (kind : String)
  | failed
  deriving DecidableEq, Repr

/-- The connection: the two ends of it, the stream between them and their buffers. -/
structure Conn where
  /-- All that the client has sent, what of it the host has not read, and what it was sent. -/
  clientSent : Bytes
  clientUnread : Bytes
  clientReceived : Bytes
  /-- The same of the service. -/
  serviceSent : Bytes
  serviceUnread : Bytes
  serviceReceived : Bytes
  /-- The two directions of the stream. -/
  toGuest : Bytes
  toHost : Bytes
  host : HostPhase
  /-- The private buffer of the host's decoder. -/
  hostBuf : Bytes
  guest : GuestPhase
  /-- The buffer of the guest's `bufio.Reader`. -/
  bufio : Bytes
  /-- The private buffer of the guest's decoder. -/
  guestBuf : Bytes
  deriving DecidableEq, Repr

/-- An accepted client, and an open stream. -/
def Conn.start : Conn := ⟨[], [], [], [], [], [], [], [], .start, [], .peek, [], []⟩

/-! ### The steps -/

/-- What a party does next. -/
inductive Action
  | clientSend (bs : Bytes)
  | serviceSend (bs : Bytes)
  /-- The next write of the greeting. -/
  | hostSend
  /-- A read of the host's decoder. -/
  | hostRead (n : ℕ)
  | hostDecode
  | hostFail
  /-- `io.Copy(guest, c)` -/
  | hostUp (n : ℕ)
  /-- `io.Copy(c, guest)` -/
  | hostDown (n : ℕ)
  | hostClose
  /-- A read of the `bufio.Reader`. -/
  | guestFill (n : ℕ)
  | guestPeek
  /-- A read of the guest's decoder. -/
  | guestRead (n : ℕ)
  | guestDecode
  /-- `net.Dial`, with the text of its error. -/
  | guestDial (err : Option String)
  | guestReply
  | guestFail
  /-- `io.Copy(c, conn)` -/
  | guestUp (n : ℕ)
  /-- `io.Copy(conn, c)` -/
  | guestDown (n : ℕ)
  | guestClose
  deriving DecidableEq, Repr

/-- A read of a number of bytes: one at least, and no more than there are. -/
def Chunk (n : ℕ) (src : Bytes) : Prop := 0 < n ∧ n ≤ src.length

instance (n : ℕ) (src : Bytes) : Decidable (Chunk n src) := inferInstanceAs (Decidable (_ ∧ _))

/-- The address `handleProtocol` dials: a key with a colon is an IPv6 address. -/
def dialAddress (m : PortForwardMessage) : String :=
  (if m.key.toList.contains ':' then "[" ++ m.key ++ "]" else m.key) ++ ":" ++ toString m.port

/-- What `handleProtocol` does for a kind of request. -/
def dispatch (kind : String) : GuestPhase :=
  if kind = "port-forward" then .portForward
  else if kind = "shutdown" ∨ kind = "timesync" then .other kind
  else .refuse ("unknown event type: " ++ kind)

/-- The header `forwardPort` sends. -/
def forwardHeader : HeaderMessage := ⟨"port-forward"⟩

/-- The service is connected. -/
def GuestPhase.connected : GuestPhase → Bool
  | .accept | .forwarding => true
  | _ => false

/-- The guest reads from the stream: it peeks, decodes or copies. -/
def GuestPhase.reading : GuestPhase → Bool
  | .peek | .header | .portForward | .forwarding => true
  | _ => false

/-- Steps of the handshake that can return an error. -/
def HostPhase.fallible : HostPhase → Bool
  | .header | .portForward | .awaiting => true
  | _ => false

/-- The guest may return with an error here. -/
def GuestPhase.fallible : GuestPhase → Bool
  | .peek | .header | .portForward | .accept => true
  | _ => false

variable (cbor : Cbor) (pf : PortForwardMessage)

/-- The next write of the greeting: the protocol byte, the header, then the port and key. -/
def sendGreeting (s : Conn) : Option Conn :=
  match s.host with
  | .start => some { s with host := .header, toGuest := s.toGuest ++ [protocolByte] }
  | .header =>
    match cbor.header.encode forwardHeader with
    | some bs => some { s with host := .portForward, toGuest := s.toGuest ++ bs }
    | none => some { s with host := .failed }
  | .portForward =>
    match cbor.portForward.encode pf with
    | some bs => some { s with host := .awaiting, toGuest := s.toGuest ++ bs }
    | none => some { s with host := .failed }
  | _ => none

/-- `dec.Decode(&resp)` on the host, and what follows it. -/
def decodeReply (s : Conn) : Option Conn :=
  match s.host, cbor.response.next s.hostBuf with
  | .awaiting, .item m n =>
    some { s with
      host := if m.code = codeOK then .forwarding else .rejected
      hostBuf := s.hostBuf.drop n }
  | .awaiting, .malformed => some { s with host := .failed }
  | _, _ => none

/-- `r.Peek(1)`, and the choice of protocol. -/
def peekProtocol (s : Conn) : Option Conn :=
  match s.guest, s.bufio with
  | .peek, b :: bs =>
    if b = protocolByte then some { s with guest := .header, bufio := bs }
    else some { s with guest := .ssh }
  | _, _ => none

/-- The guest's decoder needs more bytes. -/
def GuestPhase.wants (cbor : Cbor) (buf : Bytes) : GuestPhase → Bool
  | .header => cbor.header.next buf = .incomplete
  | .portForward => cbor.portForward.next buf = .incomplete
  | _ => false

/-- `dec.Decode(&hdr)` and `dec.Decode(&pf)`. -/
def decodeRequest (s : Conn) : Option Conn :=
  match s.guest with
  | .header =>
    match cbor.header.next s.guestBuf with
    | .item m n => some { s with guest := dispatch m.kind, guestBuf := s.guestBuf.drop n }
    | .malformed => some { s with guest := .failed }
    | .incomplete => none
  | .portForward =>
    match cbor.portForward.next s.guestBuf with
    | .item m n => some { s with guest := .dial (dialAddress m), guestBuf := s.guestBuf.drop n }
    | .malformed => some { s with guest := .failed }
    | .incomplete => none
  | _ => none

/-- The reply of the guest. An error reply ends the connection, sent or not. -/
def sendReply (s : Conn) : Option Conn :=
  match s.guest with
  | .accept =>
    match cbor.response.encode .ok with
    | some bs => some { s with guest := .forwarding, toHost := s.toHost ++ bs }
    | none => some { s with guest := .failed }
  | .refuse text =>
    match cbor.response.encode (.failed text) with
    | some bs => some { s with guest := .refused text, toHost := s.toHost ++ bs }
    | none => some { s with guest := .failed }
  | _ => none

/-- One action of one party. -/
def step (s : Conn) : Action → Option Conn
  | .clientSend bs =>
    some { s with clientSent := s.clientSent ++ bs, clientUnread := s.clientUnread ++ bs }
  | .serviceSend bs =>
    if s.guest.connected then
      some { s with serviceSent := s.serviceSent ++ bs, serviceUnread := s.serviceUnread ++ bs }
    else none
  | .hostSend => sendGreeting cbor pf s
  | .hostRead n =>
    if s.host = .awaiting ∧ cbor.response.next s.hostBuf = .incomplete ∧ Chunk n s.toHost then
      some { s with hostBuf := s.hostBuf ++ s.toHost.take n, toHost := s.toHost.drop n }
    else none
  | .hostDecode => decodeReply cbor s
  | .hostFail => if s.host.fallible then some { s with host := .failed } else none
  | .hostUp n =>
    if s.host = .forwarding ∧ Chunk n s.clientUnread then
      some { s with
        toGuest := s.toGuest ++ s.clientUnread.take n, clientUnread := s.clientUnread.drop n }
    else none
  | .hostDown n =>
    if s.host = .forwarding ∧ Chunk n s.toHost then
      some { s with
        clientReceived := s.clientReceived ++ s.toHost.take n, toHost := s.toHost.drop n }
    else none
  | .hostClose => if s.host = .forwarding then some { s with host := .closed } else none
  | .guestFill n =>
    if s.guest.reading ∧ s.bufio = [] ∧ Chunk n s.toGuest then
      some { s with bufio := s.toGuest.take n, toGuest := s.toGuest.drop n }
    else none
  | .guestPeek => peekProtocol s
  | .guestRead n =>
    if s.guest.wants cbor s.guestBuf ∧ Chunk n s.bufio then
      some { s with guestBuf := s.guestBuf ++ s.bufio.take n, bufio := s.bufio.drop n }
    else none
  | .guestDecode => decodeRequest cbor s
  | .guestDial err =>
    match s.guest with
    | .dial _ =>
      some { s with guest := match err with | none => .accept | some text => .refuse text }
    | _ => none
  | .guestReply => sendReply cbor s
  | .guestFail => if s.guest.fallible then some { s with guest := .failed } else none
  | .guestUp n =>
    if s.guest = .forwarding ∧ Chunk n s.bufio then
      some { s with
        serviceReceived := s.serviceReceived ++ s.bufio.take n, bufio := s.bufio.drop n }
    else none
  | .guestDown n =>
    if s.guest = .forwarding ∧ Chunk n s.serviceUnread then
      some { s with
        toHost := s.toHost ++ s.serviceUnread.take n, serviceUnread := s.serviceUnread.drop n }
    else none
  | .guestClose => if s.guest = .forwarding then some { s with guest := .closed } else none

/-! ### What the composite actions do -/

section Inversion

variable {cbor pf} {s t : Conn}

/-- A write of the greeting: from which phase, what, and to which phase. -/
inductive Greets (cbor : Cbor) (pf : PortForwardMessage) : HostPhase → Bytes → HostPhase → Prop
  | start : Greets cbor pf .start [protocolByte] .header
  | header {bs : Bytes} (h : cbor.header.encode forwardHeader = some bs) :
      Greets cbor pf .header bs .portForward
  | portForward {bs : Bytes} (h : cbor.portForward.encode pf = some bs) :
      Greets cbor pf .portForward bs .awaiting

theorem sendGreeting_cases (h : sendGreeting cbor pf s = some t) :
    (s.host.fallible = true ∧ t = { s with host := .failed }) ∨
      ∃ bs p, Greets cbor pf s.host bs p ∧
        t = { s with host := p, toGuest := s.toGuest ++ bs } := by
  unfold sendGreeting at h
  cases hhost : s.host <;> simp only [hhost, reduceCtorEq] at h
  · exact .inr ⟨_, _, .start, by simpa using h.symm⟩
  · cases henc : cbor.header.encode forwardHeader with
    | none => exact .inl ⟨rfl, by simpa [henc] using h.symm⟩
    | some bs => exact .inr ⟨bs, _, .header henc, by simpa [henc] using h.symm⟩
  · cases henc : cbor.portForward.encode pf with
    | none => exact .inl ⟨rfl, by simpa [henc] using h.symm⟩
    | some bs => exact .inr ⟨bs, _, .portForward henc, by simpa [henc] using h.symm⟩

theorem decodeReply_cases (h : decodeReply cbor s = some t) :
    s.host = .awaiting ∧
      ((∃ m n, cbor.response.next s.hostBuf = .item m n ∧
        t = { s with
          host := if m.code = codeOK then .forwarding else .rejected
          hostBuf := s.hostBuf.drop n }) ∨
      (cbor.response.next s.hostBuf = .malformed ∧ t = { s with host := .failed })) := by
  unfold decodeReply at h
  split at h
  · next m n hhost hnext => exact ⟨hhost, .inl ⟨m, n, hnext, by simpa using h.symm⟩⟩
  · next hhost hnext => exact ⟨hhost, .inr ⟨hnext, by simpa using h.symm⟩⟩
  · exact absurd h (by simp)

theorem peekProtocol_cases (h : peekProtocol s = some t) :
    s.guest = .peek ∧ ∃ b bs, s.bufio = b :: bs ∧
      ((b = protocolByte ∧ t = { s with guest := .header, bufio := bs }) ∨
        (b ≠ protocolByte ∧ t = { s with guest := .ssh })) := by
  unfold peekProtocol at h
  split at h
  · next b bs hguest hbuf =>
    refine ⟨hguest, b, bs, hbuf, ?_⟩
    split at h
    · next hb => exact .inl ⟨hb, by simpa using h.symm⟩
    · next hb => exact .inr ⟨hb, by simpa using h.symm⟩
  · exact absurd h (by simp)

/-- What the guest makes of a request. -/
theorem decodeRequest_cases (h : decodeRequest cbor s = some t) :
    (s.guest = .header ∧ ∃ m n, cbor.header.next s.guestBuf = .item m n ∧
      t = { s with guest := dispatch m.kind, guestBuf := s.guestBuf.drop n }) ∨
    (s.guest = .portForward ∧ ∃ m n, cbor.portForward.next s.guestBuf = .item m n ∧
      t = { s with guest := .dial (dialAddress m), guestBuf := s.guestBuf.drop n }) ∨
    (s.guest.fallible = true ∧ t = { s with guest := .failed }) := by
  unfold decodeRequest at h
  split at h
  · next hguest =>
    split at h
    · next m n hnext => exact .inl ⟨hguest, m, n, hnext, by simpa using h.symm⟩
    · exact .inr (.inr ⟨by rw [hguest]; rfl, by simpa using h.symm⟩)
    · exact absurd h (by simp)
  · next hguest =>
    split at h
    · next m n hnext => exact .inr (.inl ⟨hguest, m, n, hnext, by simpa using h.symm⟩)
    · exact .inr (.inr ⟨by rw [hguest]; rfl, by simpa using h.symm⟩)
    · exact absurd h (by simp)
  · exact absurd h (by simp)

/-- What the guest answers. -/
theorem sendReply_cases (h : sendReply cbor s = some t) :
    (s.guest = .accept ∧ ∃ bs, cbor.response.encode .ok = some bs ∧
      t = { s with guest := .forwarding, toHost := s.toHost ++ bs }) ∨
    (∃ text, s.guest = .refuse text ∧ ∃ bs, cbor.response.encode (.failed text) = some bs ∧
      t = { s with guest := .refused text, toHost := s.toHost ++ bs }) ∨
    ((s.guest = .accept ∨ ∃ text, s.guest = .refuse text) ∧ t = { s with guest := .failed }) := by
  unfold sendReply at h
  split at h
  · next hguest =>
    split at h
    · next bs henc => exact .inl ⟨hguest, bs, henc, by simpa using h.symm⟩
    · exact .inr (.inr ⟨.inl hguest, by simpa using h.symm⟩)
  · next text hguest =>
    split at h
    · next bs henc => exact .inr (.inl ⟨text, hguest, bs, henc, by simpa using h.symm⟩)
    · exact .inr (.inr ⟨.inr ⟨text, hguest⟩, by simpa using h.symm⟩)
  · exact absurd h (by simp)

end Inversion

end Forward
