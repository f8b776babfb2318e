import Isle.Ssh.Sender
import Mathlib.Algebra.BigOperators.Group.Finset.Basic
import Mathlib.Data.FinEnum

/-!
# Flow control between the two ends of an SSH channel

One direction of a channel of `pkg/crypto/ssh`: calls of `WriteExtended` at one end, packets on the
way, calls of `ReadExtended` at the other, and the window updates on the way back. Every step that
another goroutine can come between is a step here. A read and the `adjustWindow` after it are two
steps, and window updates are handled in any order.

Two sums stay the same (`Inv`). The receiver's window is what was granted less what is unread and
what was read and not credited; and it is the window the sender has, what calls have reserved, what
is on the way and the updates on their way back. So a packet never exceeds the receiver's window,
and a window update never overflows the sender's (`flow_control`).

The updates that a receiver sends are those of its reads. A peer may also open its window further,
which `widen` is for; `ByReads` leaves it out.
-/

open Function (update update_self update_of_ne update_eq_self)

namespace Ssh

/-! ### Buffers and channels -/

/-- The bytes that a pass through `Read` gave. -/
def Buffer.Outcome.data : Buffer.Outcome → Bytes
  | .bytes data => data
  | .eof | .wait => []

theorem Buffer.data_append_content_read (b : Buffer) (n : ℕ) :
    (b.read n).1.data ++ (b.read n).2.content = b.content := by
  have hadvance := b.content_advance n
  rcases eq_or_ne n 0 with rfl | hn
  · rfl
  · obtain ⟨-, hread⟩ | ⟨hnil, -, hread⟩ | ⟨hnil, -, hread⟩ := b.read_cases hn
    · rw [hread, hadvance]
      exact List.take_append_drop n b.content
    · rw [hread, hadvance, hnil, List.drop_nil]
      rfl
    · rw [hread]
      exact hadvance.trans (by rw [hnil, List.drop_nil])

theorem Buffer.content_write (b : Buffer) (data : Bytes) :
    (b.write data).content = b.content ++ data := by
  simp [Buffer.write, Buffer.signal, Buffer.content]

/-- A sum in which one summand changes. -/
theorem sum_update_add {ι β : Type*} [Fintype ι] [DecidableEq ι] (g : β → ℕ) (f : ι → β) (i : ι)
    (v : β) : ∑ j, g (update f i v j) + g (f i) = ∑ j, g (f j) + g v := by
  have hrest : ∑ j ∈ Finset.univ.erase i, g (update f i v j) =
      ∑ j ∈ Finset.univ.erase i, g (f j) :=
    Finset.sum_congr rfl fun j hj ↦ by rw [update_of_ne (Finset.ne_of_mem_erase hj)]
  rw [← Finset.add_sum_erase _ _ (Finset.mem_univ i),
    ← Finset.add_sum_erase _ _ (Finset.mem_univ i), hrest, update_self]
  omega

namespace Channel

/-- All that is unread, over the data and the extended data of every code. -/
def unread (c : Channel) : ℕ := ∑ code, (c.stream code).content.length

theorem stream_setStream (c : Channel) (code : UInt32) (b : Buffer) :
    (c.setStream code b).stream = update c.stream code b := by
  funext other
  rcases eq_or_ne other code with rfl | hne
  · rw [stream_setStream_self, update_self]
  · rw [stream_setStream_of_ne c hne, update_of_ne hne]

theorem unread_setStream (c : Channel) (code : UInt32) (b : Buffer) :
    (c.setStream code b).unread + (c.stream code).content.length =
      c.unread + b.content.length := by
  rw [unread, unread, stream_setStream]
  exact sum_update_add (fun b : Buffer ↦ b.content.length) c.stream code b

/-- What `handleData` makes of data that may be sent. -/
def receive (c : Channel) (code : UInt32) (data : Bytes) : Channel :=
  if data = [] then c
  else setStream { c with myWindow := c.myWindow - data.length } code
    ((c.stream code).write data)

/-- **An honest packet is taken in**, by its code. -/
theorem handleData_dataPacket (c : Channel) (remoteId code : UInt32) {data : Bytes}
    (hmax : data.length ≤ c.maxIncomingPayload) (hwin : data.length ≤ c.myWindow)
    (hlt : data.length < 2 ^ 32) :
    c.handleData (opCode code) (dataPacket remoteId code data) = .ok (c.receive code data) := by
  have hpayload : (dataPacket remoteId code data).drop (headerLen (opCode code)) = data :=
    payload_dataPacket remoteId code data
  have hcode : extended (opCode code) (dataPacket remoteId code data) = code :=
    packetCode_dataPacket remoteId code data
  have hshort : ¬ (dataPacket remoteId code data).length < headerLen (opCode code) := by
    rw [length_dataPacket, headerLen_opCode]
    omega
  rw [handleData, if_neg hshort, hpayload, hcode, length_dataPacket_eq remoteId code data hlt,
    receive]
  by_cases hdata : data = []
  · rw [if_pos (by rw [hdata]; rfl), if_pos hdata]
  · rw [if_neg (fun h ↦ hdata (List.length_eq_zero_iff.1 h)), if_neg (Nat.not_lt.2 hmax),
      if_neg (not_not.2 (Nat.mod_eq_of_lt hlt).symm), if_neg (Nat.not_lt.2 hwin), if_neg hdata]

theorem handlePacket_opCode (c : Channel) (code : UInt32) (body : Bytes)
    (other : Except String Unit) :
    c.handlePacket (opCode code) body other = c.handleData (opCode code) (opCode code :: body) := by
  refine if_pos ?_
  unfold opCode
  split_ifs
  · exact .inl rfl
  · exact .inr rfl

theorem stream_receive (c : Channel) (code : UInt32) (data : Bytes) (other : UInt32) :
    ((c.receive code data).stream other).content =
      (c.stream other).content ++ if code = other then data else [] := by
  unfold receive
  split_ifs with hdata hcode hcode
  · rw [hdata, List.append_nil]
  · rw [List.append_nil]
  · rw [← hcode, stream_setStream_self, Buffer.content_write]
  · rw [stream_setStream_of_ne _ (Ne.symm hcode), List.append_nil]
    rfl

theorem unread_receive (c : Channel) (code : UInt32) (data : Bytes) :
    (c.receive code data).unread = c.unread + data.length := by
  unfold receive
  split_ifs with hdata
  · rw [hdata, List.length_nil, Nat.add_zero]
  · have hset := unread_setStream { c with myWindow := c.myWindow - data.length } code
      ((c.stream code).write data)
    rw [Buffer.content_write, List.length_append] at hset
    have hstream : Channel.stream { c with myWindow := c.myWindow - data.length } code =
      c.stream code := rfl
    have hunread : Channel.unread { c with myWindow := c.myWindow - data.length } = c.unread := rfl
    rw [hstream, hunread] at hset
    omega

@[simp] theorem myWindow_setStream (c : Channel) (code : UInt32) (b : Buffer) :
    (c.setStream code b).myWindow = c.myWindow := by
  unfold setStream
  split_ifs
  · rfl
  · rfl

@[simp] theorem maxIncomingPayload_setStream (c : Channel) (code : UInt32) (b : Buffer) :
    (c.setStream code b).maxIncomingPayload = c.maxIncomingPayload := by
  unfold setStream
  split_ifs
  · rfl
  · rfl

theorem myWindow_receive (c : Channel) (code : UInt32) (data : Bytes) :
    (c.receive code data).myWindow = c.myWindow - data.length := by
  unfold receive
  split_ifs with hdata
  · rw [hdata]
    rfl
  · rw [myWindow_setStream]

theorem maxIncomingPayload_receive (c : Channel) (code : UInt32) (data : Bytes) :
    (c.receive code data).maxIncomingPayload = c.maxIncomingPayload := by
  unfold receive
  split_ifs
  · rfl
  · rw [maxIncomingPayload_setStream]

end Channel

/-- The window that calls have reserved. -/
def Sender.reservedBytes (s : Sender) : ℕ := ∑ code, s.reserved code

theorem Sender.Moved.reservedBytes {s s' : Sender} {code : UInt32} {left : Bytes} {k : ℕ}
    (h : Sender.Moved s s' code left k) :
    s'.reservedBytes + s.reserved code = s.reservedBytes + k := by
  rw [Sender.reservedBytes, Sender.reservedBytes, h.reserved]
  exact sum_update_add (fun n : ℕ ↦ n) s.reserved code k

/-! ### The two ends -/

/-- One direction of a channel. -/
structure Link where
  sender : Sender
  /-- The packets with data on the way. -/
  wire : List Bytes
  chan : Channel
  /-- What was read, by reads that have not called `adjustWindow` yet. -/
  uncredited : List Bytes
  /-- The `windowAdjustMsg`s on the way back. -/
  adjusts : List ℕ
  /-- The error with which one of the two connections ended. -/
  failed : Option String
  /-- What was given to `WriteExtended`, by code. -/
  written : UInt32 → Bytes
  /-- What `ReadExtended` gave, by code. -/
  got : UInt32 → Bytes
  /-- The size of the receiver's window: what it announced, and what it opened further. -/
  granted : ℕ

/-- What can happen next: a step of a call of `WriteExtended`, of the connection, or of the reader's
end. -/
inductive Link.Action
  /-- `WriteExtended` is called. -/
  | write (code : UInt32) (data : Bytes)
  /-- The call with the code reserves window. -/
  | reserve (code : UInt32)
  /-- The call with the code sends a packet. -/
  | send (code : UInt32)
  /-- The receiver handles the next packet. -/
  | deliver
  /-- `ReadExtended` is called with a slice of length `n`. -/
  | read (code : UInt32) (n : ℕ)
  /-- A woken reader goes on. -/
  | resume (code : UInt32) (n : ℕ)
  /-- A read that gave the data calls `adjustWindow`. -/
  | credit (data : Bytes)
  /-- The sender handles a window update. -/
  | adjust (n : ℕ)
  /-- The receiver opens its window further. -/
  | widen (n : ℕ)

namespace Link

/-- A channel whose receiver announced a `MaxPacketSize` and a window. -/
def opened (remoteId : UInt32) (maxPacketSize window : ℕ) : Link where
  sender := ⟨remoteId, maxPacketSize, window, fun _ ↦ [], fun _ ↦ none⟩
  wire := []
  chan := { newChannel with myWindow := window, maxIncomingPayload := maxPacketSize }
  uncredited := []
  adjusts := []
  failed := none
  written _ := []
  got _ := []
  granted := window

/-- A pass through `Read` for the code has ended. -/
def afterRead (l : Link) (code : UInt32) (r : Buffer.Outcome × Buffer) : Link :=
  { l with
    chan := l.chan.setStream code r.2
    got := update l.got code (l.got code ++ r.1.data)
    uncredited := if r.1.data = [] then l.uncredited else l.uncredited ++ [r.1.data] }

/-- One step of the two ends and the connection between them. -/
def step (l : Link) : Action → Option Link
  | .write code data =>
    (l.sender.begin code data).map fun s ↦
      { l with sender := s, written := update l.written code (l.written code ++ data) }
  | .reserve code => (l.sender.reserve code).map fun s ↦ { l with sender := s }
  | .send code =>
    (l.sender.send code).map fun (p, s) ↦ { l with sender := s, wire := l.wire ++ [p] }
  | .deliver =>
    match l.failed, l.wire with
    | none, (tag :: body) :: wire =>
      match l.chan.handlePacket tag body (.ok ()) with
      | .ok c => some { l with chan := c, wire := wire }
      | .error e => some { l with wire := wire, failed := some e }
    | _, _ => none
  | .read code n => some (l.afterRead code ((l.chan.stream code).read n))
  | .resume code n =>
    if n ∈ (l.chan.stream code).woken then
      some (l.afterRead code ((l.chan.stream code).resume n))
    else none
  | .credit data =>
    if data ∈ l.uncredited then
      some { l with
        chan := l.chan.adjustWindow (.bytes data)
        uncredited := l.uncredited.erase data
        adjusts := l.adjusts ++ [data.length % 2 ^ 32] }
    else none
  | .adjust n =>
    if l.failed = none ∧ n ∈ l.adjusts then
      match addWindow l.sender.remoteWin n with
      | some win =>
        some { l with
          sender := { l.sender with remoteWin := win }
          adjusts := l.adjusts.erase n }
      | none =>
        some { l with
          adjusts := l.adjusts.erase n
          failed := some s!"ssh: invalid window update for {n} bytes" }
    else none
  | .widen n =>
    if l.granted + n < 2 ^ 32 then
      some { l with
        chan := { l.chan with myWindow := l.chan.myWindow + n }
        adjusts := l.adjusts ++ [n]
        granted := l.granted + n }
    else none

/-- The peer widens the window. -/
def Action.widens : Action → Bool
  | .widen _ => true
  | _ => false

/-- The window is given back by reads only, as `ReadExtended` does. -/
def ByReads (_ : Link) (a : Action) : Prop := a.widens = false

instance (l : Link) (a : Action) : Decidable (ByReads l a) := inferInstanceAs (Decidable (_ = _))

/-! ### What stays the same -/

/-- The bytes read and not yet credited. -/
def uncreditedBytes (l : Link) : ℕ := (l.uncredited.map List.length).sum

/-- The bytes of data in some packets. -/
def wireBytes (wire : List Bytes) : ℕ := (wire.map fun p ↦ (payload p).length).sum

/-- The data of a code in some packets. -/
def flying (wire : List Bytes) (code : UInt32) : Bytes :=
  wire.flatMap fun p ↦ if packetCode p = code then payload p else []

/-- A packet of the sender. -/
def Sent (s : Sender) (p : Bytes) : Prop :=
  ∃ code data, p = dataPacket s.remoteId code data ∧ data.length ≤ s.maxRemotePayload

/-- **What holds between the two ends.** -/
structure Inv (l : Link) : Prop where
  sender : l.sender.Ok
  maxIncomingPayload : l.chan.maxIncomingPayload = l.sender.maxRemotePayload
  wire : ∀ p ∈ l.wire, Sent l.sender p
  /-- The receiver's window. -/
  window : l.chan.myWindow + l.chan.unread + l.uncreditedBytes = l.granted
  /-- Where the receiver's window is. -/
  credit : l.sender.remoteWin + l.sender.reservedBytes + wireBytes l.wire + l.adjusts.sum =
    l.chan.myWindow
  granted_lt : l.granted < 2 ^ 32
  failed : l.failed = none
  /-- Where the data of a code is. -/
  data : ∀ code, l.got code ++ ((l.chan.stream code).content ++
    (flying l.wire code ++ l.sender.unsent code)) = l.written code

section Wire

variable (wire : List Bytes) (remoteId code other : UInt32) (data : Bytes)

theorem wireBytes_cons :
    wireBytes (dataPacket remoteId code data :: wire) = data.length + wireBytes wire := by
  rw [wireBytes, List.map_cons, List.sum_cons, payload_dataPacket, wireBytes]

theorem wireBytes_concat :
    wireBytes (wire ++ [dataPacket remoteId code data]) = wireBytes wire + data.length := by
  rw [wireBytes, List.map_append, List.sum_append, List.map_singleton, List.sum_singleton,
    payload_dataPacket, wireBytes]

theorem flying_cons :
    flying (dataPacket remoteId code data :: wire) other =
      (if code = other then data else []) ++ flying wire other := by
  rw [flying, List.flatMap_cons, packetCode_dataPacket, payload_dataPacket, flying]

theorem flying_concat :
    flying (wire ++ [dataPacket remoteId code data]) other =
      flying wire other ++ if code = other then data else [] := by
  rw [flying, List.flatMap_append, List.flatMap_singleton, packetCode_dataPacket,
    payload_dataPacket, flying]

end Wire

theorem Sent.moved {s s' : Sender} {code : UInt32} {left : Bytes} {k : ℕ} {p : Bytes}
    (hp : Sent s p) (h : Sender.Moved s s' code left k) : Sent s' p := by
  obtain ⟨code', data, rfl, hdata⟩ := hp
  exact ⟨code', data, by rw [h.remoteId], by rwa [h.maxRemotePayload]⟩

theorem stream_opened (remoteId : UInt32) (maxPacketSize window : ℕ) (code : UInt32) :
    (opened remoteId maxPacketSize window).chan.stream code = newBuffer := by
  unfold Channel.stream
  split_ifs
  · rfl
  · rfl

theorem inv_opened (remoteId : UInt32) {maxPacketSize window : ℕ}
    (hsize : ValidMaxPacketSize maxPacketSize) (hwindow : window < 2 ^ 32) :
    Inv (opened remoteId maxPacketSize window) where
  sender := ⟨hsize, fun _ _ h ↦ absurd h.symm (Option.some_ne_none _)⟩
  maxIncomingPayload := rfl
  wire := fun _ h ↦ absurd h List.not_mem_nil
  window := by
    have hunread : (opened remoteId maxPacketSize window).chan.unread = 0 :=
      Finset.sum_eq_zero fun code _ ↦ by rw [stream_opened]; rfl
    rw [hunread]
    rfl
  credit := by
    have hreserved : (opened remoteId maxPacketSize window).sender.reservedBytes = 0 :=
      Finset.sum_eq_zero fun code _ ↦ rfl
    rw [hreserved]
    rfl
  granted_lt := hwindow
  failed := rfl
  data := fun code ↦ by
    rw [stream_opened]
    rfl

variable {l l' : Link} {code : UInt32}

/-- The sender moves and nothing goes out: what it reserves was in its window. -/
theorem Inv.of_moved (h : Inv l) {s : Sender} {left : Bytes} {k : ℕ}
    {written : UInt32 → Bytes} (hmoved : l.sender.Moved s code left k)
    (hwin : s.remoteWin + k = l.sender.remoteWin + l.sender.reserved code)
    (hdata : ∀ other, l.got other ++ ((l.chan.stream other).content ++
      (flying l.wire other ++ s.unsent other)) = written other) :
    Inv { l with sender := s, written := written } where
  sender := hmoved.ok
  maxIncomingPayload := h.maxIncomingPayload.trans hmoved.maxRemotePayload.symm
  wire p hp := (h.wire p hp).moved hmoved
  window := h.window
  credit := by
    have hsum := hmoved.reservedBytes
    have hcredit := h.credit
    show s.remoteWin + s.reservedBytes + wireBytes l.wire + l.adjusts.sum = l.chan.myWindow
    omega
  granted_lt := h.granted_lt
  failed := h.failed
  data := hdata

theorem Inv.write (h : Inv l) {data : Bytes} (hstep : l.step (.write code data) = some l') :
    Inv l' := by
  obtain ⟨s, hbegin, rfl⟩ := Option.map_eq_some_iff.1 hstep
  obtain ⟨hmoved, hwin, hunsent, hreserved⟩ := h.sender.begin hbegin
  refine h.of_moved hmoved (by rw [hwin, hreserved]) fun other ↦ ?_
  have hdata := h.data other
  rw [hmoved.unsent]
  rcases eq_or_ne other code with rfl | hne
  · rw [update_self, update_self, ← hdata, hunsent]
    simp
  · rwa [update_of_ne hne, update_of_ne hne]

theorem Inv.reserve (h : Inv l) (hstep : l.step (.reserve code) = some l') : Inv l' := by
  obtain ⟨s, hreserve, rfl⟩ := Option.map_eq_some_iff.1 hstep
  obtain ⟨k, hk, hwin, hreserved, -, hmoved⟩ := h.sender.reserve hreserve
  have hunsent : s.unsent = l.sender.unsent := by rw [hmoved.unsent, update_eq_self]
  exact h.of_moved hmoved (by omega) fun other ↦ hunsent ▸ h.data other

/-- A packet goes on the wire, and is taken off the window. -/
theorem Inv.send (h : Inv l) (hstep : l.step (.send code) = some l') : Inv l' := by
  obtain ⟨⟨p, s⟩, hsend, rfl⟩ := Option.map_eq_some_iff.1 hstep
  obtain ⟨hmax, hleft, rfl, hwin, hmoved⟩ := h.sender.send hsend
  have htodo : ((l.sender.unsent code).take (l.sender.reserved code)).length =
      l.sender.reserved code := by
    rw [List.length_take]
    exact Nat.min_eq_left (hleft.trans (Nat.mod_le _ _))
  refine ⟨hmoved.ok, h.maxIncomingPayload.trans hmoved.maxRemotePayload.symm, fun p hp ↦ ?_,
    h.window, ?_, h.granted_lt, h.failed, fun other ↦ ?_⟩
  · rcases List.mem_append.1 hp with hp | hp
    · exact (h.wire p hp).moved hmoved
    · rw [List.mem_singleton.1 hp]
      exact Sent.moved ⟨code, _, rfl, htodo.trans_le hmax⟩ hmoved
  · have hsum := hmoved.reservedBytes
    have hcredit := h.credit
    show s.remoteWin + s.reservedBytes + wireBytes (l.wire ++ [_]) + l.adjusts.sum =
      l.chan.myWindow
    rw [wireBytes_concat, htodo]
    omega
  · have hdata := h.data other
    show l.got other ++ ((l.chan.stream other).content ++ (flying (l.wire ++ [_]) other ++
      s.unsent other)) = l.written other
    rw [flying_concat, hmoved.unsent, ← hdata]
    rcases eq_or_ne other code with rfl | hne
    · rw [update_self, if_pos rfl, List.append_assoc, List.take_append_drop]
    · rw [update_of_ne hne, if_neg hne.symm, List.append_nil]

/-- **The next packet is taken in**, with its data at the end of its stream. -/
theorem Inv.deliver_eq (h : Inv l) {p : Bytes} {wire : List Bytes} (hwire : l.wire = p :: wire) :
    ∃ code data, p = dataPacket l.sender.remoteId code data ∧ data.length ≤ l.chan.myWindow ∧
      l.chan.handleData (opCode code) p = .ok (l.chan.receive code data) ∧
      l.step .deliver = some { l with chan := l.chan.receive code data, wire := wire } := by
  obtain ⟨code, data, rfl, hdata⟩ := h.wire p (hwire ▸ List.mem_cons_self)
  have hlt : data.length < 2 ^ 32 := by
    have hsize := h.sender.maxRemotePayload.2
    omega
  have hwin : data.length ≤ l.chan.myWindow := by
    have hcredit := h.credit
    rw [hwire, wireBytes_cons] at hcredit
    omega
  have hpacket := l.chan.handleData_dataPacket l.sender.remoteId code
    (hdata.trans_eq h.maxIncomingPayload.symm) hwin hlt
  refine ⟨code, data, rfl, hwin, hpacket, ?_⟩
  have hcons : l.wire = (opCode code :: (dataPacket l.sender.remoteId code data).tail) :: wire :=
    hwire
  have hhandle : l.chan.handlePacket (opCode code) (dataPacket l.sender.remoteId code data).tail
      (.ok ()) = .ok (l.chan.receive code data) :=
    (l.chan.handlePacket_opCode code _ _).trans hpacket
  simp only [step, h.failed, hcons, hhandle]

/-- A packet on the wire is for this channel and within the window. -/
theorem Inv.deliver (h : Inv l) (hstep : l.step .deliver = some l') : Inv l' := by
  rcases hwire : l.wire with - | ⟨p, wire⟩
  · simp [step, h.failed, hwire] at hstep
  obtain ⟨code, data, rfl, hwin, -, hdeliver⟩ := h.deliver_eq hwire
  obtain rfl := Option.some.inj (hdeliver.symm.trans hstep)
  refine ⟨h.sender, (Channel.maxIncomingPayload_receive ..).trans h.maxIncomingPayload,
    fun p hp ↦ h.wire p (hwire ▸ List.mem_cons_of_mem _ hp), ?_, ?_, h.granted_lt, h.failed,
    fun other ↦ ?_⟩
  · have hwindow := h.window
    show (l.chan.receive code data).myWindow + (l.chan.receive code data).unread +
      l.uncreditedBytes = l.granted
    rw [Channel.myWindow_receive, Channel.unread_receive]
    omega
  · have hcredit := h.credit
    rw [hwire, wireBytes_cons] at hcredit
    show l.sender.remoteWin + l.sender.reservedBytes + wireBytes wire + l.adjusts.sum =
      (l.chan.receive code data).myWindow
    rw [Channel.myWindow_receive]
    omega
  · have hdata := h.data other
    rw [hwire, flying_cons] at hdata
    show l.got other ++ (((l.chan.receive code data).stream other).content ++ (flying wire other ++
      l.sender.unsent other)) = l.written other
    rw [Channel.stream_receive, ← hdata]
    simp only [List.append_assoc]

/-- A read takes from the stream what it returns. -/
theorem Inv.afterRead (h : Inv l) {r : Buffer.Outcome × Buffer}
    (hr : r.1.data ++ r.2.content = (l.chan.stream code).content) : Inv (l.afterRead code r) := by
  have hlen := congrArg List.length hr
  rw [List.length_append] at hlen
  have huncredited :
      (l.afterRead code r).uncreditedBytes = l.uncreditedBytes + r.1.data.length := by
    unfold uncreditedBytes Link.afterRead
    split_ifs with hnil
    · rw [hnil, List.length_nil, Nat.add_zero]
    · rw [List.map_append, List.sum_append, List.map_singleton, List.sum_singleton]
  refine ⟨h.sender, (Channel.maxIncomingPayload_setStream ..).trans h.maxIncomingPayload, h.wire,
    ?_, ?_, h.granted_lt, h.failed, fun other ↦ ?_⟩
  · have hwindow := h.window
    have hunread := l.chan.unread_setStream code r.2
    show (l.chan.setStream code r.2).myWindow + (l.chan.setStream code r.2).unread +
      (l.afterRead code r).uncreditedBytes = l.granted
    rw [Channel.myWindow_setStream, huncredited]
    omega
  · exact h.credit.trans (Channel.myWindow_setStream ..).symm
  · have hdata := h.data other
    show update l.got code (l.got code ++ r.1.data) other ++
      (((l.chan.setStream code r.2).stream other).content ++ (flying l.wire other ++
        l.sender.unsent other)) = l.written other
    rcases eq_or_ne other code with rfl | hne
    · rw [update_self, Channel.stream_setStream_self, ← hdata, ← hr]
      simp only [List.append_assoc]
    · rwa [update_of_ne hne, Channel.stream_setStream_of_ne _ hne]

/-- What was read is granted to the sender again. -/
theorem Inv.credited (h : Inv l) {data : Bytes} (hstep : l.step (.credit data) = some l') :
    Inv l' := by
  obtain ⟨hmem, rfl⟩ := guarded_eq_some hstep
  have hsum : (l.uncredited.map List.length).sum =
      data.length + ((l.uncredited.erase data).map List.length).sum := by
    rw [((List.perm_cons_erase hmem).map List.length).sum_eq, List.map_cons, List.sum_cons]
  have hwindow := h.window
  have hlt := h.granted_lt
  have hcredit := h.credit
  rw [uncreditedBytes, hsum] at hwindow
  have hwin : (l.chan.myWindow + data.length) % 2 ^ 32 = l.chan.myWindow + data.length :=
    Nat.mod_eq_of_lt (by omega)
  have hlen : data.length % 2 ^ 32 = data.length := Nat.mod_eq_of_lt (by omega)
  refine ⟨h.sender, h.maxIncomingPayload, h.wire, ?_, ?_, h.granted_lt, h.failed, h.data⟩
  · show (l.chan.myWindow + data.length) % 2 ^ 32 + l.chan.unread +
      ((l.uncredited.erase data).map List.length).sum = l.granted
    omega
  · show l.sender.remoteWin + l.sender.reservedBytes + wireBytes l.wire +
      (l.adjusts ++ [data.length % 2 ^ 32]).sum = (l.chan.myWindow + data.length) % 2 ^ 32
    rw [List.sum_append, List.sum_singleton]
    omega

/-- **A window update does not overflow.** -/
theorem Inv.addWindow_eq (h : Inv l) {n : ℕ} (hn : n ∈ l.adjusts) :
    addWindow l.sender.remoteWin n = some (l.sender.remoteWin + n) := by
  have hwindow := h.window
  have hcredit := h.credit
  have hlt := h.granted_lt
  have hsum := List.sum_erase hn
  exact addWindow_of_lt (by omega)

theorem Inv.adjust (h : Inv l) {n : ℕ} (hstep : l.step (.adjust n) = some l') : Inv l' := by
  obtain ⟨⟨-, hn⟩, hstep⟩ := Option.ite_none_right_eq_some.1 hstep
  rw [h.addWindow_eq hn] at hstep
  cases hstep
  have hsum := List.sum_erase hn
  have hcredit := h.credit
  refine ⟨⟨h.sender.maxRemotePayload, h.sender.calls⟩, h.maxIncomingPayload, h.wire, h.window, ?_,
    h.granted_lt, h.failed, h.data⟩
  show l.sender.remoteWin + n + l.sender.reservedBytes + wireBytes l.wire +
    (l.adjusts.erase n).sum = l.chan.myWindow
  omega

theorem Inv.widen (h : Inv l) {n : ℕ} (hstep : l.step (.widen n) = some l') : Inv l' := by
  obtain ⟨hlt, rfl⟩ := guarded_eq_some hstep
  have hwindow := h.window
  have hcredit := h.credit
  refine ⟨h.sender, h.maxIncomingPayload, h.wire, ?_, ?_, hlt, h.failed, h.data⟩
  · show l.chan.myWindow + n + l.chan.unread + l.uncreditedBytes = l.granted + n
    omega
  · show l.sender.remoteWin + l.sender.reservedBytes + wireBytes l.wire +
      (l.adjusts ++ [n]).sum = l.chan.myWindow + n
    rw [List.sum_append, List.sum_singleton]
    omega

theorem Inv.step (h : Inv l) {a : Action} (hstep : l.step a = some l') : Inv l' := by
  cases a with
  | write code data => exact h.write hstep
  | reserve code => exact h.reserve hstep
  | send code => exact h.send hstep
  | deliver => exact h.deliver hstep
  | read code n =>
    cases hstep
    exact h.afterRead (Buffer.data_append_content_read _ n)
  | resume code n =>
    obtain ⟨-, rfl⟩ := guarded_eq_some hstep
    exact h.afterRead (Buffer.data_append_content_read
      { l.chan.stream code with woken := (l.chan.stream code).woken.erase n } n)
  | credit data => exact h.credited hstep
  | adjust n => exact h.adjust hstep
  | widen n => exact h.widen hstep

theorem Inv.run (h : Inv l) {as : List Action} (hrun : Run Link.step l as l') : Inv l' :=
  hrun.invariant (fun _ _ _ h _ ↦ h.step) h

/-- What is written and the size of the window change by the actions for that only. -/
theorem step_frame {a : Action} (hstep : l.step a = some l') :
    (ByReads l a → l'.granted = l.granted) ∧
      ((∀ code data, a ≠ .write code data) → l'.written = l.written) := by
  cases a with
  | write code data =>
    obtain ⟨s, -, rfl⟩ := Option.map_eq_some_iff.1 hstep
    exact ⟨fun _ ↦ rfl, fun h ↦ absurd rfl (h code data)⟩
  | reserve code =>
    obtain ⟨s, -, rfl⟩ := Option.map_eq_some_iff.1 hstep
    exact ⟨fun _ ↦ rfl, fun _ ↦ rfl⟩
  | send code =>
    obtain ⟨⟨p, s⟩, -, rfl⟩ := Option.map_eq_some_iff.1 hstep
    exact ⟨fun _ ↦ rfl, fun _ ↦ rfl⟩
  | deliver =>
    simp only [step] at hstep
    split at hstep
    · split at hstep <;> cases hstep <;> exact ⟨fun _ ↦ rfl, fun _ ↦ rfl⟩
    · cases hstep
  | read code n =>
    cases hstep
    exact ⟨fun _ ↦ rfl, fun _ ↦ rfl⟩
  | resume code n | credit data =>
    obtain ⟨-, rfl⟩ := guarded_eq_some hstep
    exact ⟨fun _ ↦ rfl, fun _ ↦ rfl⟩
  | adjust n =>
    obtain ⟨-, hstep⟩ := Option.ite_none_right_eq_some.1 hstep
    split at hstep <;> cases hstep <;> exact ⟨fun _ ↦ rfl, fun _ ↦ rfl⟩
  | widen n =>
    -- window that no read has made room for
    obtain ⟨-, rfl⟩ := guarded_eq_some hstep
    exact ⟨fun h ↦ absurd h.symm Bool.false_ne_true, fun _ ↦ rfl⟩

/-! ### Flow control -/

/-- **Flow control.** Between two channels of this package, however calls, packets, reads and window
updates come: the receiver's window, what is unread and what was read and not credited make up the
window size. So the receiver takes every packet, its window does not exceed the window size, and no
window update overflows. -/
theorem flow_control {remoteId : UInt32} {as : List Action}
    (h : RunWhile Link.step ByReads (opened remoteId channelMaxPacket channelWindowSize) as l) :
    l.chan.myWindow + l.chan.unread + l.uncreditedBytes = channelWindowSize ∧
      (∀ tag body wire, l.wire = (tag :: body) :: wire →
        ∃ c, l.chan.handleData tag (tag :: body) = .ok c) ∧
      l.chan.myWindow ≤ channelWindowSize ∧
      ∀ n ∈ l.adjusts, ∃ win, addWindow l.sender.remoteWin n = some win := by
  have hinv : Inv l := (inv_opened remoteId ⟨by decide, by decide⟩ (by decide)).run
    (h.mono fun _ _ _ ↦ trivial)
  have hgranted : l.granted = channelWindowSize :=
    h.invariant (I := fun l ↦ l.granted = channelWindowSize)
      (fun _ _ _ hl hreads hstep ↦ ((step_frame hstep).1 hreads).trans hl) rfl
  have hwindow := hinv.window
  rw [hgranted] at hwindow
  refine ⟨hwindow, fun tag body wire hwire ↦ ?_, by omega, fun n hn ↦ ⟨_, hinv.addWindow_eq hn⟩⟩
  obtain ⟨code, data, hp, -, hpacket, -⟩ := hinv.deliver_eq hwire
  obtain ⟨rfl, -⟩ := List.cons_eq_cons.1 hp
  exact ⟨_, hpacket⟩

/-- A call with stderr data, a read of part of it before it is credited, and a packet on the way. -/
def stderrInFlight : List Action :=
  [.write 1 [5, 6, 7], .read 1 2, .reserve 1, .send 1, .deliver, .resume 1 2, .write 0 [8],
    .reserve 0, .send 0]

theorem flow_control_stderrInFlight :
    ∃ l, RunWhile Link.step ByReads (opened 7 channelMaxPacket channelWindowSize) stderrInFlight l ∧
      l.got 1 = [5, 6] ∧ l.uncreditedBytes = 2 ∧
      l.chan.myWindow + l.chan.unread + l.uncreditedBytes = channelWindowSize := by
  obtain ⟨l, hrun, hgot, huncredited⟩ :
      ∃ l, RunWhile Link.step ByReads (opened 7 channelMaxPacket channelWindowSize)
        stderrInFlight l ∧ l.got 1 = [5, 6] ∧ l.uncreditedBytes = 2 :=
    ⟨_, runWhile_iff_foldlM.2 rfl, rfl, rfl⟩
  exact ⟨l, hrun, hgot, huncredited, (flow_control hrun).1⟩

end Link

end Ssh
