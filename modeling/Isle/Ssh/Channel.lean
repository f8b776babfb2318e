import Isle.Forward.Message
import Isle.Foundation.Run
import Isle.Ssh.Buffer

/-!
# The end of the streams of an SSH channel

`channel.handlePacket`, `channel.close` and `channel.ReadExtended` of `pkg/crypto/ssh/channel.go`,
against any number of readers. A channel has one buffer for its data and one for each code of
extended data, and the latter are made when they are first looked up: by a packet with data, or by a
reader.

Two things about the end of the streams follow from the code, and neither is what a reader expects.
The end is told to the buffers that **exist** when it comes, so that a buffer made later is open and
its first reader waits for a packet that never comes. And `eof` tells it with `Signal`, which wakes
**one** of the readers that wait.

`endReaches_throughout_iff` has the exact condition: the end comes when the buffer of the code is
there and at most one reader is asleep at it.
-/

namespace Ssh

open Forward (ofBigEndian)

/-! ### The channel -/

/-- Where the packet loop of the connection is with the channel. -/
inductive Phase
  | open
  /-- A packet ended the loop with an error, and the loop has not closed the channel yet. -/
  | failed
  /-- `close` has run. -/
  | torn
  deriving DecidableEq, Repr

/-- `channel`: the fields that the packets and the readers of its streams work on. -/
structure Channel where
  /-- The data that was not extended. -/
  pending : Buffer
  /-- The extended data, by code. -/
  extPending : UInt32 → Option Buffer
  myWindow : ℕ
  maxIncomingPayload : ℕ
  phase : Phase
  /-- The peer ended the streams or `close` has run. -/
  ended : Bool

/-- The most data that is asked for in one packet. -/
def channelMaxPacket : ℕ := 2 ^ 15

/-- The window that a channel begins with, and that reading widens again. -/
def channelWindowSize : ℕ := 64 * channelMaxPacket

/-- A channel that is not decided yet, with an empty buffer. -/
def newChannel : Channel where
  pending := newBuffer
  extPending _ := none
  myWindow := channelWindowSize
  maxIncomingPayload := 0
  phase := .open
  ended := false

/-- Data. -/
def msgChannelData : UInt8 := 94

/-- Data with a code. -/
def msgChannelExtendedData : UInt8 := 95

/-- The end of the data. -/
def msgChannelEOF : UInt8 := 96

/-- The end of the channel. -/
def msgChannelClose : UInt8 := 97

namespace Channel

/-- The buffer that a reader of the code reads from: `pending` for the code 0, what `extBuffer`
yields for the others. -/
def stream (c : Channel) (code : UInt32) : Buffer :=
  if code = 0 then c.pending else (c.extPending code).getD newBuffer

/-- The buffer of the code is there without being made. -/
def Made (c : Channel) (code : UInt32) : Prop := code = 0 ∨ (c.extPending code).isSome

instance (c : Channel) (code : UInt32) : Decidable (c.Made code) :=
  inferInstanceAs (Decidable (_ ∨ _))

/-- The buffer of the code is looked up and changed. -/
def setStream (c : Channel) (code : UInt32) (b : Buffer) : Channel :=
  if code = 0 then { c with pending := b }
  else { c with extPending := Function.update c.extPending code (some b) }

/-! ### Packets -/

/-- How many bytes are in front of the data. -/
def headerLen (tag : UInt8) : ℕ := if tag = msgChannelExtendedData then 13 else 9

/-- The error for a packet that is too short. -/
def parseError (tag : UInt8) : String := "ssh: parse error in message type " ++ toString tag.toNat

/-- The code of extended data, 0 for other data. -/
def extended (tag : UInt8) (packet : Bytes) : UInt32 :=
  if tag = msgChannelExtendedData then UInt32.ofNat (ofBigEndian ((packet.drop 5).take 4)) else 0

/-- The length that a data packet says it has. -/
def length (tag : UInt8) (packet : Bytes) : ℕ :=
  ofBigEndian ((packet.drop (headerLen tag - 4)).take 4)

/-- `handleData`, for a packet that starts with `tag`. -/
def handleData (c : Channel) (tag : UInt8) (packet : Bytes) : Except String Channel :=
  if packet.length < headerLen tag then .error (parseError tag)
  else if length tag packet = 0 then .ok c
  else if length tag packet > c.maxIncomingPayload then
    .error "ssh: incoming packet exceeds maximum payload size"
  else if length tag packet ≠ (packet.drop (headerLen tag)).length % 2 ^ 32 then
    .error "ssh: wrong packet length"
  else if c.myWindow < length tag packet then .error "ssh: remote side wrote too much"
  else
    .ok (setStream { c with myWindow := c.myWindow - length tag packet } (extended tag packet)
      ((c.stream (extended tag packet)).write (packet.drop (headerLen tag))))

/-- `eof` of `pending` and of every buffer in `extPending`. -/
def eof (c : Channel) : Channel :=
  { c with
    pending := c.pending.eof
    extPending := fun code ↦ (c.extPending code).map Buffer.eof
    ended := true }

/-- The last step of a channel: readers get what is left, and then the end. -/
def close (c : Channel) : Channel := { c.eof with phase := .torn }

/-- `handlePacket`, for the packet `tag :: body`. Of the messages that are not about the streams
only how their handling ends is said, by `other`. -/
def handlePacket (c : Channel) (tag : UInt8) (body : Bytes) (other : Except String Unit) :
    Except String Channel :=
  if tag = msgChannelData ∨ tag = msgChannelExtendedData then c.handleData tag (tag :: body)
  else if tag = msgChannelClose then .ok c.close
  else if tag = msgChannelEOF then .ok c.eof
  else other.map fun _ ↦ c

/-! ### Readers -/

/-- `adjustWindow`, after a read that gave something. -/
def adjustWindow (c : Channel) : Buffer.Outcome → Channel
  | .bytes data => { c with myWindow := (c.myWindow + data.length) % 2 ^ 32 }
  | .eof | .wait => c

/-- `ReadExtended` into a slice of length `n`, up to its end or to where it waits. -/
def readExtended (c : Channel) (n : ℕ) (code : UInt32) : Buffer.Outcome × Channel :=
  let r := (c.stream code).read n
  (r.1, adjustWindow (c.setStream code r.2) r.1)

/-- A reader of the code that was woken goes on. -/
def resumeExtended (c : Channel) (n : ℕ) (code : UInt32) : Buffer.Outcome × Channel :=
  let r := (c.stream code).resume n
  (r.1, adjustWindow (c.setStream code r.2) r.1)

end Channel

/-! ### Runs -/

/-- What can happen to a channel. -/
inductive Action
  /-- `Accept`, or the peer's answer to an open: the channel takes packets with data. -/
  | accept
  | packet (tag : UInt8) (body : Bytes) (other : Except String Unit)
  /-- The packet loop ends and closes the channel. -/
  | close
  | read (code : UInt32) (n : ℕ)
  | resume (code : UInt32) (n : ℕ)

/-- The action tells the end to the streams. -/
def Action.ends : Action → Bool
  | .packet tag _ _ => tag = msgChannelEOF ∨ tag = msgChannelClose
  | .close => true
  | .accept | .read _ _ | .resume _ _ => false

namespace Channel

/-- One action. A packet that is answered with an error ends the packet loop, and the channel gets
no other; after `close` the connection does not know it. -/
def step (c : Channel) : Action → Option Channel
  | .accept => some { c with maxIncomingPayload := channelMaxPacket }
  | .packet tag body other =>
    if c.phase = .open then
      match c.handlePacket tag body other with
      | .ok c' => some c'
      | .error _ => some { c with phase := .failed }
    else none
  | .close => if c.phase ≠ .torn then some c.close else none
  | .read code n => some (c.readExtended n code).2
  | .resume code n =>
    if n ∈ (c.stream code).woken then some (c.resumeExtended n code).2 else none

/-- **The end of the stream reaches its readers.** Once the streams have ended, the buffer of the
code is closed, nobody is asleep at it, and whoever reads it gets what is left and then `io.EOF`. -/
def EndReaches (code : UInt32) (c : Channel) : Prop :=
  c.ended = true → (c.stream code).Settled ∧
    ∀ ns : List ℕ, (∀ n ∈ ns, n ≠ 0) →
      (c.stream code).reads ns = Buffer.drain (c.stream code).content ns

/-- The first action that ends the streams finds the buffer of the code made, with at most one
reader asleep at it. -/
def EndsReady (code : UInt32) (c : Channel) (a : Action) : Prop :=
  c.ended = false → a.ends = true → c.Made code ∧ (c.stream code).asleep.length ≤ 1

instance (code : UInt32) (c : Channel) (a : Action) : Decidable (EndsReady code c a) :=
  inferInstanceAs (Decidable (_ → _ → _))

/-! ### What an action does to one stream -/

@[simp] theorem stream_setStream_self (c : Channel) (code : UInt32) (b : Buffer) :
    (c.setStream code b).stream code = b := by
  by_cases h : code = 0 <;> simp [stream, setStream, h]

variable {code : UInt32} {b : Buffer} {c c' : Channel} {tag : UInt8}

theorem stream_setStream_of_ne (c : Channel) {other : UInt32} (h : other ≠ code) (b : Buffer) :
    (c.setStream code b).stream other = c.stream other := by
  by_cases h0 : code = 0
  · subst h0
    simp [stream, setStream, h]
  · by_cases h1 : other = 0
    · simp [stream, setStream, h0, h1]
    · simp [stream, setStream, h0, h1, h]

@[simp] theorem ended_setStream (c : Channel) (code : UInt32) (b : Buffer) :
    (c.setStream code b).ended = c.ended := by
  unfold setStream
  split_ifs <;> rfl

@[simp] theorem phase_setStream (c : Channel) (code : UInt32) (b : Buffer) :
    (c.setStream code b).phase = c.phase := by
  unfold setStream
  split_ifs <;> rfl

@[simp] theorem phase_adjustWindow (c : Channel) (o : Buffer.Outcome) :
    (c.adjustWindow o).phase = c.phase := by
  cases o <;> rfl

@[simp] theorem ended_adjustWindow (c : Channel) (o : Buffer.Outcome) :
    (c.adjustWindow o).ended = c.ended := by
  cases o <;> rfl

@[simp] theorem stream_adjustWindow (c : Channel) (o : Buffer.Outcome) (code : UInt32) :
    (c.adjustWindow o).stream code = c.stream code := by
  cases o <;> rfl

/-- Where one buffer takes a step, every stream does. -/
theorem step_stream_setStream (c : Channel) (code other : UInt32)
    (h : Buffer.Step (c.stream code) b) :
    Buffer.Step (c.stream other) ((c.setStream code b).stream other) := by
  rcases eq_or_ne other code with rfl | hne
  · rwa [stream_setStream_self]
  · rw [stream_setStream_of_ne c hne]
    exact .same

theorem stream_eof (c : Channel) (code : UInt32) :
    c.eof.stream code = if c.Made code then (c.stream code).eof else newBuffer := by
  by_cases h0 : code = 0
  · simp [stream, eof, Made, h0]
  · rcases hb : c.extPending code with - | b <;> simp [stream, eof, Made, h0, hb]

theorem handleData_eq_ok {packet : Bytes} (h : c.handleData tag packet = .ok c') :
    c' = c ∨ ∃ window code data,
      c' = setStream { c with myWindow := window } code ((c.stream code).write data) := by
  unfold handleData at h
  split_ifs at h
  · exact .inl (Except.ok.inj h).symm
  · exact .inr ⟨_, _, _, (Except.ok.inj h).symm⟩

/-- The actions that tell no end leave it to the streams to take one step each. -/
structure Goes (c c' : Channel) : Prop where
  ended : c'.ended = c.ended
  stream : ∀ code, Buffer.Step (c.stream code) (c'.stream code)

theorem Goes.of_eq_streams (hended : c'.ended = c.ended)
    (hstream : ∀ code, c'.stream code = c.stream code) : Goes c c' :=
  ⟨hended, fun code ↦ by rw [hstream code]; exact .same⟩

theorem goes_setStream (c : Channel) (code : UInt32) (h : Buffer.Step (c.stream code) b) :
    Goes c (c.setStream code b) :=
  ⟨c.ended_setStream code b, fun other ↦ c.step_stream_setStream code other h⟩

theorem goes_handleData {packet : Bytes} (h : c.handleData tag packet = .ok c') :
    Goes c c' := by
  obtain rfl | ⟨window, code, data, rfl⟩ := handleData_eq_ok h
  · exact .of_eq_streams rfl fun _ ↦ rfl
  · have h := goes_setStream { c with myWindow := window } code (.write data)
    exact ⟨h.ended, h.stream⟩

/-- A packet that is handled tells the end or is one for the streams to go on with. -/
theorem handlePacket_eq_ok {body : Bytes} {other : Except String Unit}
    (h : c.handlePacket tag body other = .ok c') :
    ((tag = msgChannelEOF ∨ tag = msgChannelClose) ∧ c'.ended = true ∧
        ∀ code, c'.stream code = c.eof.stream code) ∨
      (¬(tag = msgChannelEOF ∨ tag = msgChannelClose) ∧ Goes c c') := by
  unfold handlePacket at h
  split_ifs at h with hdata hclose heof
  · refine .inr ⟨?_, goes_handleData h⟩
    rcases hdata with rfl | rfl <;> decide
  · cases h
    exact .inl ⟨.inr hclose, rfl, fun _ ↦ rfl⟩
  · cases h
    exact .inl ⟨.inl heof, rfl, fun _ ↦ rfl⟩
  · refine .inr ⟨not_or.2 ⟨heof, hclose⟩, ?_⟩
    cases other with
    | error e => cases h
    | ok u =>
      cases h
      exact .of_eq_streams rfl fun _ ↦ rfl

/-- An end is never answered with an error. -/
theorem not_ends_of_handlePacket_eq_error {body : Bytes} {other : Except String Unit}
    {e : String} (h : c.handlePacket tag body other = .error e) :
    ¬(tag = msgChannelEOF ∨ tag = msgChannelClose) := by
  rintro (rfl | rfl)
  · have heof : c.handlePacket msgChannelEOF body other = .ok c.eof := rfl
    exact absurd (heof.symm.trans h) (by simp)
  · have hclose : c.handlePacket msgChannelClose body other = .ok c.close := rfl
    exact absurd (hclose.symm.trans h) (by simp)

/-- **What an action can do.** It tells the end to the buffers that are there, or each stream takes
a step of its own. -/
theorem step_cases {a : Action} (h : c.step a = some c') :
    (a.ends = true ∧ c'.ended = true ∧ ∀ code, c'.stream code = c.eof.stream code) ∨
      (a.ends = false ∧ Goes c c') := by
  cases a with
  | accept =>
    cases h
    exact .inr ⟨rfl, .of_eq_streams rfl fun _ ↦ rfl⟩
  | packet tag body other =>
    obtain ⟨-, h⟩ := Option.ite_none_right_eq_some.1 h
    rcases hpacket : c.handlePacket tag body other with e | c₁
    · rw [hpacket] at h
      cases h
      refine .inr ⟨?_, .of_eq_streams rfl fun _ ↦ rfl⟩
      simpa [Action.ends] using not_ends_of_handlePacket_eq_error hpacket
    · rw [hpacket] at h
      cases h
      simpa [Action.ends] using handlePacket_eq_ok hpacket
  | close =>
    obtain ⟨-, rfl⟩ := guarded_eq_some h
    exact .inl ⟨rfl, rfl, fun _ ↦ rfl⟩
  | read code n =>
    cases h
    refine .inr ⟨rfl, ?_, fun other ↦ ?_⟩
    · simp [readExtended]
    · simpa [readExtended] using c.step_stream_setStream code other (.read n)
  | resume code n =>
    obtain ⟨-, rfl⟩ := guarded_eq_some h
    refine .inr ⟨rfl, ?_, fun other ↦ ?_⟩
    · simp [resumeExtended]
    · simpa [resumeExtended] using c.step_stream_setStream code other (.resume n)

/-! ### The end of a stream -/

theorem EndReaches.of_settled (h : (c.stream code).Settled) : EndReaches code c :=
  fun _ ↦ ⟨h, fun _ hns ↦ Buffer.reads_eq_drain h.closed hns⟩

/-- A buffer that is not there is made open. -/
theorem made_of_closed (h : (c.stream code).closed = true) : c.Made code := by
  by_cases h0 : code = 0
  · exact .inl h0
  · rcases hb : c.extPending code with - | b
    · rw [stream, if_neg h0, hb] at h
      cases h
    · exact .inr (by rw [hb]; rfl)

/-- Told the end, a stream is settled exactly when it was made and at most one reader slept. -/
theorem settled_stream_eof_iff :
    (c.eof.stream code).Settled ↔ c.Made code ∧ (c.stream code).asleep.length ≤ 1 := by
  rw [stream_eof]
  by_cases hmade : c.Made code
  · rw [if_pos hmade, Buffer.settled_eof_iff]
    exact (and_iff_right hmade).symm
  · rw [if_neg hmade]
    refine iff_of_false (fun h ↦ ?_) fun h ↦ hmade h.1
    exact absurd h.closed Bool.false_ne_true

/-- **One action.** It keeps the end in reach of the readers exactly when it is not the first one to
tell it, or finds the stream ready. -/
theorem endReaches_step_iff {a : Action} (hc : EndReaches code c) (h : c.step a = some c') :
    EndReaches code c' ↔ EndsReady code c a := by
  rcases hended : c.ended with - | -
  · obtain ⟨ha, hended', hstream⟩ | ⟨ha, hgoes⟩ := step_cases h
    · have hready : EndsReady code c a ↔ (c.eof.stream code).Settled := by
        rw [settled_stream_eof_iff]
        exact ⟨fun hr ↦ hr hended ha, fun hr _ _ ↦ hr⟩
      rw [hready, ← hstream code]
      exact ⟨fun hr ↦ (hr hended').1, .of_settled⟩
    · refine iff_of_true (fun hended' ↦ ?_) fun _ ha' ↦ ?_
      · exact absurd (hended.symm.trans (hgoes.ended.symm.trans hended')) Bool.false_ne_true
      · exact absurd (ha.symm.trans ha') Bool.false_ne_true
  · -- Nobody falls asleep at a stream that has ended, whatever comes after the end.
    have hsettled := (hc hended).1
    refine iff_of_true (.of_settled ?_) fun hopen ↦ ?_
    · obtain ⟨-, -, hstream⟩ | ⟨-, hgoes⟩ := step_cases h
      · rw [hstream code, stream_eof, if_pos (made_of_closed hsettled.closed)]
        exact hsettled.eof
      · exact hsettled.step (hgoes.stream code)
    · exact absurd (hopen.symm.trans hended) Bool.false_ne_true

/-- **When the end of a stream reaches its readers.** For every run of a channel, with any packets
and any reads of any streams: in every state of the run the end that was told has reached the
readers of the code, exactly when the action that told it first found the buffer of the code made
and at most one reader asleep at it. -/
theorem endReaches_throughout_iff {as : List Action} {c : Channel} (code : UInt32)
    (h : Run step newChannel as c) :
    Throughout step (EndReaches code) newChannel as ↔
      RunWhile step (EndsReady code) newChannel as c :=
  h.throughout_iff (J := fun _ ↦ True) (fun _ _ _ _ _ ↦ trivial)
    (fun _ _ _ _ hc hstep ↦ endReaches_step_iff hc hstep) trivial
    fun hended ↦ absurd hended Bool.false_ne_true

/-- The peer sends three bytes of extended data of the code 1 and ends the streams, with a reader of
the code asleep at first. -/
def stderrThenEOF : List Action :=
  [.accept, .read 1 4, .packet msgChannelExtendedData [0, 0, 0, 0, 0, 0, 0, 1, 0, 0, 0, 3, 5, 6, 7]
    (.ok ()), .resume 1 4, .read 1 4, .packet msgChannelEOF [0, 0, 0, 0] (.ok ()), .resume 1 4]

theorem endReaches_stderrThenEOF :
    ∃ c, Run step newChannel stderrThenEOF c ∧ c.ended = true ∧
      Throughout step (EndReaches 1) newChannel stderrThenEOF := by
  obtain ⟨c, hrun, hrun', hended⟩ : ∃ c, Run step newChannel stderrThenEOF c ∧
      RunWhile step (EndsReady 1) newChannel stderrThenEOF c ∧ c.ended = true :=
    ⟨_, run_iff_foldlM.2 rfl, runWhile_iff_foldlM.2 rfl, rfl⟩
  exact ⟨c, hrun, hended, (endReaches_throughout_iff 1 hrun).2 hrun'⟩

/-! ### Readers that nobody wakes -/

/-- Where one buffer keeps those asleep at it, every stream does. -/
theorem mem_asleep_setStream {other : UInt32} {m : ℕ}
    (h : ∀ m ∈ (c.stream code).asleep, m ∈ b.asleep) (hm : m ∈ (c.stream other).asleep) :
    m ∈ ((c.setStream code b).stream other).asleep := by
  rcases eq_or_ne other code with rfl | hne
  · rw [stream_setStream_self]
    exact h m hm
  · rwa [stream_setStream_of_ne c hne]

/-- **After `close` a sleeping reader sleeps for good**: no packet comes to the channel, and the
other readers wake nobody. -/
theorem mem_asleep_of_torn {as : List Action} {m : ℕ} (h : Run step c as c') (hc : c.phase = .torn)
    (hm : m ∈ (c.stream code).asleep) : m ∈ (c'.stream code).asleep := by
  refine (h.invariant (I := fun c ↦ c.phase = .torn ∧ m ∈ (c.stream code).asleep) ?_ ⟨hc, hm⟩).2
  rintro c a c' ⟨hc, hm⟩ - h
  cases a with
  | accept =>
    cases h
    exact ⟨hc, hm⟩
  | packet tag body other =>
    obtain ⟨hopen, -⟩ := Option.ite_none_right_eq_some.1 h
    exact absurd (hc.symm.trans hopen) (by decide)
  | close => exact absurd hc (guarded_eq_some h).1
  | read code' n =>
    cases h
    refine ⟨by simpa [readExtended] using hc, ?_⟩
    rw [readExtended, stream_adjustWindow]
    exact mem_asleep_setStream (fun _ h ↦ Buffer.mem_asleep_read h n) hm
  | resume code' n =>
    obtain ⟨-, rfl⟩ := guarded_eq_some h
    refine ⟨by simpa [resumeExtended] using hc, ?_⟩
    rw [resumeExtended, stream_adjustWindow]
    exact mem_asleep_setStream (fun _ h ↦ Buffer.mem_asleep_read (b := { c.stream code' with
      woken := (c.stream code').woken.erase n }) h n) hm

/-- **The end does not reach every stream.** The peer closes a channel before anyone has read
extended data. The buffer for it is then open, and the first to read it falls asleep and never
returns. -/
theorem exists_reader_asleep_after_end :
    ∃ c, Run step newChannel [.accept, .packet msgChannelClose [0, 0, 0, 0] (.ok ()), .read 1 4] c ∧
      c.ended = true ∧ ¬EndReaches 1 c ∧
        ∀ as c', Run step c as c' → 4 ∈ (c'.stream 1).asleep := by
  refine ⟨_, run_iff_foldlM.2 rfl, rfl, fun h ↦ ?_, fun as c' h ↦ ?_⟩
  · exact absurd (h rfl).1.closed (by decide +kernel)
  · exact mem_asleep_of_torn h rfl (by decide +kernel)

end Channel

end Ssh
