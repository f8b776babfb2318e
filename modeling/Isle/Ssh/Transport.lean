import Isle.Foundation.Pipe
import Isle.Foundation.Run
import Isle.Ssh.Messages

/-!
# Packets between the two ends of a connection

`connectionState` of `pkg/crypto/ssh/transport.go`, and one direction of a connection: the writer at
one end, the reader at the other and the bytes between them. Either end has its own number of the
packet and its own cipher, and changes to the next cipher when a `newKeys` goes by; the next cipher
is given to it by `prepareKeyChange`, whenever that is called there. So the two ends use
**different** ciphers as long as a `newKeys` is on its way, and may have been given different ones.

`readPacket` of `transport` is a loop around the one of `connectionState`: it throws away packets
that are `msgIgnore` or `msgDebug` and reads on, so its caller never sees them. A label `read` is
one turn of that loop, as the bytes of the next packet may not be there yet.

Whatever the order of the calls at the two ends, no other packet is lost, doubled or damaged
(`delivers`), if a writer has its next cipher when it writes a `newKeys` and a reader when it reads
it. The first is a panic in the source and the second an error.
-/

namespace Ssh

/-- The message that ends a connection. -/
def msgDisconnect : UInt8 := 1

/-- A message that is thrown away. -/
def msgIgnore : UInt8 := 2

/-- A message for people, which is thrown away too. -/
def msgDebug : UInt8 := 4

/-- The message behind which the next cipher is used. -/
def msgNewKeys : UInt8 := 21

/-- How a read ends without a packet. -/
inductive ReadError
  | failure (f : Failure)
  /-- The other end sent a `disconnectMsg`, which is the error. -/
  | disconnect (m : Struct disconnectMsg.fields)

/-- `connectionState`. The channel of the next cipher has room for one. -/
structure ConnectionState where
  packetCipher : PacketCipher
  seqNum : UInt32
  pendingKeyChange : Option PacketCipher

/-- After it an end uses its next cipher. -/
def IsNewKeys (packet : Bytes) : Prop := packet.head? = some msgNewKeys

instance (packet : Bytes) : Decidable (IsNewKeys packet) :=
  inferInstanceAs (Decidable (_ = _))

/-- `readPacket` of `transport` reads on after it. -/
def Skipped (packet : Bytes) : Prop :=
  packet.head? = some msgIgnore ∨ packet.head? = some msgDebug

instance (packet : Bytes) : Decidable (Skipped packet) := inferInstanceAs (Decidable (_ ∨ _))

namespace ConnectionState

/-- As `newTransport` makes it. -/
def new : ConnectionState := ⟨.stream ⟨none, noneCipher, false⟩, 0, none⟩

/-- The change to the next cipher, if there is one. -/
def changeKeys (s : ConnectionState) : Option ConnectionState :=
  s.pendingKeyChange.map fun cipher ↦ { s with packetCipher := cipher, pendingKeyChange := none }

/-- A packet is put on the connection under the current cipher, and after a `newKeys` the next one
is taken. -/
def writePacket (s : ConnectionState) (rand packet : Bytes) :
    Except Failure (Bytes × ConnectionState) :=
  match s.packetCipher.writeCipherPacket s.seqNum rand packet with
  | .error f => .error f
  | .ok (bs, cipher, _) =>
    let s := { s with packetCipher := cipher, seqNum := s.seqNum + 1 }
    if IsNewKeys packet then
      match s.changeKeys with
      | some s => .ok (bs, s)
      -- the packet is sent all the same
      | none => .error .panics
    else .ok (bs, s)

/-- A packet is taken from the connection under the current cipher, and after a `newKeys` the next
one is taken. -/
def readPacket (s : ConnectionState) (bs : Bytes) :
    Except ReadError (Bytes × ConnectionState × Bytes) :=
  match s.packetCipher.readCipherPacket s.seqNum bs with
  | .error f => .error (.failure f)
  | .ok (packet, cipher, rest) =>
    let s := { s with packetCipher := cipher, seqNum := s.seqNum + 1 }
    if packet = [] then .error (.failure (.error "ssh: zero length packet"))
    else if IsNewKeys packet then
      match s.changeKeys with
      | some s => .ok (packet, s, rest)
      | none => .error (.failure (.error "ssh: got bogus newkeys message"))
    else if packet.head? = some msgDisconnect then
      match unmarshal disconnectMsg packet with
      | .error e => .error (.failure (.error e))
      | .ok m => .error (.disconnect m)
    else .ok (packet, s, rest)

variable {s s' : ConnectionState} {rand packet bs rest : Bytes} {cipher : PacketCipher}

/-- A reader that has its next cipher where it needs it. -/
theorem readPacket_of_ok
    (h : s.packetCipher.readCipherPacket s.seqNum bs = .ok (packet, cipher, rest))
    (hne : packet ≠ []) (hdisconnect : packet.head? ≠ some msgDisconnect) :
    s.readPacket bs =
      if IsNewKeys packet then
        match s.pendingKeyChange with
        | some next => .ok (packet, ⟨next, s.seqNum + 1, none⟩, rest)
        | none => .error (.failure (.error "ssh: got bogus newkeys message"))
      else .ok (packet, ⟨cipher, s.seqNum + 1, s.pendingKeyChange⟩, rest) := by
  rw [readPacket, h]
  dsimp only
  rw [if_neg hne, if_neg hdisconnect, changeKeys]
  split_ifs
  · rcases s.pendingKeyChange <;> rfl
  · rfl

/-- A packet that is returned is one the cipher read. -/
theorem exists_of_readPacket (h : s.readPacket bs = .ok (packet, s', rest)) :
    packet ≠ [] ∧ packet.head? ≠ some msgDisconnect ∧
      ∃ cipher, s.packetCipher.readCipherPacket s.seqNum bs = .ok (packet, cipher, rest) := by
  rw [readPacket] at h
  rcases hread : s.packetCipher.readCipherPacket s.seqNum bs with f | ⟨packet', cipher, rest'⟩
  · rw [hread] at h
    cases h
  rw [hread] at h
  dsimp only at h
  split_ifs at h with hnil hnew hdisconnect
  · rcases hchange : changeKeys _ with - | s''
    · rw [hchange] at h
      cases h
    · rw [hchange] at h
      cases h
      refine ⟨hnil, fun hd ↦ ?_, cipher, rfl⟩
      rw [IsNewKeys, hd] at hnew
      exact absurd hnew (by decide)
  · rcases hmsg : unmarshal disconnectMsg packet' with e | m
    · rw [hmsg] at h
      cases h
    · rw [hmsg] at h
      cases h
  · cases h
    exact ⟨hnil, hdisconnect, cipher, rfl⟩

theorem writePacket_of_ok {rand' : Bytes}
    (h : s.packetCipher.writeCipherPacket s.seqNum rand packet = .ok (bs, cipher, rand')) :
    s.writePacket rand packet =
      if IsNewKeys packet then
        match s.pendingKeyChange with
        | some next => .ok (bs, ⟨next, s.seqNum + 1, none⟩)
        | none => .error .panics
      else .ok (bs, ⟨cipher, s.seqNum + 1, s.pendingKeyChange⟩) := by
  rw [writePacket, h]
  dsimp only
  rw [changeKeys]
  split_ifs
  · rcases s.pendingKeyChange <;> rfl
  · rfl

end ConnectionState

/-! ### One direction -/

/-- The two ends of one direction, and what is between them. -/
structure OneWay where
  writer : ConnectionState
  reader : ConnectionState
  wire : Bytes
  /-- How many ciphers `prepareKeyChange` has given to the writer. -/
  writerKeys : ℕ
  readerKeys : ℕ
  sent : List Bytes
  /-- What `readPacket` of the reader's `connectionState` has given. -/
  received : List Bytes
  /-- What the loop around it has returned. -/
  returned : List Bytes
  /-- A write panicked or failed, or a read failed. -/
  failed : Bool

namespace OneWay

/-- As `newTransport` makes it at both ends. -/
def new : OneWay := ⟨.new, .new, [], 0, 0, [], [], [], false⟩

/-- What can happen next. -/
inductive Act
  /-- `prepareKeyChange` at the writer's end. -/
  | prepareWriter (cipher : PacketCipher)
  | prepareReader (cipher : PacketCipher)
  /-- `writePacket`, with the random bytes for the padding. -/
  | write (rand packet : Bytes)
  /-- A turn of the loop of `readPacket`, which waits for bytes. -/
  | read

/-- A packet was written. -/
def put (l : OneWay) (writer : ConnectionState) (wire packet : Bytes) : OneWay :=
  { l with writer := writer, wire := wire, sent := l.sent ++ [packet] }

/-- A turn of the loop that has read a packet. -/
def turn (l : OneWay) (reader : ConnectionState) (wire packet : Bytes) : OneWay :=
  { l with
    reader := reader
    wire := wire
    received := l.received ++ [packet]
    returned := if Skipped packet then l.returned else l.returned ++ [packet] }

/-- One call at one of the ends, or one turn of the loop of `readPacket`. -/
def step (l : OneWay) : Act → Option OneWay
  -- `prepareKeyChange` waits while there is another
  | .prepareWriter cipher =>
    if l.failed = false ∧ l.writer.pendingKeyChange.isNone then
      some { l with
        writer := { l.writer with pendingKeyChange := some cipher }
        writerKeys := l.writerKeys + 1 }
    else none
  | .prepareReader cipher =>
    if l.failed = false ∧ l.reader.pendingKeyChange.isNone then
      some { l with
        reader := { l.reader with pendingKeyChange := some cipher }
        readerKeys := l.readerKeys + 1 }
    else none
  | .write rand packet =>
    if l.failed = false then
      match l.writer.writePacket rand packet with
      | .ok (bs, writer) => some (l.put writer (l.wire ++ bs) packet)
      | .error _ => some { l with failed := true }
    else none
  | .read =>
    if l.failed = false ∧ l.wire ≠ [] then
      match l.reader.readPacket l.wire with
      | .ok (packet, reader, rest) => some (l.turn reader rest packet)
      | .error _ => some { l with failed := true }
    else none

/-- The packet that is read next. -/
def next (l : OneWay) : Option Bytes := l.sent[l.received.length]?

/-- What the callers see to: the two ends are given ciphers that belong together, `keys`; a packet
can be read under the cipher it is written with and is no `disconnectMsg`, there are random bytes
for it, and either end has its next cipher when a `newKeys` goes by. -/
def Proper (keys : ℕ → PacketCipher × PacketCipher) (l : OneWay) : Act → Prop
  | .write rand packet =>
    l.writer.packetCipher.Readable packet ∧
      l.writer.packetCipher.paddingLength packet.length ≤ rand.length ∧
      packet.head? ≠ some msgDisconnect ∧
      (IsNewKeys packet → l.writer.pendingKeyChange.isSome)
  | .read => ∀ packet ∈ l.next, IsNewKeys packet → l.reader.pendingKeyChange.isSome
  | .prepareWriter cipher => cipher = (keys l.writerKeys).1
  | .prepareReader cipher => cipher = (keys l.readerKeys).2

/-! ### What is on the wire -/

/-- Where an end is: its cipher, its number and how many changes of ciphers it has made. -/
structure Place where
  cipher : PacketCipher
  seqNum : UInt32
  changes : ℕ

/-- How often the cipher has changed behind some packets. -/
def changes (packets : List Bytes) : ℕ := packets.countP fun p ↦ IsNewKeys p

/-- Where the writer is. -/
def writerPlace (l : OneWay) : Place := ⟨l.writer.packetCipher, l.writer.seqNum, changes l.sent⟩

/-- Where the reader is. -/
def readerPlace (l : OneWay) : Place := ⟨l.reader.packetCipher, l.reader.seqNum, changes l.received⟩

section Keys

variable (keys : ℕ → PacketCipher × PacketCipher)

/-- A reader to which its next cipher is always given in time. -/
def Reads (r : Place) (bs packet : Bytes) (r' : Place) (rest : Bytes) : Prop :=
  ∃ s, ConnectionState.readPacket ⟨r.cipher, r.seqNum, some (keys r.changes).2⟩ bs =
    .ok (packet, s, rest) ∧
    r' = ⟨s.packetCipher, s.seqNum, r.changes + if IsNewKeys packet then 1 else 0⟩

/-- Two ends that are at the same place. -/
structure Place.Sync (w r : Place) : Prop where
  cipher : w.cipher.Sync r.cipher
  seqNum : w.seqNum = r.seqNum
  changes : w.changes = r.changes

/-- An end that was given so many ciphers and has made so many changes. -/
def Given (cipher : ℕ → PacketCipher) (given changes : ℕ) (pending : Option PacketCipher) : Prop :=
  given = changes ∧ pending = none ∨ given = changes + 1 ∧ pending = some (cipher changes)

/-- What holds in every state of a proper run. -/
structure Inv (l : OneWay) (queue : List Bytes) : Prop where
  failed : l.failed = false
  sent : l.sent = l.received ++ queue
  returned : l.returned = l.received.filter fun packet ↦ ¬ Skipped packet
  flight : InFlight (Reads keys) Place.Sync l.readerPlace queue l.wire l.writerPlace
  writer : Given (fun i ↦ (keys i).1) l.writerKeys (changes l.sent) l.writer.pendingKeyChange
  reader : Given (fun i ↦ (keys i).2) l.readerKeys (changes l.received) l.reader.pendingKeyChange

variable {keys}

theorem changes_append_singleton (packets : List Bytes) (packet : Bytes) :
    changes (packets ++ [packet]) = changes packets + if IsNewKeys packet then 1 else 0 := by
  rw [changes, List.countP_append, List.countP_singleton]
  simp only [decide_eq_true_eq]
  rfl

/-- A packet that is written at a place is read at the same place. -/
theorem exists_reads (hkeys : ∀ i, (keys i).1.Sync (keys i).2) {w r : Place}
    {rand rand' packet bs : Bytes} {cipher : PacketCipher} (hsync : w.Sync r)
    (hp : w.cipher.Readable packet) (hdisconnect : packet.head? ≠ some msgDisconnect)
    (hwrite : w.cipher.writeCipherPacket w.seqNum rand packet = .ok (bs, cipher, rand')) :
    bs ≠ [] ∧ ∃ r', Place.Sync ⟨if IsNewKeys packet then (keys w.changes).1 else cipher,
        w.seqNum + 1, w.changes + if IsNewKeys packet then 1 else 0⟩ r' ∧
      ∀ rest, Reads keys r (bs ++ rest) packet r' rest := by
  obtain ⟨cipher', hsync', hread⟩ := (PacketCipher.read_write hsync.cipher hwrite).1 hp
  have hne : packet ≠ [] := List.ne_nil_of_length_pos hp.1
  rw [hsync.seqNum] at hread
  -- nothing can be read from no bytes, whatever the cipher
  have hbs : bs ≠ [] := by
    rintro rfl
    obtain ⟨f, hf⟩ := r.cipher.read_nil r.seqNum
    have hnil := hread []
    rw [List.append_nil, hf] at hnil
    cases hnil
  refine ⟨hbs, ⟨if IsNewKeys packet then (keys r.changes).2 else cipher', r.seqNum + 1,
    r.changes + if IsNewKeys packet then 1 else 0⟩, ⟨?_, ?_, ?_⟩, fun rest ↦ ?_⟩
  · dsimp only
    rw [hsync.changes]
    split_ifs
    · exact hkeys _
    · exact hsync'
  · exact congrArg (· + 1) hsync.seqNum
  · exact congrArg (· + _) hsync.changes
  · -- the reader has its next cipher at hand, and takes it only at a `newKeys`
    have hpacket := ConnectionState.readPacket_of_ok
      (s := ⟨r.cipher, r.seqNum, some (keys r.changes).2⟩) (hread rest) hne hdisconnect
    dsimp only at hpacket
    by_cases hnew : IsNewKeys packet
    · rw [if_pos hnew] at hpacket
      exact ⟨_, hpacket, by simp only [if_pos hnew]⟩
    · rw [if_neg hnew] at hpacket
      exact ⟨_, hpacket, by simp only [if_neg hnew]⟩

theorem inv_new : Inv keys new [] where
  failed := rfl
  sent := rfl
  returned := rfl
  flight := .nil ⟨rfl, rfl, rfl⟩
  writer := .inl ⟨rfl, rfl⟩
  reader := .inl ⟨rfl, rfl⟩

variable {l : OneWay} {queue : List Bytes}

theorem Given.give {cipher : ℕ → PacketCipher} {given changes : ℕ} {pending : Option PacketCipher}
    (h : Given cipher given changes pending) (hnone : pending.isNone) :
    Given cipher (given + 1) changes (some (cipher given)) := by
  obtain ⟨rfl, -⟩ | ⟨-, rfl⟩ := h
  · exact .inr ⟨rfl, rfl⟩
  · cases hnone

theorem Given.take {cipher : ℕ → PacketCipher} {given changes : ℕ} {pending : Option PacketCipher}
    (h : Given cipher given changes pending) (hsome : pending.isSome) :
    pending = some (cipher changes) ∧ Given cipher given (changes + 1) none := by
  obtain ⟨-, rfl⟩ | ⟨rfl, rfl⟩ := h
  · cases hsome
  · exact ⟨rfl, .inl ⟨rfl, rfl⟩⟩

theorem Inv.prepareWriter (h : Inv keys l queue) (hnone : l.writer.pendingKeyChange.isNone) :
    ∃ writer, step l (.prepareWriter (keys l.writerKeys).1) =
        some { l with writer := writer, writerKeys := l.writerKeys + 1 } ∧
      Inv keys { l with writer := writer, writerKeys := l.writerKeys + 1 } queue :=
  ⟨_, if_pos ⟨h.failed, hnone⟩, h.failed, h.sent, h.returned, h.flight, h.writer.give hnone,
    h.reader⟩

theorem Inv.prepareReader (h : Inv keys l queue) (hnone : l.reader.pendingKeyChange.isNone) :
    ∃ reader, step l (.prepareReader (keys l.readerKeys).2) =
        some { l with reader := reader, readerKeys := l.readerKeys + 1 } ∧
      Inv keys { l with reader := reader, readerKeys := l.readerKeys + 1 } queue :=
  ⟨_, if_pos ⟨h.failed, hnone⟩, h.failed, h.sent, h.returned, h.flight, h.writer,
    h.reader.give hnone⟩

/-- **A write** puts its packet at the end of the queue. -/
theorem Inv.write (hkeys : ∀ i, (keys i).1.Sync (keys i).2) (h : Inv keys l queue)
    {rand packet : Bytes} (hp : Proper keys l (.write rand packet)) :
    ∃ writer wire, step l (.write rand packet) = some (l.put writer wire packet) ∧
      Inv keys (l.put writer wire packet) (queue ++ [packet]) := by
  obtain ⟨hreadable, hrand, hdisconnect, hpending⟩ := hp
  obtain ⟨bs, cipher, rand', hwrite⟩ :=
    PacketCipher.exists_write hreadable l.writer.seqNum hrand
  -- the writer that is left, after a change of ciphers or without one
  set writer : ConnectionState :=
    ⟨if IsNewKeys packet then (keys (changes l.sent)).1 else cipher, l.writer.seqNum + 1,
      if IsNewKeys packet then none else l.writer.pendingKeyChange⟩ with hwriter
  have hpacket : l.writer.writePacket rand packet = .ok (bs, writer) ∧
      Given (fun i ↦ (keys i).1) l.writerKeys (changes (l.sent ++ [packet]))
        writer.pendingKeyChange := by
    rw [ConnectionState.writePacket_of_ok hwrite, changes_append_singleton, hwriter]
    by_cases hnew : IsNewKeys packet
    · obtain ⟨hsome, hgiven⟩ := h.writer.take (hpending hnew)
      simp only [if_pos hnew, hsome]
      exact ⟨trivial, hgiven⟩
    · simp only [if_neg hnew]
      exact ⟨trivial, h.writer⟩
  refine ⟨writer, l.wire ++ bs, ?_, h.failed, ?_, h.returned, ?_, hpacket.2, h.reader⟩
  · rw [step, if_pos h.failed, hpacket.1]
  · rw [put, h.sent, List.append_assoc]
  · have hflight := h.flight.write fun r hr ↦ exists_reads hkeys hr hreadable hdisconnect hwrite
    rw [writerPlace, put, changes_append_singleton]
    exact hflight

/-- **A read** takes the first packet of the queue. -/
theorem Inv.read {packet : Bytes} (h : Inv keys l (packet :: queue))
    (hpending : IsNewKeys packet → l.reader.pendingKeyChange.isSome) :
    ∃ reader wire, step l .read = some (l.turn reader wire packet) ∧
      Inv keys (l.turn reader wire packet) queue := by
  have hwire : l.wire ≠ [] := fun hnil ↦
    List.cons_ne_nil _ _ (h.flight.queue_eq_nil_iff.2 hnil)
  obtain ⟨packet', queue', r', rest, heq, ⟨s, hread, hr'⟩, htail⟩ := h.flight.read hwire
  cases heq
  obtain ⟨hne, hdisconnect, cipher, hcipher⟩ := ConnectionState.exists_of_readPacket hread
  have hcipher' : l.reader.packetCipher.readCipherPacket l.reader.seqNum l.wire =
      .ok (packet, cipher, rest) := hcipher
  set reader : ConnectionState :=
    ⟨if IsNewKeys packet then (keys (changes l.received)).2 else cipher, l.reader.seqNum + 1,
      if IsNewKeys packet then none else l.reader.pendingKeyChange⟩ with hreader
  have hpacket : l.reader.readPacket l.wire = .ok (packet, reader, rest) ∧
      Given (fun i ↦ (keys i).2) l.readerKeys (changes (l.received ++ [packet]))
        reader.pendingKeyChange := by
    rw [ConnectionState.readPacket_of_ok hcipher' hne hdisconnect, changes_append_singleton,
      hreader]
    by_cases hnew : IsNewKeys packet
    · obtain ⟨hsome, hgiven⟩ := h.reader.take (hpending hnew)
      simp only [if_pos hnew, hsome]
      exact ⟨trivial, hgiven⟩
    · simp only [if_neg hnew]
      exact ⟨trivial, h.reader⟩
  -- the reader that had its next cipher is at the same place
  have hplace : r' = ⟨reader.packetCipher, reader.seqNum, changes (l.received ++ [packet])⟩ := by
    rw [hr', changes_append_singleton]
    rw [ConnectionState.readPacket_of_ok hcipher hne hdisconnect] at hread
    by_cases hnew : IsNewKeys packet
    · simp only [if_pos hnew] at hread
      cases hread
      simp only [hreader, if_pos hnew]
      rfl
    · simp only [if_neg hnew] at hread
      cases hread
      simp only [hreader, if_neg hnew]
      rfl
  refine ⟨reader, rest, ?_, h.failed, ?_, ?_, ?_, h.writer, hpacket.2⟩
  · rw [step, if_pos ⟨h.failed, hwire⟩, hpacket.1]
  · rw [turn, h.sent, List.append_assoc]
    rfl
  · rw [turn, List.filter_append, ← h.returned]
    by_cases hskip : Skipped packet <;> simp [hskip]
  · rw [hplace] at htail
    exact htail

theorem Inv.next_eq (h : Inv keys l queue) : l.next = queue.head? := by
  rw [next, h.sent, List.getElem?_append_right (Nat.le_refl _), Nat.sub_self,
    List.head?_eq_getElem?]

/-- Every step of an end keeps it. -/
theorem Inv.step (hkeys : ∀ i, (keys i).1.Sync (keys i).2) (h : Inv keys l queue) {a : Act}
    (hp : Proper keys l a) {l' : OneWay} (hstep : step l a = some l') :
    ∃ queue', Inv keys l' queue' := by
  cases a with
  | prepareWriter cipher =>
    obtain ⟨⟨-, hnone⟩, -⟩ := guarded_eq_some hstep
    obtain rfl : cipher = _ := hp
    obtain ⟨_, ht, hinv⟩ := h.prepareWriter hnone
    cases hstep.symm.trans ht
    exact ⟨_, hinv⟩
  | prepareReader cipher =>
    obtain ⟨⟨-, hnone⟩, -⟩ := guarded_eq_some hstep
    obtain rfl : cipher = _ := hp
    obtain ⟨_, ht, hinv⟩ := h.prepareReader hnone
    cases hstep.symm.trans ht
    exact ⟨_, hinv⟩
  | write rand packet =>
    obtain ⟨_, _, ht, hinv⟩ := h.write hkeys hp
    cases hstep.symm.trans ht
    exact ⟨_, hinv⟩
  | read =>
    have hwire : l.wire ≠ [] := by
      rintro hnil
      rw [OneWay.step, if_neg fun hguard ↦ hguard.2 hnil] at hstep
      cases hstep
    obtain ⟨packet, queue, rfl⟩ := List.exists_cons_of_ne_nil fun hnil ↦
      hwire (h.flight.queue_eq_nil_iff.1 hnil)
    obtain ⟨_, _, ht, hinv⟩ := h.read (hp packet (by rw [h.next_eq]; rfl))
    cases hstep.symm.trans ht
    exact ⟨_, hinv⟩

/-- **No packet is lost, doubled, reordered or damaged, and nothing fails**, whatever the order of
the calls at the two ends and however the changes of ciphers fall between them. Only what is
`msgIgnore` or `msgDebug` is not given to the caller of `readPacket`. -/
theorem delivers (hkeys : ∀ i, (keys i).1.Sync (keys i).2) {as : List Act}
    (h : RunWhile OneWay.step (Proper keys) new as l) :
    l.failed = false ∧ (l.returned <+: l.sent.filter fun packet ↦ ¬ Skipped packet) ∧
      (l.wire = [] → l.returned = l.sent.filter fun packet ↦ ¬ Skipped packet) := by
  obtain ⟨queue, hinv⟩ : ∃ queue, Inv keys l queue :=
    h.invariant (I := fun l ↦ ∃ queue, Inv keys l queue)
      (fun _ _ _ ⟨_, hinv⟩ hp hstep ↦ hinv.step hkeys hp hstep) ⟨[], inv_new⟩
  rw [hinv.sent, List.filter_append, ← hinv.returned]
  refine ⟨hinv.failed, List.prefix_append _ _, fun hwire ↦ ?_⟩
  rw [hinv.flight.queue_eq_nil_iff.2 hwire, List.filter_nil, List.append_nil]

end Keys

/-- A change of ciphers that the reader prepares after the writer has made it. -/
theorem delivers_newKeys :
    let keys : ℕ → PacketCipher × PacketCipher :=
      fun _ ↦ (.stream ⟨none, noneCipher, false⟩, .stream ⟨none, noneCipher, false⟩)
    ∃ as l, RunWhile step (Proper keys) new as l ∧ l.sent = [[msgNewKeys]] ∧
      l.failed = false ∧ (l.returned <+: l.sent.filter fun packet ↦ ¬ Skipped packet) ∧
      (l.wire = [] → l.returned = l.sent.filter fun packet ↦ ¬ Skipped packet) := by
  intro keys
  have hkeys : ∀ i, (keys i).1.Sync (keys i).2 := fun _ ↦ rfl
  let l₁ : OneWay := { new with
    writer := { new.writer with pendingKeyChange := some (keys 0).1 }
    writerKeys := 1 }
  have hstep₁ : step new (.prepareWriter (keys 0).1) = some l₁ := rfl
  have hproper : Proper keys l₁ (.write (List.replicate 10 0) [msgNewKeys]) :=
    ⟨by decide, by decide, by decide, fun _ ↦ rfl⟩
  have hinv₁ : Inv keys l₁ [] :=
    ⟨rfl, rfl, rfl, .nil ⟨rfl, rfl, rfl⟩, .inr ⟨rfl, rfl⟩, .inl ⟨rfl, rfl⟩⟩
  obtain ⟨writer, wire, hstep₂, hinv₂⟩ := hinv₁.write hkeys hproper
  obtain ⟨reader, hstep₃, hinv₃⟩ := hinv₂.prepareReader rfl
  have hgiven : reader.pendingKeyChange.isSome := by
    obtain ⟨h, -⟩ | ⟨-, h⟩ := hinv₃.reader
    · cases h
    · exact congrArg Option.isSome h
  obtain ⟨reader', wire', hstep₄, -⟩ := hinv₃.read fun _ ↦ hgiven
  have hrun : RunWhile step (Proper keys) new [.prepareWriter (keys 0).1,
      .write (List.replicate 10 0) [msgNewKeys], .prepareReader (keys 0).2, .read] _ :=
    .cons rfl hstep₁ (.cons hproper hstep₂ (.cons rfl hstep₃
      (.cons (fun _ _ _ ↦ hgiven) hstep₄ (.nil _))))
  exact ⟨_, _, hrun, rfl, delivers hkeys hrun⟩

end OneWay

end Ssh
