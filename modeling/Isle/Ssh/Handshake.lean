import Isle.Foundation.Dialogue
import Isle.Ssh.Transport

/-!
# Key exchanges on a connection in use

`handshakeTransport` of `pkg/crypto/ssh/handshake.go`: the layer that exchanges keys while packets
go in both directions. Three kinds of goroutines share it: `readLoop`, `kexLoop` and the callers of
`writePacket`. A label of `step` is one thing that one of them does, up to where another can come in
between; the lock and the channels decide which labels are enabled.

The connection below is not part of it. A label says what the connection answers, an error included,
and the step says what is asked of it (`Conn`).

What happens between the two `kexInit` and the end of the exchange, `enterKeyExchange`, is a
sequential process that writes, reads and gives the next ciphers to the connection, a `Dialogue`.
-/

namespace Ssh

/-- The message that begins an exchange. -/
def msgKexInit : UInt8 := 20

/-- What an exchange gives: its hash, and the ciphers that `prepareKeyChange` makes. -/
structure NewKeys where
  h : Bytes
  reader : PacketCipher
  writer : PacketCipher

/-- `enterKeyExchange` -/
abbrev KeyExchange : Type := Dialogue Bytes NewKeys (Except String Unit)

/-- What a transport is given. -/
structure HandshakeConfig where
  /-- The packet that `sendKexInit` makes for each exchange. -/
  kexInit : ℕ → Bytes
  /-- What `enterKeyExchange` does in each exchange, with the number of the session, what was sent
  and what was read. -/
  enterKeyExchange : ℕ → (sessionID : Option Bytes) →
    (sentInitPacket otherInitPacket : Bytes) → KeyExchange
  /-- The bytes that `resetWriteThresholds` allows after so many exchanges. -/
  writeBytes : ℕ → ℤ
  /-- The bytes that `resetReadThresholds` allows. -/
  readBytes : ℕ → ℤ

/-- Where `kexLoop` is. -/
inductive KexLoop
  /-- At the condition of the outer loop. -/
  | check
  /-- At the `select`, without a request of the other side. -/
  | select (sent : Bool)
  /-- In front of `sendKexInit`. -/
  | sendInit (request : Option Bytes)
  /-- Behind the inner loop. -/
  | leave (request : Option Bytes)
  /-- In `enterKeyExchange`. -/
  | exchange (d : KeyExchange)
  /-- With the lock, pushing the packets that waited. -/
  | flush
  | stopped

/-- Where `readLoop` is. -/
inductive ReadLoop
  | reading (first : Bool)
  /-- In front of `t.startKex <- &kex`. -/
  | post (otherInit : Bytes) (firstKex : Bool)
  /-- At `<-kex.done`. -/
  | wait (firstKex : Bool)
  | fail (e : String)
  | stopped

/-- The state that the two loops and the callers share. -/
structure HandshakeTransport where
  writeError : Option String
  /-- `sentInitPacket` and `sentInitMsg`, which are set and cleared together. -/
  sentInit : Option Bytes
  pendingPackets : List Bytes
  /-- There is something in the channel, which has room for one. -/
  requestKex : Bool
  /-- The `otherInit` in the channel, which has room for one. -/
  startKex : Option Bytes
  startKexClosed : Bool
  /-- What `done` of the `pendingKex` holds. -/
  done : Option (Option String)
  readPacketsLeft : ℕ
  readBytesLeft : ℤ
  writePacketsLeft : ℕ
  writeBytesLeft : ℤ
  /-- The hash of the first exchange. -/
  sessionID : Option Bytes
  kexLoop : KexLoop
  readLoop : ReadLoop
  /-- How many exchanges have ended. -/
  exchanges : ℕ
  /-- All that `readLoop` has put into `incoming`, with the packet it waits to put there. -/
  incoming : List Bytes
  /-- How many of these the callers of `readPacket` have taken out. -/
  taken : ℕ
  /-- The packets that `writePacket` took. -/
  accepted : List Bytes

/-- What a step asks of the connection. -/
inductive Conn
  | nothing
  | push (packet : Bytes)
  | read
  | prepareKeyChange (keys : NewKeys)

namespace HandshakeTransport

/-- So many packets at most go by under one key. -/
def packetRekeyThreshold : ℕ := 2 ^ 31

/-- The room that `incoming` has. -/
def chanSize : ℕ := 16

/-- `newHandshakeTransport`, with the two loops started. -/
def new (c : HandshakeConfig) : HandshakeTransport where
  writeError := none
  sentInit := none
  pendingPackets := []
  requestKex := true
  startKex := none
  startKexClosed := false
  done := none
  readPacketsLeft := packetRekeyThreshold
  readBytesLeft := c.readBytes 0
  writePacketsLeft := packetRekeyThreshold
  writeBytesLeft := c.writeBytes 0
  sessionID := none
  kexLoop := .check
  readLoop := .reading true
  exchanges := 0
  incoming := []
  taken := 0
  accepted := []

/-- `kexLoop` has the lock between two of its steps. -/
def locked (t : HandshakeTransport) : Bool :=
  match t.kexLoop with
  | .flush => true
  | _ => false

/-- The first error stays. -/
def recordWriteError (t : HandshakeTransport) (e : String) : HandshakeTransport :=
  { t with writeError := t.writeError.or (some e) }

/-- The counters of `writePacket`, and `requestKeyExchange` when they are used up. -/
def countWrite (t : HandshakeTransport) (length : ℕ) : HandshakeTransport :=
  { t with
    writeBytesLeft := if 0 < t.writeBytesLeft then t.writeBytesLeft - length else t.writeBytesLeft
    writePacketsLeft := t.writePacketsLeft - 1
    requestKex := t.requestKex || !(0 < t.writeBytesLeft && 0 < t.writePacketsLeft) }

/-- The counters of `readOnePacket`. -/
def countRead (t : HandshakeTransport) (length : ℕ) : HandshakeTransport :=
  { t with
    readBytesLeft := if 0 < t.readBytesLeft then t.readBytesLeft - length else t.readBytesLeft
    readPacketsLeft := t.readPacketsLeft - 1
    requestKex := t.requestKex || !(0 < t.readBytesLeft && 0 < t.readPacketsLeft) }

/-- One thing that a goroutine does, with what the connection answers. -/
inductive Act
  | writePacket (packet : Bytes) (err : Option String)
  | readPacket
  /-- `case request, ok = <-t.startKex` -/
  | takeStart
  /-- `case <-t.requestKex` -/
  | takeRequest
  | sendKexInit (err : Option String)
  | leave
  | kexSend (err : Option String)
  | kexReceive (r : Except String Bytes)
  | kexPrepare
  /-- The end of `enterKeyExchange`, and what follows up to `request.done <- t.writeError`. -/
  | finish
  | flush (err : Option String)
  | check
  /-- The goroutine that answers `startKex` after the end. -/
  | drain
  | readOnePacket (r : Except String Bytes)
  | post
  | resume
  /-- What `readLoop` does after an error. -/
  | stop

variable (c : HandshakeConfig) (t : HandshakeTransport)

/-- `writePacket`, which returns an error without a change for the two numbers that are not its
callers', and after an error. -/
def writePacket (packet : Bytes) (err : Option String) : Option (HandshakeTransport × Conn) :=
  match packet with
  | [] => none
  | b :: _ =>
    if b = msgKexInit ∨ b = msgNewKeys then some (t, .nothing)
    else if t.locked then none
    else if t.writeError.isSome then some (t, .nothing)
    else if t.sentInit.isSome then
      some ({ t with
        pendingPackets := t.pendingPackets ++ [packet]
        accepted := t.accepted ++ [packet] }, .nothing)
    else
      some ({ t.countWrite packet.length with
        writeError := err
        accepted := t.accepted ++ [packet] }, .push packet)

/-- `readPacket`, which waits for a packet in `incoming`. -/
def readPacket : Option (HandshakeTransport × Conn) :=
  if t.taken < t.incoming.length then some ({ t with taken := t.taken + 1 }, .nothing)
  else
    match t.readLoop with
    -- `incoming` is closed, and the answer is `readError`
    | .fail _ | .stopped => some (t, .nothing)
    | _ => none

/-- The select of `kexLoop` takes the packet of the other end from `startKex`. It leaves the inner
loop then, if its own packet was sent, and sends it otherwise. -/
def takeStart : Option (HandshakeTransport × Conn) :=
  match t.kexLoop, t.startKex with
  | .select true, some otherInit =>
    some ({ t with startKex := none, kexLoop := .leave (some otherInit) }, .nothing)
  | .select false, some otherInit =>
    some ({ t with startKex := none, kexLoop := .sendInit (some otherInit) }, .nothing)
  | .select _, none =>
    if t.startKexClosed then some ({ t with kexLoop := .stopped }, .nothing) else none
  | _, _ => none

/-- The select takes a request from `requestKex`, which is of no use once the packet was sent. -/
def takeRequest : Option (HandshakeTransport × Conn) :=
  match t.kexLoop, t.requestKex with
  | .select true, true => some ({ t with requestKex := false }, .nothing)
  | .select false, true =>
    some ({ t with requestKex := false, kexLoop := .sendInit none }, .nothing)
  | _, _ => none

/-- What the inner loop does after `sendKexInit` returned no error. -/
def sent (request : Option Bytes) : KexLoop :=
  match request with
  | none => .select true
  | some otherInit => .leave (some otherInit)

/-- `sendKexInit`, which does nothing if the packet was sent before. -/
def sendKexInit (err : Option String) : Option (HandshakeTransport × Conn) :=
  match t.kexLoop with
  | .sendInit request =>
    if t.sentInit.isSome then some ({ t with kexLoop := sent request }, .nothing)
    else
      match err with
      | some e =>
        some ({ t.recordWriteError e with kexLoop := .leave request },
          .push (c.kexInit t.exchanges))
      | none =>
        some ({ t with sentInit := some (c.kexInit t.exchanges), kexLoop := sent request },
          .push (c.kexInit t.exchanges))
  | _ => none

/-- Behind the inner loop: an error ends the loop, and whoever waits for the exchange is told; else
the exchange begins. -/
def leave : Option (HandshakeTransport × Conn) :=
  match t.kexLoop, t.writeError with
  | .leave (some _), some e =>
    some ({ t with done := some (some e), kexLoop := .stopped }, .nothing)
  | .leave none, some _ => some ({ t with kexLoop := .stopped }, .nothing)
  | .leave (some otherInit), none =>
    some ({ t with
      kexLoop := .exchange
        (c.enterKeyExchange t.exchanges t.sessionID (t.sentInit.getD []) otherInit) }, .nothing)
  | _, _ => none

/-- The exchange writes a packet. -/
def kexSend (err : Option String) : Option (HandshakeTransport × Conn) :=
  match t.kexLoop with
  | .exchange (.send packet d) =>
    match err with
    | none => some ({ t with kexLoop := .exchange d }, .push packet)
    | some e => some ({ t with kexLoop := .exchange (.ret (.error e)) }, .push packet)
  | _ => none

/-- The exchange reads a packet. -/
def kexReceive (r : Except String Bytes) : Option (HandshakeTransport × Conn) :=
  match t.kexLoop with
  | .exchange (.recv d) =>
    match r with
    | .ok packet => some ({ t with kexLoop := .exchange (d packet) }, .read)
    | .error e => some ({ t with kexLoop := .exchange (.ret (.error e)) }, .read)
  | _ => none

/-- The exchange has its keys. The hash of the first one is the number of the session. -/
def kexPrepare : Option (HandshakeTransport × Conn) :=
  match t.kexLoop with
  | .exchange (.act keys d) =>
    some ({ t with sessionID := t.sessionID.or (some keys.h), kexLoop := .exchange d },
      .prepareKeyChange keys)
  | _ => none

/-- The exchange is over, with an error or without. Its packet is forgotten, so that the next one
can begin, and the end that waits in `readOnePacket` is told. -/
def finish : Option (HandshakeTransport × Conn) :=
  match t.kexLoop with
  | .exchange (.ret r) =>
    let err := match r with
      | .ok _ => none
      | .error e => some e
    some ({ t with
      writeError := err
      sentInit := none
      writePacketsLeft := packetRekeyThreshold
      writeBytesLeft := c.writeBytes (t.exchanges + 1)
      requestKex := false
      done := some err
      kexLoop := .flush
      exchanges := t.exchanges + 1 }, .nothing)
  | _ => none

/-- The packets that were held back during the exchange are written. -/
def flush (err : Option String) : Option (HandshakeTransport × Conn) :=
  match t.kexLoop, t.pendingPackets, err with
  | .flush, [], _ => some ({ t with kexLoop := .check }, .nothing)
  -- an earlier error is lost here
  | .flush, packet :: packets, none =>
    some ({ t with writeError := none, pendingPackets := packets }, .push packet)
  | .flush, packet :: _, some e =>
    some ({ t with writeError := some e, pendingPackets := [], kexLoop := .check }, .push packet)
  | _, _, _ => none

/-- An error ends the loop, and otherwise it begins anew. -/
def check : Option (HandshakeTransport × Conn) :=
  match t.kexLoop with
  | .check =>
    if t.writeError.isSome then some ({ t with kexLoop := .stopped }, .nothing)
    else some ({ t with kexLoop := .select false }, .nothing)
  | _ => none

/-- A loop that has ended still answers those who ask for an exchange, with its error. -/
def drain : Option (HandshakeTransport × Conn) :=
  match t.kexLoop, t.startKex with
  | .stopped, some _ => some ({ t with startKex := none, done := some t.writeError }, .nothing)
  | _, _ => none

/-- What `readOnePacket` and the loop around it make of a packet. -/
def received (first : Bool) (packet : Bytes) : HandshakeTransport :=
  let t := t.countRead packet.length
  if packet.head? ≠ some msgKexInit then
    if first then { t with readLoop := .fail "ssh: first packet should be msgKexInit" }
    else if packet.head? = some msgIgnore ∨ packet.head? = some msgDebug then
      { t with readLoop := .reading false }
    else { t with readLoop := .reading false, incoming := t.incoming ++ [packet] }
  else { t with readLoop := .post packet t.sessionID.isNone }

/-- `readOnePacket`, unless `readLoop` is still at `t.incoming <- p` because the channel is full. -/
def readOnePacket (r : Except String Bytes) : Option (HandshakeTransport × Conn) :=
  if t.taken + chanSize < t.incoming.length then none
  else
    match t.readLoop, r with
    | .reading first, .ok packet => some (t.received first packet, .read)
    | .reading _, .error e => some ({ t with readLoop := .fail e }, .read)
    | _, _ => none

/-- `readLoop` hands the packet of the other end to `kexLoop`, if the channel is free. -/
def post : Option (HandshakeTransport × Conn) :=
  match t.readLoop, t.startKex with
  | .post otherInit firstKex, none =>
    some ({ t with startKex := some otherInit, readLoop := .wait firstKex }, .nothing)
  | _, _ => none

/-- What `readOnePacket` does after the exchange, and the loop with the packet it returns. -/
def resume : Option (HandshakeTransport × Conn) :=
  match t.readLoop, t.done with
  | .wait _, some (some e) => some ({ t with done := none, readLoop := .fail e }, .nothing)
  | .wait firstKex, some none =>
    some ({ t with
      done := none
      readPacketsLeft := packetRekeyThreshold
      readBytesLeft := c.readBytes t.exchanges
      incoming := t.incoming ++ if firstKex then [[msgNewKeys]] else []
      readLoop := .reading false }, .nothing)
  | _, _ => none

/-- `readLoop` ends: its error is recorded and `startKex` is closed, for which it takes the lock. -/
def stop : Option (HandshakeTransport × Conn) :=
  match t.readLoop with
  | .fail e =>
    if t.locked then none
    else some ({ t.recordWriteError e with startKexClosed := true, readLoop := .stopped }, .nothing)
  | _ => none

/-- One step of a loop or a caller, and what it asks of the connection. -/
def step : Act → Option (HandshakeTransport × Conn)
  | .writePacket packet err => t.writePacket packet err
  | .readPacket => t.readPacket
  | .takeStart => t.takeStart
  | .takeRequest => t.takeRequest
  | .sendKexInit err => t.sendKexInit c err
  | .leave => t.leave c
  | .kexSend err => t.kexSend err
  | .kexReceive r => t.kexReceive r
  | .kexPrepare => t.kexPrepare
  | .finish => t.finish c
  | .flush err => t.flush err
  | .check => t.check
  | .drain => t.drain
  | .readOnePacket r => t.readOnePacket r
  | .post => t.post
  | .resume => t.resume c
  | .stop => t.stop

end HandshakeTransport

end Ssh
