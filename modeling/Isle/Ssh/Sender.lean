import Isle.Ssh.Channel

/-!
# The sending half of an SSH channel

`channel.WriteExtended` of `pkg/crypto/ssh/channel.go` and the `window` of `common.go`. A call cuts
its data into packets: it takes as much as the peer's packets may hold, reserves window for it,
which may give less, and sends that. Calls with different codes run side by side; of one code there
is one call at a time, since they share a packet buffer.

The buffer is used again for every packet of a code, and what an earlier packet left in it is never
sent (`take_fill`). How much a packet is to hold is computed in 32 bits, **the length of the data
left included** (`min32`), so a call never takes more than that remainder (`Ok.reserve`).
-/

open Function (update update_self update_of_ne update_eq_self)

namespace Ssh

open Forward (toBigEndian ofBigEndian length_toBigEndian)

/-! ### The window -/

/-- `window.add`; `none` is the overflow it reports. -/
def addWindow (w win : ℕ) : Option ℕ :=
  if win = 0 then some w
  else if (w + win) % 2 ^ 32 < win then none
  else some ((w + win) % 2 ^ 32)

/-- `window.reserve`: what is reserved, and the window without it; `none` while it waits. -/
def reserveWindow (w win : ℕ) : Option (ℕ × ℕ) :=
  if w = 0 then none
  else
    let win := if w < win then w else win
    some (win, w - win)

theorem addWindow_of_lt {w win : ℕ} (h : w + win < 2 ^ 32) : addWindow w win = some (w + win) := by
  rw [addWindow, Nat.mod_eq_of_lt h]
  split_ifs with hzero hover
  · rw [hzero, Nat.add_zero]
  · omega
  · rfl

/-! ### Packets -/

/-- `minPacketLength` -/
def minPacketLength : ℕ := 9

/-- The check of a peer's `MaxPacketSize`, without which no channel is opened. -/
def ValidMaxPacketSize (n : ℕ) : Prop := minPacketLength ≤ n ∧ n ≤ 2 ^ 31

/-- `min(a uint32, b int)`, which cuts `b` down to 32 bits first. -/
def min32 (a b : ℕ) : ℕ := if a < b % 2 ^ 32 then a else b % 2 ^ 32

/-- The message for data of a code: zero is the ordinary data. -/
def opCode (code : UInt32) : UInt8 := if code = 0 then msgChannelData else msgChannelExtendedData

/-- How many bytes are in front of the data. -/
def headerLength (code : UInt32) : ℕ := if code = 0 then 9 else 13

/-- `copy(buf[i:], bs)` -/
def put (buf : Bytes) (i : ℕ) (bs : Bytes) : Bytes :=
  buf.take i ++ bs.take (buf.length - i) ++ buf.drop (i + bs.length)

/-- The buffer for a packet of the given length: the one at hand or, if it is too short, a new
one. -/
def roomFor (packet : Bytes) (want : ℕ) : Bytes :=
  if packet.length % 2 ^ 32 < want then List.replicate want 0 else packet

/-- A packet is written into its buffer. -/
def fill (packet : Bytes) (remoteId code : UInt32) (todo : Bytes) : Bytes :=
  let packet := put packet 0 [opCode code]
  let packet := put packet 1 (toBigEndian 4 remoteId.toNat)
  let packet := if code = 0 then packet else put packet 5 (toBigEndian 4 code.toNat)
  let packet := put packet (headerLength code - 4) (toBigEndian 4 todo.length)
  put packet (headerLength code) todo

/-- The packet with some data of a code. -/
def dataPacket (remoteId code : UInt32) (todo : Bytes) : Bytes :=
  opCode code :: (toBigEndian 4 remoteId.toNat ++
    ((if code = 0 then [] else toBigEndian 4 code.toNat) ++ (toBigEndian 4 todo.length ++ todo)))

/-- A buffer of a given length that starts with some bytes. -/
def StartsWith (n : ℕ) (pre buf : Bytes) : Prop := pre <+: buf ∧ buf.length = n

/-- It starts with more when these are put behind them. -/
theorem StartsWith.put {buf pre : Bytes} {n : ℕ} (h : StartsWith n pre buf) (i : ℕ) (bs : Bytes)
    (hi : pre.length = i) (hbs : i + bs.length ≤ n) : StartsWith n (pre ++ bs) (put buf i bs) := by
  obtain ⟨hpre, rfl⟩ := h
  have htake : buf.take i = pre := hi ▸ (List.prefix_iff_eq_take.1 hpre).symm
  constructor
  · rw [Ssh.put, htake, List.take_of_length_le (by omega)]
    exact List.prefix_append _ _
  · simp only [Ssh.put, List.length_append, List.length_take, List.length_drop]
    omega

theorem le_length_roomFor (packet : Bytes) (want : ℕ) :
    want ≤ (roomFor packet want).length := by
  unfold roomFor
  split_ifs with h
  · rw [List.length_replicate]
  · exact (Nat.not_lt.1 h).trans (Nat.mod_le _ _)

theorem length_dataPacket (remoteId code : UInt32) (todo : Bytes) :
    (dataPacket remoteId code todo).length = headerLength code + todo.length := by
  by_cases hcode : code = 0
  · simp [dataPacket, headerLength, length_toBigEndian, hcode]
    omega
  · simp [dataPacket, headerLength, length_toBigEndian, hcode]
    omega

/-- **Nothing of an earlier packet is left in a packet.** -/
theorem take_fill {packet todo : Bytes} (remoteId : UInt32) {code : UInt32}
    (h : headerLength code + todo.length ≤ packet.length) :
    (fill packet remoteId code todo).take (headerLength code + todo.length) =
      dataPacket remoteId code todo := by
  suffices hpre : dataPacket remoteId code todo <+: fill packet remoteId code todo by
    rw [← length_dataPacket remoteId]
    exact (List.prefix_iff_eq_take.1 hpre).symm
  have hid := length_toBigEndian 4 remoteId.toNat
  have hext := length_toBigEndian 4 code.toNat
  have hlen := length_toBigEndian 4 todo.length
  have hstart : StartsWith packet.length [] packet := ⟨List.nil_prefix, rfl⟩
  by_cases hcode : code = 0
  · rw [headerLength, if_pos hcode] at h
    have hop := hstart.put 0 [opCode code] rfl (by rw [List.length_singleton]; omega)
    have hhead := (hop.put 1 (toBigEndian 4 remoteId.toNat) rfl (by omega)).put 5
      (toBigEndian 4 todo.length) (by simp [hid]) (by omega)
    have hfill := hhead.put 9 todo (by simp [hid, hlen]) h
    simpa [fill, dataPacket, headerLength, hcode] using hfill.1
  · rw [headerLength, if_neg hcode] at h
    have hop := hstart.put 0 [opCode code] rfl (by rw [List.length_singleton]; omega)
    have hcodes := (hop.put 1 (toBigEndian 4 remoteId.toNat) rfl (by omega)).put 5
      (toBigEndian 4 code.toNat) (by simp [hid]) (by omega)
    have hhead := hcodes.put 9 (toBigEndian 4 todo.length) (by simp [hid, hext]) (by omega)
    have hfill := hhead.put 13 todo (by simp [hid, hext, hlen]) h
    simpa [fill, dataPacket, headerLength, hcode] using hfill.1

/-! ### Calls of `WriteExtended` -/

/-- A call that has data left to send. -/
structure Call where
  /-- `data` -/
  left : Bytes
  /-- What it has reserved for its next packet. -/
  space : Option ℕ
  /-- The buffer for its packets. -/
  packet : Bytes

/-- The sending half of a channel. -/
structure Sender where
  remoteId : UInt32
  maxRemotePayload : ℕ
  remoteWin : ℕ
  packetPool : UInt32 → Bytes
  /-- The calls in progress, by code. -/
  calls : UInt32 → Option Call

namespace Sender

variable {s s' : Sender} {code : UInt32}

/-- A call begins, unless one with the code is in progress. It is over at once if there is nothing
to send. -/
def begin (s : Sender) (code : UInt32) (data : Bytes) : Option Sender :=
  if (s.calls code).isSome then none
  else if data = [] then some s
  else
    some { s with calls := update s.calls code (some ⟨data, none, s.packetPool code⟩) }

/-- The call with the code reserves window for its next packet. -/
def reserve (s : Sender) (code : UInt32) : Option Sender :=
  match s.calls code with
  | some ⟨left, none, packet⟩ =>
    (reserveWindow s.remoteWin (min32 s.maxRemotePayload left.length)).map fun (space, win) ↦
      { s with
        remoteWin := win
        calls := update s.calls code (some ⟨left, some space, packet⟩) }
  | _ => none

/-- The call with the code sends the packet it has reserved window for, and goes on with what is
left. -/
def send (s : Sender) (code : UInt32) : Option (Bytes × Sender) :=
  match s.calls code with
  | some ⟨left, some space, packet⟩ =>
    let want := (headerLength code + space) % 2 ^ 32
    let packet := fill (roomFor packet want) s.remoteId code (left.take space)
    if left.drop space = [] then
      some (packet.take want, { s with
        packetPool := update s.packetPool code packet
        calls := update s.calls code none })
    else
      some (packet.take want, { s with
        calls := update s.calls code (some ⟨left.drop space, none, packet⟩) })
  | _ => none

/-- The data that the call with the code has left. -/
def unsent (s : Sender) (code : UInt32) : Bytes := ((s.calls code).map Call.left).getD []

/-- The window that the call with the code has reserved. -/
def reserved (s : Sender) (code : UInt32) : ℕ := ((s.calls code).bind Call.space).getD 0

/-- What holds of a call in progress. -/
structure CallOk (maxPayload : ℕ) (c : Call) : Prop where
  left_ne : c.left ≠ []
  space_le : ∀ k, c.space = some k → k ≤ maxPayload ∧ k ≤ c.left.length % 2 ^ 32
  /-- A packet is empty only where the remainder of the data's length is 0. -/
  space_pos : ∀ k, c.space = some k → k = 0 → c.left.length % 2 ^ 32 = 0

/-- What holds of the sender. -/
structure Ok (s : Sender) : Prop where
  maxRemotePayload : ValidMaxPacketSize s.maxRemotePayload
  calls : ∀ code c, s.calls code = some c → CallOk s.maxRemotePayload c

/-- The call with the code now has so much left and so much reserved, and all else about the calls
is the same. -/
structure Moved (s s' : Sender) (code : UInt32) (left : Bytes) (k : ℕ) : Prop where
  ok : s'.Ok
  remoteId : s'.remoteId = s.remoteId
  maxRemotePayload : s'.maxRemotePayload = s.maxRemotePayload
  unsent : s'.unsent = update s.unsent code left
  reserved : s'.reserved = update s.reserved code k

/-- A call goes on, with what it has left and has reserved. -/
theorem Ok.moved (hs : s.Ok) {c : Option Call} (hc : ∀ c' ∈ c, CallOk s.maxRemotePayload c')
    (hid : s'.remoteId = s.remoteId) (hmax : s'.maxRemotePayload = s.maxRemotePayload)
    (hcalls : s'.calls = update s.calls code c) :
    Moved s s' code ((c.map Call.left).getD []) ((c.bind Call.space).getD 0) where
  ok := by
    refine ⟨hmax ▸ hs.maxRemotePayload, fun code' c' hc' ↦ ?_⟩
    rw [hmax]
    rw [hcalls] at hc'
    rcases eq_or_ne code' code with rfl | hne
    · rw [update_self] at hc'
      exact hc c' hc'
    · rw [update_of_ne hne] at hc'
      exact hs.calls code' c' hc'
  remoteId := hid
  maxRemotePayload := hmax
  unsent := by
    have hcomp := Function.comp_update (fun c : Option Call ↦ (c.map Call.left).getD []) s.calls
      code c
    rw [← hcalls] at hcomp
    exact hcomp
  reserved := by
    have hcomp := Function.comp_update (fun c : Option Call ↦ (c.bind Call.space).getD 0) s.calls
      code c
    rw [← hcalls] at hcomp
    exact hcomp

/-- A call begins when the one before it has ended. -/
theorem Ok.begin {data : Bytes} (hs : s.Ok) (h : s.begin code data = some s') :
    Moved s s' code data 0 ∧ s'.remoteWin = s.remoteWin ∧ s.unsent code = [] ∧
      s.reserved code = 0 := by
  obtain ⟨hcalls, h⟩ := Option.ite_none_left_eq_some.1 h
  rw [Option.not_isSome_iff_eq_none] at hcalls
  have hunsent : s.unsent code = [] := by rw [unsent, hcalls]; rfl
  have hreserved : s.reserved code = 0 := by rw [reserved, hcalls]; rfl
  split_ifs at h with hdata
  · cases h
    refine ⟨⟨hs, rfl, rfl, ?_, ?_⟩, rfl, hunsent, hreserved⟩
    · rw [hdata, ← hunsent, update_eq_self]
    · rw [← hreserved, update_eq_self]
  · cases h
    refine ⟨hs.moved (c := some ⟨data, none, s.packetPool code⟩) ?_ rfl rfl rfl, rfl, hunsent,
      hreserved⟩
    rintro c' ⟨⟩
    exact ⟨hdata, fun _ hk ↦ absurd hk.symm (Option.some_ne_none _),
      fun _ hk ↦ absurd hk.symm (Option.some_ne_none _)⟩

theorem min32_le (a b : ℕ) : min32 a b ≤ a ∧ min32 a b ≤ b % 2 ^ 32 := by
  unfold min32
  split_ifs <;> omega

theorem min32_eq_zero {a b : ℕ} (ha : 0 < a) (h : min32 a b = 0) : b % 2 ^ 32 = 0 := by
  unfold min32 at h
  split_ifs at h <;> omega

/-- A reservation takes window, and no more than the remainder of the data's length. -/
theorem Ok.reserve (hs : s.Ok) (h : s.reserve code = some s') :
    ∃ k, k ≤ s.remoteWin ∧ s'.remoteWin = s.remoteWin - k ∧ s.reserved code = 0 ∧
      (k = 0 → (s.unsent code).length % 2 ^ 32 = 0) ∧ Moved s s' code (s.unsent code) k := by
  rcases hcalls : s.calls code with - | ⟨left, - | space, packet⟩
  · simp [Sender.reserve, hcalls] at h
  · have hunsent : s.unsent code = left := by rw [unsent, hcalls]; rfl
    have hreserved : s.reserved code = 0 := by rw [reserved, hcalls]; rfl
    rw [Sender.reserve, hcalls] at h
    obtain ⟨⟨k, win⟩, hwin, rfl⟩ := Option.map_eq_some_iff.1 h
    obtain ⟨hzero, hwin⟩ := Option.ite_none_left_eq_some.1 hwin
    obtain ⟨hk, rfl⟩ := Prod.mk.inj (Option.some.inj hwin)
    have hmin := min32_le s.maxRemotePayload left.length
    have hle : k ≤ s.remoteWin ∧ k ≤ min32 s.maxRemotePayload left.length := by
      split_ifs at hk <;> omega
    have hzero : k = 0 → left.length % 2 ^ 32 = 0 := by
      rintro rfl
      have hpos : 0 < s.maxRemotePayload := lt_of_lt_of_le (by decide) hs.maxRemotePayload.1
      refine min32_eq_zero hpos ?_
      split_ifs at hk <;> omega
    rw [hk, hunsent]
    refine ⟨k, hle.1, rfl, hreserved, hzero,
      hs.moved (c := some ⟨left, some k, packet⟩) ?_ rfl rfl rfl⟩
    rintro c' ⟨⟩
    refine ⟨(hs.calls code _ hcalls).left_ne, ?_, ?_⟩
    · rintro _ ⟨⟩
      exact ⟨hle.2.trans hmin.1, hle.2.trans hmin.2⟩
    · rintro _ ⟨⟩
      exact hzero
  · simp [Sender.reserve, hcalls] at h

/-- A packet holds what was reserved for it, from the front of what is left. -/
theorem Ok.send {p : Bytes} (hs : s.Ok) (h : s.send code = some (p, s')) :
    s.reserved code ≤ s.maxRemotePayload ∧ s.reserved code ≤ (s.unsent code).length % 2 ^ 32 ∧
      p = dataPacket s.remoteId code ((s.unsent code).take (s.reserved code)) ∧
      s'.remoteWin = s.remoteWin ∧
      Moved s s' code ((s.unsent code).drop (s.reserved code)) 0 := by
  rcases hcalls : s.calls code with - | ⟨left, - | k, packet⟩
  · simp [Sender.send, hcalls] at h
  · simp [Sender.send, hcalls] at h
  · have hunsent : s.unsent code = left := by rw [unsent, hcalls]; rfl
    have hreserved : s.reserved code = k := by rw [reserved, hcalls]; rfl
    obtain ⟨hmax, hleft⟩ := (hs.calls code _ hcalls).space_le k rfl
    have htodo : (left.take k).length = k := by
      rw [List.length_take]
      exact Nat.min_eq_left (hleft.trans (Nat.mod_le _ _))
    have hwant : (headerLength code + k) % 2 ^ 32 = headerLength code + (left.take k).length := by
      have hvalid := hs.maxRemotePayload.2
      rw [htodo, headerLength]
      split_ifs <;> omega
    have hpacket := take_fill s.remoteId (le_length_roomFor packet
      (headerLength code + (left.take k).length))
    rw [← hwant] at hpacket
    rw [Sender.send, hcalls] at h
    rw [hunsent, hreserved]
    refine ⟨hmax, hleft, ?_⟩
    dsimp only at h
    split_ifs at h with hnil
    · cases h
      refine ⟨hpacket, rfl, ?_⟩
      rw [hnil]
      exact hs.moved (c := none) (fun _ hc ↦ absurd hc.symm (Option.some_ne_none _)) rfl rfl rfl
    · cases h
      refine ⟨hpacket, rfl, hs.moved (c := some ⟨left.drop k, none, _⟩) ?_ rfl rfl rfl⟩
      rintro c' ⟨⟩
      exact ⟨hnil, fun _ hk ↦ absurd hk.symm (Option.some_ne_none _),
        fun _ hk ↦ absurd hk.symm (Option.some_ne_none _)⟩

/-- A call that has reserved nothing goes on once there is window. -/
theorem exists_reserve {c : Call} (hc : s.calls code = some c) (hspace : c.space = none)
    (hwin : s.remoteWin ≠ 0) : ∃ s', s.reserve code = some s' := by
  obtain ⟨left, space, packet⟩ := c
  obtain rfl : space = none := hspace
  simp only [reserve, hc, reserveWindow, if_neg hwin]
  exact ⟨_, rfl⟩

/-- A call that has reserved window goes on. -/
theorem exists_send {c : Call} {k : ℕ} (hc : s.calls code = some c) (hspace : c.space = some k) :
    ∃ p s', s.send code = some (p, s') := by
  obtain ⟨left, space, packet⟩ := c
  obtain rfl : space = some k := hspace
  rw [send, hc]
  dsimp only
  split_ifs
  · exact ⟨_, _, rfl⟩
  · exact ⟨_, _, rfl⟩

end Sender

/-! ### What the receiver makes of a packet -/

/-- The code in a packet with data. -/
def packetCode (p : Bytes) : UInt32 := Channel.extended (p.headD 0) p

/-- The data in a packet. -/
def payload (p : Bytes) : Bytes := p.drop (Channel.headerLen (p.headD 0))

section Packet

variable (remoteId code : UInt32) (todo : Bytes)

theorem headerLen_opCode : Channel.headerLen (opCode code) = headerLength code := by
  unfold opCode headerLength
  split_ifs
  · rfl
  · rfl

@[simp] theorem packetCode_dataPacket : packetCode (dataPacket remoteId code todo) = code := by
  have hid := length_toBigEndian 4 remoteId.toNat
  have hext := length_toBigEndian 4 code.toNat
  have hof : ofBigEndian (toBigEndian 4 code.toNat) = code.toNat :=
    Forward.ofBigEndian_toBigEndian code.toNat_lt
  by_cases hcode : code = 0
  · subst hcode
    rfl
  · simp [packetCode, dataPacket, Channel.extended, opCode, hcode, hid, hext, hof]

@[simp] theorem payload_dataPacket : payload (dataPacket remoteId code todo) = todo := by
  have hlen := length_dataPacket remoteId code todo
  have hsplit : ∃ header, dataPacket remoteId code todo = header ++ todo := by
    refine ⟨opCode code :: (toBigEndian 4 remoteId.toNat ++
      ((if code = 0 then [] else toBigEndian 4 code.toNat) ++ toBigEndian 4 todo.length)), ?_⟩
    simp [dataPacket]
  obtain ⟨header, hheader⟩ := hsplit
  have hheaderLen : header.length = headerLength code := by
    rw [hheader, List.length_append] at hlen
    omega
  rw [payload, show (dataPacket remoteId code todo).headD 0 = opCode code from rfl,
    headerLen_opCode, hheader, ← hheaderLen, List.drop_left]

theorem length_dataPacket_eq (h : todo.length < 2 ^ 32) :
    Channel.length (opCode code) (dataPacket remoteId code todo) = todo.length := by
  have hid := length_toBigEndian 4 remoteId.toNat
  have hext := length_toBigEndian 4 code.toNat
  have hlen := length_toBigEndian 4 todo.length
  have hof : ofBigEndian (toBigEndian 4 todo.length) = todo.length :=
    Forward.ofBigEndian_toBigEndian h
  rw [Channel.length, headerLen_opCode]
  by_cases hcode : code = 0
  · simp [dataPacket, headerLength, hcode, hid, hlen, hof]
  · have hdrop : (toBigEndian 4 remoteId.toNat).drop 8 = [] :=
      List.drop_eq_nil_of_le (by rw [hid]; decide)
    simp [dataPacket, headerLength, hcode, List.drop_append, hid, hext, hlen, hof, hdrop]

end Packet

end Ssh
