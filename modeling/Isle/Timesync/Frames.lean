import Isle.Forward.Message
import Isle.Go.Bufio
import Mathlib.Data.List.DropRight

/-!
# Keeping a guest's clock

`Host` and `Guest` of `pkg/timesync/host.go`. The host writes a frame every ten seconds: the length
of a time in one byte, the time as `MarshalBinary` makes it, the name of its zone, a newline. The
guest sets its clock from each frame, and the zone from the first.

The time is of a library, so `TimeFormat` has what the two use of it. A frame mixes a part that may
hold any byte with one that ends at a newline; the length in front keeps them apart, and **the guest
cuts the stream where the host did, however it arrives** (`guest_stream`).
-/

namespace Timesync

/-- What is sent over the link. -/
abbrev Bytes := List UInt8

/-- `time.Time`: what is written of one, what is read back, and what the guest makes of it. -/
structure TimeFormat (T : Type*) where
  marshalBinary : T → Bytes
  unmarshalBinary : Bytes → Option T
  /-- `Unix` -/
  unix : T → ℤ
  /-- `Nanosecond` -/
  nanosecond : T → ℕ
  /-- `Zone`: the name, and the seconds east of Greenwich. -/
  zone : T → Bytes × ℤ
  length_pos : ∀ t, 1 ≤ (marshalBinary t).length
  length_le : ∀ t, (marshalBinary t).length ≤ 128
  unmarshal_marshal : ∀ t, unmarshalBinary (marshalBinary t) = some t

/-- What a frame ends with. -/
def newline : UInt8 := 10

/-- What is trimmed from a name. -/
def space : UInt8 := 32

/-- The bytes of a text of ASCII characters. -/
def ascii (s : String) : Bytes := s.toList.map fun c ↦ UInt8.ofNat c.toNat

variable {T : Type*} (F : TimeFormat T)

/-! ### The host -/

/-- A frame, as it is written. -/
def frame (t : T) (tz : Bytes) : Bytes :=
  UInt8.ofNat (F.marshalBinary t).length :: F.marshalBinary t ++ tz ++ [newline]

/-- The frames for some times and zone names, one after the other. -/
def stream (pairs : List (T × Bytes)) : Bytes := pairs.flatMap fun p ↦ frame F p.1 p.2

/-- The zone that `/etc/localtime` links to: what is behind the first `/zoneinfo/`. -/
def linkedZone : Bytes → Bytes
  | [] => []
  | b :: bs =>
    if ascii "/zoneinfo/" <+: b :: bs then (b :: bs).drop 10 else linkedZone bs

/-- The zone names that go with the times: that of the link, or else the first time's that has
one. -/
def withZone (tz : Bytes) : List T → List (T × Bytes)
  | [] => []
  | t :: ts =>
    if tz = [] then (t, (F.zone t).1) :: withZone (F.zone t).1 ts else (t, tz) :: withZone tz ts

/-- `Host`, with the link it finds and the times at which it writes. -/
def host (link : Option Bytes) (ts : List T) : Bytes :=
  stream F (withZone F ((link.map linkedZone).getD []) ts)

/-! ### The guest -/

/-- `buf` -/
def bufLen : ℕ := 128

/-- `toTimeVal`: seconds and microseconds. -/
def toTimeVal (t : T) : ℤ × ℕ := (F.unix t, F.nanosecond t / 1000)

/-- What the guest has done: `setTZ`, and its calls of `Settimeofday` and `setTZFile`. -/
structure Synced where
  setTZ : Bytes
  clock : List (ℤ × ℕ)
  zones : List Bytes
  deriving DecidableEq, Repr

/-- Nothing was set yet. -/
def Synced.none : Synced := ⟨[], [], []⟩

/-- `strings.TrimRight(name, " \n")` -/
def trimRight (name : Bytes) : Bytes := name.rdropWhile fun b ↦ b = space ∨ b = newline

/-- The zone the guest takes from a frame: the name in it, or one made of the offset. -/
def zoneFor (t : T) (name : Bytes) : Bytes :=
  if name ≠ [] then name
  else
    let hours := ((F.zone t).2.tdiv 60).tdiv 60
    if hours = 0 then ascii "GMT"
    else if hours < 0 then ascii ("GMT-" ++ toString (-hours))
    else ascii ("GMT+" ++ toString hours)

/-- A frame with a time and a name was read. -/
def Synced.set (s : Synced) (t : T) (name : Bytes) : Synced where
  setTZ := if s.setTZ = [] then zoneFor F t name else s.setTZ
  clock := s.clock ++ [toTimeVal F t]
  zones := if s.setTZ = [] then s.zones ++ [zoneFor F t name] else s.zones

/-- `Guest`, at the head of its loop. -/
structure State where
  br : BufReader UInt8
  done : Synced

/-- How a turn of the loop ends. -/
inductive Turn
  | next (s : State)
  | returned
  /-- `buf[:l]` is out of range. -/
  | panicked

/-- One turn of the loop. A time that is refused ends it **in front of the zone name**. -/
def turn (s : State) : Turn :=
  match s.br.readByte with
  | none => .returned
  | some (b, br) =>
    if bufLen < b.toNat then .panicked
    else
      match br.readFull b.toNat with
      | none => .returned
      | some (data, br) =>
        match F.unmarshalBinary data with
        | none => .next { s with br := br }
        | some t =>
          match br.readString newline with
          | (_, false, br) => .next { s with br := br }
          | (name, true, br) => .next ⟨br, s.done.set F t (trimRight name)⟩

/-- How the guest ended. -/
inductive Ended
  | returned
  | panicked
  /-- The turns allowed were not enough. -/
  | reading
  deriving DecidableEq, Repr

/-- So many turns of the loop. -/
def loop : ℕ → State → Ended × Synced
  | 0, s => (.reading, s.done)
  | n + 1, s =>
    match turn F s with
    | .next s => loop n s
    | .returned => (.returned, s.done)
    | .panicked => (.panicked, s.done)

/-- The loop from a state on; every turn takes a byte. -/
def run (s : State) : Ended × Synced := loop F (s.br.unread.length + 1) s

/-- `Guest`, on what its connection delivers. -/
def guest (pieces : List (Piece UInt8)) : Ended × Synced := run F ⟨.new pieces, .none⟩

/-! ### A turn of the loop -/

section Turn

variable {F} {s s' : State} {b : UInt8} {data rest : Bytes} {t : T}

theorem turn_of_nil (h : s.br.unread = []) : turn F s = .returned := by
  obtain ⟨-, hread⟩ | ⟨b, r', -, hunread⟩ := s.br.readByte_cases
  · rw [turn, hread]
  · rw [hunread] at h
    cases h

theorem turn_of_long (h : s.br.unread = b :: rest) (hb : bufLen < b.toNat) :
    turn F s = .panicked := by
  obtain ⟨hnil, -⟩ | ⟨b', r', hread, hunread⟩ := s.br.readByte_cases
  · rw [hnil] at h
    cases h
  · obtain ⟨rfl, -⟩ := List.cons_eq_cons.1 (hunread.symm.trans h)
    rw [turn, hread]
    exact if_pos hb

theorem turn_of_short (h : s.br.unread = b :: rest) (hb : b.toNat ≤ bufLen)
    (hrest : rest.length < b.toNat) : turn F s = .returned := by
  obtain ⟨hnil, -⟩ | ⟨b', r', hread, hunread⟩ := s.br.readByte_cases
  · rw [hnil] at h
    cases h
  · obtain ⟨rfl, rfl⟩ := List.cons_eq_cons.1 (hunread.symm.trans h)
    simp only [turn, hread, if_neg (not_lt.2 hb), BufReader.readFull_eq_none hrest]

/-- Up to the time: what the rest of the turn reads. -/
theorem turn_of_data (h : s.br.unread = b :: (data ++ rest)) (hb : b.toNat ≤ bufLen)
    (hdata : data.length = b.toNat) :
    ∃ br, br.unread = rest ∧ turn F s =
      match F.unmarshalBinary data with
      | none => .next { s with br := br }
      | some t =>
        match br.readString newline with
        | (_, false, br) => .next { s with br := br }
        | (name, true, br) => .next ⟨br, s.done.set F t (trimRight name)⟩ := by
  obtain ⟨hnil, -⟩ | ⟨b', r', hread, hunread⟩ := s.br.readByte_cases
  · rw [hnil] at h
    cases h
  · obtain ⟨rfl, hr'⟩ := List.cons_eq_cons.1 (hunread.symm.trans h)
    obtain ⟨br, hfull, hbr⟩ := BufReader.readFull_append hr'
    rw [hdata] at hfull
    refine ⟨br, hbr, ?_⟩
    simp only [turn, hread, if_neg (not_lt.2 hb), hfull]

/-- A time that is refused. -/
theorem turn_of_rejected (h : s.br.unread = b :: (data ++ rest)) (hb : b.toNat ≤ bufLen)
    (hdata : data.length = b.toNat) (ht : F.unmarshalBinary data = none) :
    ∃ br, br.unread = rest ∧ turn F s = .next ⟨br, s.done⟩ := by
  obtain ⟨br, hbr, hturn⟩ := turn_of_data h hb hdata
  rw [ht] at hturn
  exact ⟨br, hbr, hturn⟩

/-- **A frame that is read**: its time and its name are taken, and the next turn starts behind
it. -/
theorem turn_of_accepted {name : Bytes} (h : s.br.unread = b :: (data ++ (name ++ newline :: rest)))
    (hb : b.toNat ≤ bufLen) (hdata : data.length = b.toNat) (ht : F.unmarshalBinary data = some t)
    (hname : newline ∉ name) :
    ∃ br, br.unread = rest ∧
      turn F s = .next ⟨br, s.done.set F t (trimRight (name ++ [newline]))⟩ := by
  obtain ⟨br, hbr, hturn⟩ := turn_of_data h hb hdata
  obtain ⟨br', hread, hbr'⟩ := BufReader.readString_append hname hbr
  rw [ht] at hturn
  simp only [hread] at hturn
  exact ⟨br', hbr', hturn⟩

/-- A time with no newline behind it: the turn ends where the stream does. -/
theorem turn_of_unterminated (h : s.br.unread = b :: (data ++ rest)) (hb : b.toNat ≤ bufLen)
    (hdata : data.length = b.toNat) (ht : F.unmarshalBinary data = some t)
    (hrest : newline ∉ rest) : ∃ br, br.unread = [] ∧ turn F s = .next ⟨br, s.done⟩ := by
  obtain ⟨br, hbr, hturn⟩ := turn_of_data h hb hdata
  have hread := BufReader.readString_of_notMem (r := br) (d := newline) (by rwa [hbr])
  rw [ht] at hturn
  simp only [hread] at hturn
  exact ⟨_, rfl, hturn⟩

/-- **What a turn can do**, by what it finds in front of it. -/
theorem turn_cases (F : TimeFormat T) (s : State) :
    turn F s = .returned ∨
    (∃ b rest, s.br.unread = b :: rest ∧ bufLen < b.toNat ∧ turn F s = .panicked) ∨
    ∃ b data rest, s.br.unread = b :: (data ++ rest) ∧ b.toNat ≤ bufLen ∧ data.length = b.toNat ∧
      ((F.unmarshalBinary data = none ∧
          ∃ br, br.unread = rest ∧ turn F s = .next ⟨br, s.done⟩) ∨
        (∃ t name rest', F.unmarshalBinary data = some t ∧ rest = name ++ newline :: rest' ∧
          newline ∉ name ∧ ∃ br, br.unread = rest' ∧
            turn F s = .next ⟨br, s.done.set F t (trimRight (name ++ [newline]))⟩) ∨
        ∃ t, F.unmarshalBinary data = some t ∧ newline ∉ rest ∧
          ∃ br, br.unread = [] ∧ turn F s = .next ⟨br, s.done⟩) := by
  rcases hunread : s.br.unread with - | ⟨b, bytes⟩
  · exact .inl (turn_of_nil hunread)
  rcases lt_or_ge bufLen b.toNat with hb | hb
  · exact .inr (.inl ⟨b, bytes, rfl, hb, turn_of_long hunread hb⟩)
  rcases lt_or_ge bytes.length b.toNat with hshort | hlong
  · exact .inl (turn_of_short hunread hb hshort)
  refine .inr (.inr ⟨b, bytes.take b.toNat, bytes.drop b.toNat, ?_, hb, ?_, ?_⟩)
  · rw [List.take_append_drop]
  · rw [List.length_take]
    omega
  have hsplit : s.br.unread = b :: (bytes.take b.toNat ++ bytes.drop b.toNat) := by
    rw [List.take_append_drop, hunread]
  have hdata : (bytes.take b.toNat).length = b.toNat := by
    rw [List.length_take]
    omega
  rcases ht : F.unmarshalBinary (bytes.take b.toNat) with - | t
  · exact .inl ⟨rfl, turn_of_rejected hsplit hb hdata ht⟩
  by_cases hnewline : newline ∈ bytes.drop b.toNat
  · obtain ⟨name, rest', hrest, hname⟩ := List.eq_append_cons_of_mem hnewline
    rw [hrest] at hsplit
    exact .inr (.inl ⟨t, name, rest', rfl, hrest, hname,
      turn_of_accepted hsplit hb hdata ht hname⟩)
  · exact .inr (.inr ⟨t, rfl, hnewline, turn_of_unterminated hsplit hb hdata ht hnewline⟩)

/-- Every turn takes at least the byte with the length. -/
theorem length_lt_of_turn (h : turn F s = .next s') :
    s'.br.unread.length < s.br.unread.length := by
  rcases turn_cases F s with hret | ⟨b, rest, -, -, hpanic⟩ | ⟨b, data, rest, hunread, -, -, hcase⟩
  · rw [hret] at h
    cases h
  · rw [hpanic] at h
    cases h
  · rw [hunread, List.length_cons, List.length_append]
    rcases hcase with ⟨-, br, hbr, hturn⟩ | ⟨t, name, rest', -, hrest, -, br, hbr, hturn⟩ |
      ⟨t, -, -, br, hbr, hturn⟩
    · rw [hturn] at h
      cases h
      rw [hbr]
      omega
    · rw [hturn] at h
      cases h
      rw [hbr, hrest, List.length_append, List.length_cons]
      omega
    · rw [hturn] at h
      cases h
      rw [hbr]
      exact Nat.succ_pos _

end Turn

/-! ### The loop -/

section Loop

variable {F} {s s' : State}

/-- Turns beyond those it takes to read everything change nothing. -/
theorem loop_eq_run {n : ℕ} (hn : s.br.unread.length < n) : loop F n s = run F s := by
  have hloop : ∀ (k m n : ℕ) (s : State), s.br.unread.length ≤ k → k < m → k < n →
      loop F m s = loop F n s := by
    intro k
    induction k with
    | zero =>
      intro m n s hk hm hn
      obtain ⟨m, rfl⟩ := Nat.exists_eq_succ_of_ne_zero (Nat.ne_of_gt hm)
      obtain ⟨n, rfl⟩ := Nat.exists_eq_succ_of_ne_zero (Nat.ne_of_gt hn)
      have hnil : s.br.unread = [] := List.length_eq_zero_iff.1 (Nat.le_zero.1 hk)
      rw [loop, loop, turn_of_nil hnil]
    | succ k ih =>
      intro m n s hk hm hn
      obtain ⟨m, rfl⟩ := Nat.exists_eq_succ_of_ne_zero (Nat.ne_of_gt (Nat.zero_lt_of_lt hm))
      obtain ⟨n, rfl⟩ := Nat.exists_eq_succ_of_ne_zero (Nat.ne_of_gt (Nat.zero_lt_of_lt hn))
      rw [loop, loop]
      rcases hturn : turn F s with s' | - | -
      · have hlt := length_lt_of_turn hturn
        exact ih m n s' (by omega) (by omega) (by omega)
      · rfl
      · rfl
  exact hloop s.br.unread.length n _ s le_rfl hn (Nat.lt_succ_self _)

theorem run_of_next (h : turn F s = .next s') : run F s = run F s' := by
  have hlt := length_lt_of_turn h
  rw [run, loop, h]
  exact loop_eq_run hlt

theorem run_of_returned (h : turn F s = .returned) : run F s = (.returned, s.done) := by
  rw [run, loop, h]

theorem run_of_panicked (h : turn F s = .panicked) : run F s = (.panicked, s.done) := by
  rw [run, loop, h]

end Loop

/-! ### The round trip -/

/-- A zone name that a frame carries as it is: no newline in it, no space at its end. -/
structure ZoneName (name : Bytes) : Prop where
  newline : newline ∉ name
  space : name.getLast? ≠ some space

instance (name : Bytes) : Decidable (ZoneName name) :=
  decidable_of_iff (Timesync.newline ∉ name ∧ name.getLast? ≠ some Timesync.space)
    ⟨fun h ↦ ⟨h.1, h.2⟩, fun h ↦ ⟨h.newline, h.space⟩⟩

theorem ZoneName.trimRight {name : Bytes} (h : ZoneName name) :
    trimRight (name ++ [Timesync.newline]) = name := by
  rw [Timesync.trimRight, List.rdropWhile_concat_pos _ _ _ (by decide)]
  refine List.rdropWhile_eq_self_iff.2 fun hne ↦ ?_
  have hlast := List.getLast_mem hne
  have hspace : name.getLast hne ≠ Timesync.space := fun heq ↦
    h.space (by rw [List.getLast?_eq_some_getLast hne, heq])
  have hnewline : name.getLast hne ≠ Timesync.newline := fun heq ↦ h.newline (heq ▸ hlast)
  simpa using ⟨hspace, hnewline⟩

/-- What the guest is to do with some times and zone names: set the clock to each time, and the zone
once, to the first name (or what stands for it if it is empty). -/
def decoded (pairs : List (T × Bytes)) : Synced where
  setTZ := ((pairs.head?).map fun p ↦ zoneFor F p.1 p.2).getD []
  clock := pairs.map fun p ↦ toTimeVal F p.1
  zones := ((pairs.head?).map fun p ↦ zoneFor F p.1 p.2).toList

variable {F}

theorem zoneFor_ne_nil (t : T) (name : Bytes) : zoneFor F t name ≠ [] := by
  have hascii : ∀ c cs, ascii (String.ofList (c :: cs)) ≠ [] := fun c cs h ↦ by
    rw [ascii, String.toList_ofList] at h
    cases h
  have happend : ∀ c cs (s : String), ascii (String.ofList (c :: cs) ++ s) ≠ [] := fun c cs s h ↦ by
    rw [ascii, String.toList_append, String.toList_ofList] at h
    cases h
  simp only [zoneFor]
  split_ifs with hname
  · exact hname
  · exact hascii 'G' ['M', 'T']
  · exact happend 'G' ['M', 'T', '-'] _
  · exact happend 'G' ['M', 'T', '+'] _

/-- One more frame. -/
theorem decoded_concat (pairs : List (T × Bytes)) (p : T × Bytes) :
    decoded F (pairs ++ [p]) = (decoded F pairs).set F p.1 p.2 := by
  rcases pairs with - | ⟨q, pairs⟩
  · rfl
  · have hset : (decoded F (q :: pairs)).setTZ ≠ [] := zoneFor_ne_nil q.1 q.2
    rw [Synced.set, if_neg hset, if_neg hset]
    simp [decoded]

/-- **Frame by frame.** -/
theorem run_stream (before : List (T × Bytes)) {pairs : List (T × Bytes)} {s : State}
    (hpairs : ∀ p ∈ pairs, ZoneName p.2) (hunread : s.br.unread = stream F pairs)
    (hdone : s.done = decoded F before) : run F s = (.returned, decoded F (before ++ pairs)) := by
  induction pairs generalizing before s with
  | nil =>
    rw [run_of_returned (turn_of_nil hunread), hdone, List.append_nil]
  | cons p pairs ih =>
    have hlen := F.length_le p.1
    have hbyte :
        (UInt8.ofNat (F.marshalBinary p.1).length).toNat = (F.marshalBinary p.1).length := by
      rw [UInt8.toNat_ofNat']
      omega
    have hsplit : s.br.unread = UInt8.ofNat (F.marshalBinary p.1).length ::
        (F.marshalBinary p.1 ++ (p.2 ++ newline :: stream F pairs)) := by
      rw [hunread, stream, List.flatMap_cons, frame]
      simp [stream]
    have hname := hpairs p List.mem_cons_self
    obtain ⟨br, hbr, hturn⟩ := turn_of_accepted hsplit (hbyte.trans_le hlen) hbyte.symm
      (F.unmarshal_marshal p.1) hname.newline
    rw [hname.trimRight, hdone, ← decoded_concat] at hturn
    rw [run_of_next hturn,
      ih (before ++ [p]) (fun q hq ↦ hpairs q (List.mem_cons_of_mem p hq)) hbr rfl,
      List.append_assoc, List.singleton_append]

/-! ### A time format -/

/-- A time as version 1 of the binary format has it: seconds since the year 1, nanoseconds, and
minutes east of Greenwich, of which 65535 stands for UTC. -/
structure BinaryTime where
  sec : UInt64
  nsec : UInt32
  offset : UInt16
  deriving DecidableEq, Repr

/-- The version, the seconds, the nanoseconds and the minutes of the zone. -/
def BinaryTime.marshalBinary (t : BinaryTime) : Bytes :=
  1 :: (Forward.toBigEndian 8 t.sec.toNat ++ (Forward.toBigEndian 4 t.nsec.toNat ++
    Forward.toBigEndian 2 t.offset.toNat))

/-- A time from its fifteen bytes. -/
def BinaryTime.unmarshalBinary (data : Bytes) : Option BinaryTime :=
  if data.head? = some 1 ∧ data.length = 15 then
    some ⟨.ofNat (Forward.ofBigEndian ((data.drop 1).take 8)),
      .ofNat (Forward.ofBigEndian ((data.drop 9).take 4)),
      .ofNat (Forward.ofBigEndian (data.drop 13))⟩
  else none

/-- Version 1 of the binary format. -/
def binaryTime : TimeFormat BinaryTime where
  marshalBinary := BinaryTime.marshalBinary
  unmarshalBinary := BinaryTime.unmarshalBinary
  unix t := t.sec.toNat - 62135596800
  nanosecond t := t.nsec.toNat
  zone t :=
    if t.offset = 65535 then (ascii "UTC", 0)
    else ([], 60 * t.offset.toInt16.toInt)
  length_pos t := by
    rw [BinaryTime.marshalBinary, List.length_cons]
    exact Nat.succ_pos _
  length_le t := by
    simp [BinaryTime.marshalBinary, Forward.length_toBigEndian]
  unmarshal_marshal t := by
    have hsec : Forward.ofBigEndian (Forward.toBigEndian 8 t.sec.toNat) = t.sec.toNat :=
      Forward.ofBigEndian_toBigEndian t.sec.toNat_lt
    have hnsec : Forward.ofBigEndian (Forward.toBigEndian 4 t.nsec.toNat) = t.nsec.toNat :=
      Forward.ofBigEndian_toBigEndian t.nsec.toNat_lt
    have hoffset : Forward.ofBigEndian (Forward.toBigEndian 2 t.offset.toNat) = t.offset.toNat :=
      Forward.ofBigEndian_toBigEndian t.offset.toNat_lt
    have hdrop : (Forward.toBigEndian 8 t.sec.toNat).drop 12 = [] :=
      List.drop_eq_nil_of_le (by rw [Forward.length_toBigEndian]; decide)
    simp [BinaryTime.marshalBinary, BinaryTime.unmarshalBinary, Forward.length_toBigEndian,
      List.drop_append, hsec, hnsec, hoffset, hdrop]

/-- **The guest reads what the host wrote**, frame by frame, however the stream is delivered. -/
theorem guest_stream {pairs : List (T × List UInt8)} (hpairs : ∀ p ∈ pairs, ZoneName p.2)
    {pieces : List (Piece UInt8)} (h : BufReader.delivered pieces = stream F pairs) :
    guest F pieces = (.returned, decoded F pairs) :=
  run_stream [] hpairs h rfl

/-- A time with the host's zone and one ten seconds later, byte by byte. -/
theorem guest_stream_two :
    let t : BinaryTime := ⟨63782208000, 250000999, 65056⟩
    let pairs := [(t, ascii "America/Los_Angeles"), ({ t with sec := t.sec + 10 }, ascii "")]
    (∀ p ∈ pairs, ZoneName p.2) ∧
      guest binaryTime ((stream binaryTime pairs).map Piece.one) =
        (.returned, ⟨ascii "America/Los_Angeles", [(1646611200, 250000), (1646611210, 250000)],
          [ascii "America/Los_Angeles"]⟩) := by
  intro t pairs
  have hpairs : ∀ p ∈ pairs, ZoneName p.2 := by decide
  have hdecoded : decoded binaryTime pairs =
      ⟨ascii "America/Los_Angeles", [(1646611200, 250000), (1646611210, 250000)],
        [ascii "America/Los_Angeles"]⟩ := by decide
  exact ⟨hpairs, hdecoded ▸ guest_stream hpairs (BufReader.delivered_map_one _)⟩

theorem map_fst_withZone (tz : Bytes) (ts : List T) :
    (withZone F tz ts).map Prod.fst = ts := by
  induction ts generalizing tz with
  | nil => rfl
  | cons t ts ih =>
    rw [withZone]
    split_ifs
    · rw [List.map_cons, ih]
    · rw [List.map_cons, ih]

/-- The clock follows the host's. -/
theorem guest_host {link : Option Bytes} {ts : List T} {pieces : List (Piece UInt8)}
    (hzone : ∀ p ∈ withZone F ((link.map linkedZone).getD []) ts, ZoneName p.2)
    (h : BufReader.delivered pieces = host F link ts) :
    (guest F pieces).1 = .returned ∧ (guest F pieces).2.clock = ts.map (toTimeVal F) := by
  rw [show guest F pieces = (.returned, decoded F _) from run_stream [] hzone h rfl]
  refine ⟨rfl, ?_⟩
  conv_rhs => rw [← map_fst_withZone (F := F) ((link.map linkedZone).getD []) ts]
  rw [List.map_map]
  rfl

end Timesync
