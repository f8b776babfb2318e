import Isle.Foundation.PrefixCode
import Isle.Timesync.Frames

/-!
# What bad frames do to the guest

A stream that no host wrote. Two things go wrong in the guest's loop, and nothing else does.

* A length over 128 is used as it is to slice a buffer of 128 bytes, and the guest panics.
* After a time that is refused the loop goes on **in front of** the frame's zone name, and takes its
  first byte for a length.

What one turn takes off the stream is a word of a prefix code (`taken`). So the guest panics exactly
if a stream of such words is followed by a byte over 128, and it finds the frames of a stream
exactly if each of them but the last is, byte by byte, a stream of such words (`robust_iff`).
A frame with a refused time hardly ever is: see `not_passes`.
-/

open Computability Relation

namespace Timesync

variable {T : Type*} (F : TimeFormat T)

/-! ### What a turn takes -/

/-- What a turn of the loop takes off the stream, if it does not come to its end. -/
inductive Taken : Bytes → Prop
  | rejected {b : UInt8} {data : Bytes} (hb : b.toNat ≤ bufLen)
      (hdata : data.length = b.toNat) (ht : F.unmarshalBinary data = none) :
      Taken (b :: data)
  | accepted {b : UInt8} {data name : Bytes} {t : T} (hb : b.toNat ≤ bufLen)
      (hdata : data.length = b.toNat) (ht : F.unmarshalBinary data = some t)
      (hname : newline ∉ name) :
      Taken (b :: (data ++ (name ++ [newline])))

/-- The words that a turn takes. -/
def taken : Language UInt8 := {u | Taken F u}

variable {F}

theorem eq_of_append_newline {name name' a b : Bytes} (hname : newline ∉ name)
    (hname' : newline ∉ name') (h : name ++ newline :: a = name' ++ newline :: b) :
    name = name' := by
  have htake : ∀ {n c : Bytes}, newline ∉ n →
      (n ++ newline :: c).takeWhile (· ≠ newline) = n := by
    intro n c hn
    have hall : ∀ x ∈ n, decide (x ≠ newline) = true := fun x hx ↦
      decide_eq_true fun heq ↦ hn (heq ▸ hx)
    rw [List.takeWhile_append_of_pos hall, List.takeWhile_cons_of_neg (by simp), List.append_nil]
  rw [← htake (c := a) hname, h, htake hname']

/-- A turn reads a length, as many bytes, and then at most one line: where it stops is fixed by what
it has read. -/
theorem isAntichain_taken : IsAntichain (· <+: ·) (taken F) := by
  rintro u hu v hv hne ⟨w, hw⟩
  -- The two have the length in common, and with it the time.
  have hdata_eq : ∀ {b b' : UInt8} {data data' x y : Bytes}, data.length = b.toNat →
      data'.length = b'.toNat → b :: (data ++ x) = b' :: (data' ++ y) → data = data' ∧ x = y := by
    intro b b' data data' x y hdata hdata' h
    obtain ⟨rfl, htail⟩ := List.cons_eq_cons.1 h
    exact List.append_inj htail (hdata.trans hdata'.symm)
  rcases hu with @⟨b, data, -, hdata, ht⟩ | @⟨b, data, name, t, -, hdata, ht, hname⟩ <;>
    rcases hv with @⟨b', data', -, hdata', ht'⟩ | @⟨b', data', name', t', -, hdata', ht', hname'⟩
  · obtain ⟨-, rfl⟩ := hdata_eq hdata hdata' (hw.trans (by rw [List.append_nil]))
    exact hne (by simpa using hw)
  · obtain ⟨rfl, -⟩ := hdata_eq hdata hdata' hw
    rw [ht] at ht'
    cases ht'
  · rw [List.cons_append, List.append_assoc] at hw
    obtain ⟨rfl, -⟩ := hdata_eq hdata hdata' (hw.trans (by rw [List.append_nil]))
    rw [ht] at ht'
    cases ht'
  · have hw' := hw
    rw [List.cons_append, List.append_assoc] at hw'
    obtain ⟨rfl, htail⟩ := hdata_eq hdata hdata' hw'
    rw [List.append_assoc] at htail
    obtain rfl := eq_of_append_newline hname hname' htail
    obtain ⟨rfl, -⟩ := List.cons_eq_cons.1 hw
    exact hne rfl

variable {rest : Bytes} {s s' : State} {pieces : List (Piece UInt8)}

/-- The first byte of a stream of such words: it is at most 128, and no more than what follows. -/
theorem toNat_le_of_mem_kstar {b : UInt8} (h : b :: rest ∈ (taken F)∗) :
    b.toNat ≤ bufLen ∧ b.toNat ≤ rest.length := by
  obtain ⟨u, hu, v, -, huv⟩ := Language.exists_append_of_mem_kstar h (List.cons_ne_nil b rest)
  rcases hu with ⟨hb, hdata, -⟩ | ⟨hb, hdata, -, -⟩
  · obtain ⟨rfl, rfl⟩ := List.cons_eq_cons.1 (huv.trans (List.cons_append ..))
    rw [List.length_append]
    exact ⟨hb, by omega⟩
  · obtain ⟨rfl, rfl⟩ := List.cons_eq_cons.1 (huv.trans (List.cons_append ..))
    rw [List.length_append, List.length_append]
    exact ⟨hb, by omega⟩

/-! ### Where turns begin -/

/-- One turn after another. -/
def Goes (F : TimeFormat T) : State → State → Prop := ReflTransGen fun s s' ↦ turn F s = .next s'

/-- A turn takes the bytes of one frame, or all there are. -/
theorem taken_of_turn (h : turn F s = .next s') :
    s'.br.unread = [] ∨ ∃ u ∈ taken F, s.br.unread = u ++ s'.br.unread := by
  rcases turn_cases F s with hret | ⟨b, rest, -, -, hpanic⟩ |
    ⟨b, data, rest, hunread, hb, hdata, hcase⟩
  · rw [hret] at h
    cases h
  · rw [hpanic] at h
    cases h
  rcases hcase with ⟨ht, br, hbr, hturn⟩ | ⟨t, name, rest', ht, hrest, hname, br, hbr, hturn⟩ |
    ⟨t, -, -, br, hbr, hturn⟩
  · rw [hturn] at h
    cases h
    exact .inr ⟨b :: data, .rejected hb hdata ht, by rw [hunread, hbr, List.cons_append]⟩
  · rw [hturn] at h
    cases h
    refine .inr ⟨_, .accepted hb hdata ht hname, ?_⟩
    rw [hunread, hrest, hbr]
    simp
  · rw [hturn] at h
    cases h
    exact .inl hbr

theorem exists_turn_of_taken {u : Bytes} (hu : u ∈ taken F) (h : s.br.unread = u ++ rest) :
    ∃ s', turn F s = .next s' ∧ s'.br.unread = rest := by
  rcases hu with ⟨hb, hdata, ht⟩ | ⟨hb, hdata, ht, hname⟩
  · obtain ⟨br, hbr, hturn⟩ := turn_of_rejected h hb hdata ht
    exact ⟨_, hturn, hbr⟩
  · rw [List.cons_append, List.append_assoc, List.append_assoc] at h
    obtain ⟨br, hbr, hturn⟩ := turn_of_accepted h hb hdata ht hname
    exact ⟨_, hturn, hbr⟩

theorem Goes.exists_kstar (h : Goes F s s') (hne : s'.br.unread ≠ []) :
    ∃ pre ∈ (taken F)∗, s.br.unread = pre ++ s'.br.unread := by
  induction h using ReflTransGen.head_induction_on with
  | refl => exact ⟨[], Language.nil_mem_kstar _, rfl⟩
  | head hturn hgoes ih =>
    obtain ⟨pre, hpre, hunread⟩ := ih
    rcases taken_of_turn hturn with hnil | ⟨u, hu, hu'⟩
    · rw [hnil] at hunread
      exact absurd (List.append_eq_nil_iff.1 hunread.symm).2 hne
    · exact ⟨u ++ pre, Language.append_mem_kstar (Language.mem_kstar_of_mem hu) hpre,
        by rw [hu', hunread, List.append_assoc]⟩

theorem exists_goes_of_kstar {pre : Bytes} (hpre : pre ∈ (taken F)∗)
    (h : s.br.unread = pre ++ rest) : ∃ s', Goes F s s' ∧ s'.br.unread = rest := by
  obtain ⟨L, rfl, hL⟩ := Language.mem_kstar.1 hpre
  clear hpre
  induction L generalizing s with
  | nil => exact ⟨s, .refl, h⟩
  | cons u L ih =>
    rw [List.flatten_cons, List.append_assoc] at h
    obtain ⟨s₁, hturn, hs₁⟩ := exists_turn_of_taken (hL u List.mem_cons_self) h
    obtain ⟨s', hgoes, hs'⟩ := ih (fun y hy ↦ hL y (List.mem_cons_of_mem u hy)) hs₁
    exact ⟨s', .head hturn hgoes, hs'⟩

/-- A turn of the loop begins with so much of the stream left. -/
def Begins (F : TimeFormat T) (pieces : List (Piece UInt8)) (rest : Bytes) : Prop :=
  ∃ s, Goes F ⟨.new pieces, .none⟩ s ∧ s.br.unread = rest

/-- **Where turns begin**: behind a stream of words that a turn takes. -/
theorem begins_iff (hne : rest ≠ []) :
    Begins F pieces rest ↔ ∃ pre ∈ (taken F)∗, BufReader.delivered pieces = pre ++ rest := by
  constructor
  · rintro ⟨s, hgoes, rfl⟩
    exact hgoes.exists_kstar hne
  · rintro ⟨pre, hpre, h⟩
    exact exists_goes_of_kstar (s := ⟨.new pieces, .none⟩) hpre h

/-! ### Lengths over 128 -/

theorem turn_eq_panicked_iff :
    turn F s = .panicked ↔ ∃ b rest, s.br.unread = b :: rest ∧ bufLen < b.toNat := by
  constructor
  · intro h
    rcases turn_cases F s with hret | ⟨b, rest, hunread, hb, -⟩ | ⟨b, data, rest, -, -, -, hcase⟩
    · rw [hret] at h
      cases h
    · exact ⟨b, rest, hunread, hb⟩
    · rcases hcase with ⟨-, br, -, hturn⟩ | ⟨t, name, rest', -, -, -, br, -, hturn⟩ |
        ⟨t, -, -, br, -, hturn⟩ <;>
      · rw [hturn] at h
        cases h
  · rintro ⟨b, rest, hunread, hb⟩
    exact turn_of_long hunread hb

theorem Goes.run_eq (h : Goes F s s') : run F s = run F s' := by
  induction h with
  | refl => rfl
  | tail _ hturn ih => rw [ih, run_of_next hturn]

theorem run_eq_panicked_iff :
    (run F s).1 = .panicked ↔ ∃ s', Goes F s s' ∧ turn F s' = .panicked := by
  constructor
  · intro h
    -- Each turn that goes on leaves less to read.
    induction hn : s.br.unread.length using Nat.strong_induction_on generalizing s with
    | _ n ih =>
      rcases hturn : turn F s with s₁ | - | -
      · rw [run_of_next hturn] at h
        obtain ⟨s', hgoes, hs'⟩ := ih _ (hn ▸ length_lt_of_turn hturn) h rfl
        exact ⟨s', .head hturn hgoes, hs'⟩
      · rw [run_of_returned hturn] at h
        cases h
      · exact ⟨s, .refl, hturn⟩
  · rintro ⟨s', hgoes, hs'⟩
    rw [hgoes.run_eq, run_of_panicked hs']

/-- **When the guest panics.** -/
theorem guest_eq_panicked_iff :
    (guest F pieces).1 = .panicked ↔
      ∃ pre ∈ (taken F)∗, ∃ b rest, BufReader.delivered pieces = pre ++ b :: rest ∧
        bufLen < b.toNat := by
  rw [guest, run_eq_panicked_iff]
  constructor
  · rintro ⟨s, hgoes, hturn⟩
    obtain ⟨b, rest, hunread, hb⟩ := turn_eq_panicked_iff.1 hturn
    obtain ⟨pre, hpre, h⟩ := hgoes.exists_kstar (by rw [hunread]; exact List.cons_ne_nil b rest)
    exact ⟨pre, hpre, b, rest, hunread ▸ h, hb⟩
  · rintro ⟨pre, hpre, b, rest, h, hb⟩
    obtain ⟨s, hgoes, hs⟩ := exists_goes_of_kstar (s := ⟨.new pieces, .none⟩) hpre h
    exact ⟨s, hgoes, turn_of_long hs hb⟩

/-! ### Refused times -/

/-- A well-formed frame: a length, as many bytes, a zone name, a newline. -/
structure Frame where
  data : Bytes
  name : Bytes
  length_le : data.length ≤ 255
  newline_notMem : newline ∉ name

/-- A frame as it is sent. -/
def Frame.bytes (f : Frame) : Bytes :=
  UInt8.ofNat f.data.length :: (f.data ++ (f.name ++ [newline]))

theorem Frame.toNat_length (f : Frame) : (UInt8.ofNat f.data.length).toNat = f.data.length := by
  have hle := f.length_le
  rw [UInt8.toNat_ofNat']
  omega

/-- A frame behind which the guest finds the next one: its time fits the buffer, and if it is
refused, the zone name and the newline are themselves a stream of words that a turn takes. -/
def Frame.Passes (F : TimeFormat T) (f : Frame) : Prop :=
  f.data.length ≤ bufLen ∧
    ((F.unmarshalBinary f.data).isSome ∨ f.name ++ [newline] ∈ (taken F)∗)

/-- A frame is taken as a whole exactly if it is passed on. -/
theorem Frame.bytes_mem_kstar_iff {f : Frame} : f.bytes ∈ (taken F)∗ ↔ f.Passes F := by
  rcases lt_or_ge bufLen f.data.length with hlong | hle
  · refine ⟨fun h ↦ ?_, fun h ↦ absurd h.1 (Nat.not_le.2 hlong)⟩
    have hle := (toNat_le_of_mem_kstar h).1
    rw [f.toNat_length] at hle
    exact absurd hle (Nat.not_le.2 hlong)
  rw [Frame.Passes, and_iff_right hle]
  rcases ht : F.unmarshalBinary f.data with - | t
  · have hword : UInt8.ofNat f.data.length :: f.data ∈ taken F :=
      .rejected (f.toNat_length.trans_le hle) f.toNat_length.symm ht
    rw [Frame.bytes, ← List.cons_append,
      Language.append_mem_kstar_iff isAntichain_taken (Language.mem_kstar_of_mem hword)]
    simp
  · have hword : f.bytes ∈ taken F :=
      .accepted (f.toNat_length.trans_le hle) f.toNat_length.symm ht f.newline_notMem
    exact iff_of_true (Language.mem_kstar_of_mem hword) (.inl rfl)

/-- A refused time in front of a zone name whose first byte is larger than the rest of the name is
long: any name of printable characters that is shorter than 32 bytes. -/
theorem Frame.not_passes {f : Frame} (ht : F.unmarshalBinary f.data = none) {b : UInt8}
    (hname : f.name ++ [newline] = b :: rest) (hb : rest.length < b.toNat) : ¬ f.Passes F := by
  rintro ⟨-, h | h⟩
  · rw [ht] at h
    cases h
  · rw [hname] at h
    exact absurd (toNat_le_of_mem_kstar h).2 (Nat.not_le.2 hb)

/-- The frames of a stream are decoded as they are: at the first byte of each, a turn begins. -/
def DecodesEach (F : TimeFormat T) (pieces : List (Piece UInt8)) (frames : List Frame) : Prop :=
  ∀ before f after, frames = before ++ f :: after →
    Begins F pieces ((f :: after).flatMap Frame.bytes)

/-- **When the frames of a stream are found.** -/
theorem decodesEach_iff {frames : List Frame}
    (h : BufReader.delivered pieces = frames.flatMap Frame.bytes) :
    DecodesEach F pieces frames ↔ ∀ f ∈ frames.dropLast, f.Passes F := by
  have hbegins : ∀ before f after, frames = before ++ f :: after →
      (Begins F pieces ((f :: after).flatMap Frame.bytes) ↔
        before.flatMap Frame.bytes ∈ (taken F)∗) := by
    intro before f after hframes
    have hne : (f :: after).flatMap Frame.bytes ≠ [] := by
      rw [List.flatMap_cons, Frame.bytes, List.cons_append]
      exact List.cons_ne_nil _ _
    rw [begins_iff hne, h, hframes, List.flatMap_append]
    constructor
    · rintro ⟨pre, hpre, heq⟩
      rwa [List.append_cancel_right heq]
    · exact fun hbefore ↦ ⟨_, hbefore, rfl⟩
  calc DecodesEach F pieces frames
      ↔ ∀ before f after, frames = before ++ f :: after →
          before.flatMap Frame.bytes ∈ (taken F)∗ :=
        forall₄_congr hbegins
    _ ↔ ∀ f ∈ frames.dropLast, f.bytes ∈ (taken F)∗ :=
        Language.forall_flatMap_mem_kstar_iff isAntichain_taken
    _ ↔ ∀ f ∈ frames.dropLast, f.Passes F :=
        forall₂_congr fun _ _ ↦ Frame.bytes_mem_kstar_iff

/-- **What the guest withstands.** It keeps to its buffer exactly on the streams in which no word
that a turn takes is followed by a length over 128, and it decodes the frames of a stream, each as
its own, exactly if it gets past each of them but the last. -/
theorem robust_iff (F : TimeFormat T) :
    (∀ pieces, (guest F pieces).1 ≠ .panicked ↔
      ∀ pre b rest, BufReader.delivered pieces = pre ++ b :: rest → pre ∈ (taken F)∗ →
        b.toNat ≤ bufLen) ∧
    ∀ frames pieces, BufReader.delivered pieces = frames.flatMap Frame.bytes →
      (DecodesEach F pieces frames ↔ ∀ f ∈ frames.dropLast, f.Passes F) := by
  refine ⟨fun pieces ↦ ?_, fun frames pieces h ↦ decodesEach_iff h⟩
  rw [ne_eq, guest_eq_panicked_iff]
  constructor
  · intro hno pre b rest h hpre
    by_contra hb
    exact hno ⟨pre, hpre, b, rest, h, Nat.not_le.1 hb⟩
  · rintro hle ⟨pre, hpre, b, rest, h, hb⟩
    exact absurd (hle pre b rest h hpre) (Nat.not_le.2 hb)

/-- The frame that a host writes for the start of 2022 in UTC. -/
def goodFrame : Frame :=
  ⟨binaryTime.marshalBinary ⟨63776592000, 0, 65535⟩, ascii "UTC", by decide, by decide⟩

/-- Frames of a host pass. -/
theorem robust_goodFrames :
    goodFrame.Passes binaryTime ∧
      DecodesEach binaryTime ([goodFrame, goodFrame].flatMap Frame.bytes |>.map Piece.one)
        [goodFrame, goodFrame] :=
  have hpasses : goodFrame.Passes binaryTime := ⟨by decide, .inl (by decide)⟩
  ⟨hpasses, ((robust_iff binaryTime).2 _ _ (BufReader.delivered_map_one _)).2 fun _ hf ↦
    List.mem_singleton.1 hf ▸ hpasses⟩

/-- A frame with no time at all, and well formed but for that. -/
def emptyFrame : Frame := ⟨[], ascii "UTC", by decide, by decide⟩

/-- One byte makes the guest panic, and one refused time makes it lose the frame of a host that
comes next. -/
theorem exists_not_robust :
    (guest binaryTime ([129].map Piece.one)).1 = .panicked ∧
      guest binaryTime ([emptyFrame, goodFrame].flatMap Frame.bytes |>.map Piece.one) =
        (.returned, .none) ∧
      ¬ DecodesEach binaryTime ([emptyFrame, goodFrame].flatMap Frame.bytes |>.map Piece.one)
        [emptyFrame, goodFrame] := by
  refine ⟨by decide, by decide, fun h ↦ ?_⟩
  have hpasses := (decodesEach_iff (BufReader.delivered_map_one _)).1 h emptyFrame
    List.mem_cons_self
  -- The `U` of the name is taken for the length of a time of 85 bytes.
  exact Frame.not_passes (b := 85) (by decide) (show _ = [85, 84, 67, 10] by decide) (by decide)
    hpasses

end Timesync
