import Isle.Forward.Message
import Isle.Ssh.Buffer
import Mathlib.Data.Fintype.Card

/-!
# Requests for a terminal

`parsePtyRequest` of `pkg/ssh/util.go`, which takes apart the payload of a `pty-req` request, and
the payload that `RequestPty` of `pkg/crypto/ssh/session.go` sends. The format is that of RFC 4254:
a string, four numbers of 32 bits, and another string, where a string is its length in 32 bits and
its bytes.

What the format says is `IsRequest`, over numbers that do not wrap. The parser compares `4+length`
with the length of the buffer **in 32 bits**. So a length of `2^32-4` or more passes for a small
one and the slice that follows is out of range (`Wraps`), which ends the process; and a buffer of
four gigabytes or more is taken for a shorter one (`Misjudged`). `exact_iff_straight` has the
payloads at which neither matters.
-/

namespace Ssh

open Forward (toBigEndian ofBigEndian length_toBigEndian ofBigEndian_toBigEndian)

/-- The size of a terminal. The source has them as `int`, from numbers of 32 bits. -/
structure Window where
  width : UInt32
  height : UInt32
  pixelWidth : UInt32
  pixelHeight : UInt32
  deriving DecidableEq, Repr

/-- What a session is told about its terminal. -/
structure Pty where
  term : Bytes
  window : Window
  modes : Bytes
  deriving DecidableEq, Repr

/-- How a parser ends without a result. -/
inductive Refusal
  /-- It returns `false`. -/
  | notOk
  /-- A slice is out of range. -/
  | panic
  deriving DecidableEq, Repr

/-! ### The parser -/

/-- `binary.BigEndian.Uint32` -/
def uint32 (bs : Bytes) : UInt32 := UInt32.ofNat (ofBigEndian (bs.take 4))

/-- A string, with its length in front. -/
def parseString (buf : Bytes) : Except Refusal (Bytes × Bytes) :=
  if buf.length < 4 then .error .notOk
  else
    let length := uint32 buf
    if UInt32.ofNat buf.length < 4 + length then .error .notOk
    -- `in[4 : 4+length]` is out of range if the sum wrapped
    else if 4 + length < 4 then .error .panic
    else .ok ((buf.take (4 + length).toNat).drop 4, buf.drop (4 + length).toNat)

/-- A number of four bytes. -/
def parseUint32 (buf : Bytes) : Except Refusal (UInt32 × Bytes) :=
  if buf.length < 4 then .error .notOk else .ok (uint32 buf, buf.drop 4)

/-- The terminal of a request. What is behind the modes is not looked at. -/
def parsePtyRequest (s : Bytes) : Except Refusal Pty := do
  let (term, s) ← parseString s
  let (width32, s) ← parseUint32 s
  let (height32, s) ← parseUint32 s
  let (xwidth32, s) ← parseUint32 s
  let (xheight32, s) ← parseUint32 s
  let (modes, _) ← parseString s
  return ⟨term, ⟨width32, height32, xwidth32, xheight32⟩, modes⟩

/-! ### The format -/

/-- A number of 32 bits. -/
def encodeUint32 (n : UInt32) : Bytes := toBigEndian 4 n.toNat

/-- A string. It has to be shorter than `2^32`. -/
def encodeString (bs : Bytes) : Bytes := toBigEndian 4 bs.length ++ bs

/-- A window as it is sent: four numbers. -/
def encodeWindow (w : Window) : Bytes :=
  encodeUint32 w.width ++ encodeUint32 w.height ++ encodeUint32 w.pixelWidth ++
    encodeUint32 w.pixelHeight

/-- A terminal as it is sent. -/
def encodePty (pty : Pty) : Bytes :=
  encodeString pty.term ++ encodeWindow pty.window ++ encodeString pty.modes

/-- The bytes start with the encoding of the request. -/
structure IsRequest (s : Bytes) (pty : Pty) : Prop where
  term_length : pty.term.length < 2 ^ 32
  modes_length : pty.modes.length < 2 ^ 32
  encoded : encodePty pty <+: s

/-- **The parser accepts exactly its format.** -/
structure Exact (s : Bytes) : Prop where
  accepts : ∀ pty, IsRequest s pty → parsePtyRequest s = .ok pty
  rejects : (∀ pty, ¬ IsRequest s pty) → parsePtyRequest s = .error .notOk

section Uint32

variable (n : UInt32) (rest : Bytes)

@[simp] theorem length_encodeUint32 : (encodeUint32 n).length = 4 := length_toBigEndian ..

@[simp] theorem uint32_encodeUint32 : uint32 (encodeUint32 n ++ rest) = n := by
  rw [uint32, List.take_left' (length_encodeUint32 n), encodeUint32,
    ofBigEndian_toBigEndian n.toNat_lt, UInt32.ofNat_toNat]

variable {rest}

/-- Four bytes are the encoding of their number. -/
theorem encodeUint32_uint32 {buf : Bytes} (h : 4 ≤ buf.length) :
    encodeUint32 (uint32 buf) = buf.take 4 := by
  obtain ⟨a, b, c, d, rest, rfl⟩ : ∃ a b c d rest, buf = a :: b :: c :: d :: rest := by
    rcases buf with - | ⟨a, - | ⟨b, - | ⟨c, - | ⟨d, rest⟩⟩⟩⟩
    all_goals first | exact ⟨a, b, c, d, rest, rfl⟩ | simp at h
  have ha := a.toNat_lt
  have hb := b.toNat_lt
  have hc := c.toNat_lt
  have hd := d.toNat_lt
  have hbyte (x : ℕ) (u : UInt8) (hx : x = u.toNat) : UInt8.ofNat x = u := by simp [hx]
  simp only [uint32, encodeUint32, toBigEndian, ofBigEndian, List.take_succ_cons, List.take_zero,
    List.foldl_cons, List.foldl_nil, UInt32.toNat_ofNat', List.cons.injEq, and_true]
  refine ⟨hbyte _ _ ?_, hbyte _ _ ?_, hbyte _ _ ?_, hbyte _ _ ?_⟩ <;> omega

end Uint32

/-! ### Reading without wrapping -/

/-- A string at the start of a buffer. -/
def readString (buf : Bytes) : Option (Bytes × Bytes) :=
  let length := (uint32 buf).toNat
  if 4 ≤ buf.length ∧ 4 + length ≤ buf.length then
    some ((buf.drop 4).take length, buf.drop (4 + length))
  else none

/-- The four numbers of a size. -/
def readWindow (buf : Bytes) : Option (Window × Bytes) :=
  if 16 ≤ buf.length then
    some (⟨uint32 buf, uint32 (buf.drop 4), uint32 (buf.drop 8), uint32 (buf.drop 12)⟩,
      buf.drop 16)
  else none

/-- What a reader of the protocol makes of a request. -/
def readPty (s : Bytes) : Option Pty := do
  let (term, s) ← readString s
  let (window, s) ← readWindow s
  let (modes, _) ← readString s
  return ⟨term, window, modes⟩

section Read

variable {buf out rest : Bytes} {w : Window} {pty : Pty}

theorem encodeString_eq (h : out.length < 2 ^ 32) :
    encodeString out = encodeUint32 (UInt32.ofNat out.length) ++ out := by
  rw [encodeString, encodeUint32, UInt32.toNat_ofNat_of_lt' h]

/-- A string is read exactly if the payload begins with its encoding. -/
theorem readString_eq_some_iff :
    readString buf = some (out, rest) ↔ out.length < 2 ^ 32 ∧ buf = encodeString out ++ rest := by
  constructor
  · intro h
    obtain ⟨⟨h4, hlen⟩, heq⟩ := Option.ite_none_right_eq_some.1 h
    cases heq
    have hout : ((buf.drop 4).take (uint32 buf).toNat).length = (uint32 buf).toNat := by
      rw [List.length_take, List.length_drop]
      omega
    have hlt : ((buf.drop 4).take (uint32 buf).toNat).length < 2 ^ 32 := by
      rw [hout]
      exact (uint32 buf).toNat_lt
    refine ⟨hlt, ?_⟩
    rw [encodeString_eq hlt, hout, UInt32.ofNat_toNat, encodeUint32_uint32 h4, List.append_assoc,
      ← List.drop_drop, List.take_append_drop, List.take_append_drop]
  · rintro ⟨hlt, rfl⟩
    rw [encodeString_eq hlt, List.append_assoc]
    have hnum : (UInt32.ofNat out.length).toNat = out.length := UInt32.toNat_ofNat_of_lt' hlt
    simp only [readString, uint32_encodeUint32, hnum]
    rw [if_pos (by simp only [List.length_append, length_encodeUint32]; omega), ← List.drop_drop,
      List.drop_left' (length_encodeUint32 _), List.take_left, List.drop_left]

/-- And so is a window. -/
theorem readWindow_eq_some_iff :
    readWindow buf = some (w, rest) ↔ buf = encodeWindow w ++ rest := by
  constructor
  · intro h
    obtain ⟨h16, heq⟩ := Option.ite_none_right_eq_some.1 h
    cases heq
    have hsplit (k : ℕ) (hk : k + 4 ≤ buf.length) :
        encodeUint32 (uint32 (buf.drop k)) ++ buf.drop (k + 4) = buf.drop k := by
      rw [encodeUint32_uint32 (by rw [List.length_drop]; omega), ← List.drop_drop,
        List.take_append_drop]
    have h0 := hsplit 0 (by omega)
    rw [List.drop_zero] at h0
    simp only [encodeWindow, List.append_assoc]
    rw [hsplit 12 (by omega), hsplit 8 (by omega), hsplit 4 (by omega), h0]
  · rintro rfl
    have hdrop (n : UInt32) (k : ℕ) (t : Bytes) :
        (encodeUint32 n ++ t).drop (k + 4) = t.drop k := by
      rw [Nat.add_comm, ← List.drop_drop, List.drop_left' (length_encodeUint32 n)]
    rw [readWindow, if_pos (by simp [encodeWindow]; omega)]
    simp only [encodeWindow, List.append_assoc, uint32_encodeUint32, hdrop _ 0, hdrop _ 4,
      hdrop _ 8, hdrop _ 12, List.drop_zero]

/-- Reading finds the request that the bytes start with. -/
theorem isRequest_iff {s : Bytes} : IsRequest s pty ↔ readPty s = some pty := by
  simp only [readPty, Option.bind_eq_bind, Option.bind_eq_some_iff, Prod.exists]
  constructor
  · rintro ⟨hterm, hmodes, rest, rfl⟩
    refine ⟨pty.term, _, readString_eq_some_iff.2 ⟨hterm, ?_⟩, pty.window, _,
      readWindow_eq_some_iff.2 rfl, pty.modes, rest, readString_eq_some_iff.2 ⟨hmodes, rfl⟩, rfl⟩
    simp only [encodePty, List.append_assoc]
  · rintro ⟨term, s₁, h₁, window, s₂, h₂, modes, rest, h₃, heq⟩
    cases heq
    obtain ⟨hterm, rfl⟩ := readString_eq_some_iff.1 h₁
    obtain rfl := readWindow_eq_some_iff.1 h₂
    obtain ⟨hmodes, rfl⟩ := readString_eq_some_iff.1 h₃
    exact ⟨hterm, hmodes, rest, by simp only [encodePty, List.append_assoc]⟩

end Read

/-! ### Where the parser and the format part -/

/-- `4+length` wraps, and what it wraps to is not more than the length of the buffer in 32 bits. -/
def Wraps (buf : Bytes) : Prop :=
  4 ≤ buf.length ∧ 2 ^ 32 ≤ 4 + (uint32 buf).toNat ∧
    4 + (uint32 buf).toNat - 2 ^ 32 ≤ buf.length % 2 ^ 32

/-- The string is in the buffer, but the length of the buffer in 32 bits is too small for it. -/
def Misjudged (buf : Bytes) : Prop :=
  4 + (uint32 buf).toNat ≤ buf.length ∧
    buf.length % 2 ^ 32 < (4 + (uint32 buf).toNat) % 2 ^ 32

instance (buf : Bytes) : Decidable (Wraps buf) := inferInstanceAs (Decidable (_ ∧ _ ∧ _))

instance (buf : Bytes) : Decidable (Misjudged buf) := inferInstanceAs (Decidable (_ ∧ _))

/-- The two strings of a payload are judged by their real lengths: the first one, unless it is
missed and the payload is not a request anyway, and the one behind the size if it is reached. -/
structure Straight (s : Bytes) : Prop where
  first : ¬ Wraps s
  missed : Misjudged s → ∀ pty, ¬ IsRequest s pty
  second : ¬ Misjudged s → ∀ term window rest, term.length < 2 ^ 32 →
    s = encodeString term ++ (encodeWindow window ++ rest) → ¬ Wraps rest ∧ ¬ Misjudged rest

/-- A parser that does what a reader does. -/
def okOr {α : Type} : Option α → Except Refusal α
  | some a => .ok a
  | none => .error .notOk

@[simp] theorem okOr_some {α : Type} (a : α) : okOr (some a) = .ok a := rfl

@[simp] theorem okOr_none {α : Type} : okOr (none : Option α) = .error .notOk := rfl

section Parse

variable {s : Bytes}

/-- **What `parseString` does**, in all four cases. -/
theorem parseString_eq (buf : Bytes) :
    parseString buf =
      if Wraps buf then .error .panic
      else if Misjudged buf then .error .notOk
      else okOr (readString buf) := by
  have hlen := (uint32 buf).toNat_lt
  have hsum : (4 + uint32 buf).toNat = (4 + (uint32 buf).toNat) % 2 ^ 32 := UInt32.toNat_add ..
  have hshort : UInt32.ofNat buf.length < 4 + uint32 buf ↔
      buf.length % 2 ^ 32 < (4 + (uint32 buf).toNat) % 2 ^ 32 := by
    rw [UInt32.lt_iff_toNat_lt, hsum, UInt32.toNat_ofNat']
  have hwrap : 4 + uint32 buf < 4 ↔ 2 ^ 32 ≤ 4 + (uint32 buf).toNat := by
    rw [UInt32.lt_iff_toNat_lt, hsum, show (4 : UInt32).toNat = 4 from rfl]
    omega
  by_cases hw : Wraps buf
  · have ⟨h4, hbig, hle⟩ := hw
    rw [if_pos hw, parseString, if_neg (by omega)]
    simp only [if_neg (mt hshort.1 (by omega)), if_pos (hwrap.2 hbig)]
  rw [if_neg hw]
  by_cases hm : Misjudged buf
  · rw [if_pos hm, parseString, if_neg (by have := hm.1; omega)]
    simp only [if_pos (hshort.2 hm.2)]
  rw [if_neg hm, readString]
  by_cases hin : 4 ≤ buf.length ∧ 4 + (uint32 buf).toNat ≤ buf.length
  · -- the sum has not wrapped, since it would be at most the length in 32 bits
    have hnot : ¬ buf.length % 2 ^ 32 < (4 + (uint32 buf).toNat) % 2 ^ 32 := fun h ↦ hm ⟨hin.2, h⟩
    have hsmall : 4 + (uint32 buf).toNat < 2 ^ 32 := by
      by_contra hbig
      exact hw ⟨hin.1, by omega, by omega⟩
    rw [parseString, if_neg (by omega), if_pos hin]
    simp only [if_neg (mt hshort.1 hnot), if_neg (mt hwrap.1 (by omega)), hsum,
      Nat.mod_eq_of_lt hsmall, List.drop_take, Nat.add_sub_cancel_left, okOr_some]
  · rw [parseString, if_neg hin, okOr_none]
    by_cases h4 : buf.length < 4
    · rw [if_pos h4]
    · rw [if_neg h4]
      by_cases hbig : 2 ^ 32 ≤ 4 + (uint32 buf).toNat
      · have hlt : buf.length % 2 ^ 32 < (4 + (uint32 buf).toNat) % 2 ^ 32 := by
          by_contra hle
          exact hw ⟨by omega, hbig, by omega⟩
        simp only [if_pos (hshort.2 hlt)]
      · simp only [if_pos (hshort.2 (by omega))]

/-- The four numbers are parsed as they are read. -/
theorem parseWindow_eq (s : Bytes) (k : Window → Bytes → Except Refusal Pty) :
    ((parseUint32 s).bind fun a ↦ (parseUint32 a.2).bind fun b ↦ (parseUint32 b.2).bind fun c ↦
      (parseUint32 c.2).bind fun d ↦ k ⟨a.1, b.1, c.1, d.1⟩ d.2) =
      (okOr (readWindow s)).bind fun q ↦ k q.1 q.2 := by
  have hpos (n : ℕ) (h : n + 4 ≤ s.length) :
      parseUint32 (s.drop n) = .ok (uint32 (s.drop n), s.drop (n + 4)) := by
    rw [parseUint32, if_neg (by rw [List.length_drop]; omega), List.drop_drop]
  have hneg (n : ℕ) (h : s.length < n + 4) : parseUint32 (s.drop n) = .error .notOk :=
    if_pos (by rw [List.length_drop]; omega)
  nth_rewrite 1 [← List.drop_zero (l := s)]
  rw [readWindow]
  by_cases h4 : s.length < 4
  · rw [hneg 0 h4, if_neg (by omega)]
    rfl
  rw [hpos 0 (by omega)]
  by_cases h8 : s.length < 8
  · simp only [Except.bind, hneg 4 h8, if_neg (show ¬ 16 ≤ s.length by omega), okOr_none]
  by_cases h12 : s.length < 12
  · simp only [Except.bind, hpos 4 (by omega), hneg 8 h12, if_neg (show ¬ 16 ≤ s.length by omega),
      okOr_none]
  by_cases h16 : s.length < 16
  · simp only [Except.bind, hpos 4 (by omega), hpos 8 (by omega), hneg 12 h16,
      if_neg (show ¬ 16 ≤ s.length by omega), okOr_none]
  · simp only [Except.bind, hpos 4 (by omega), hpos 8 (by omega), hpos 12 (by omega),
      List.drop_zero, if_pos (show 16 ≤ s.length by omega), okOr_some]

theorem parsePtyRequest_eq (s : Bytes) :
    parsePtyRequest s =
      (parseString s).bind fun p ↦ (okOr (readWindow p.2)).bind fun q ↦
        (parseString q.2).bind fun r ↦ .ok ⟨p.1, q.1, r.1⟩ := by
  refine congrArg (parseString s).bind (funext fun p ↦ ?_)
  exact parseWindow_eq p.2 fun w s ↦ (parseString s).bind fun r ↦ .ok ⟨p.1, w, r.1⟩

/-- Exactly what is read is parsed. -/
theorem exact_iff_eq : Exact s ↔ parsePtyRequest s = okOr (readPty s) := by
  constructor
  · rintro ⟨haccepts, hrejects⟩
    cases hread : readPty s with
    | none => exact hrejects fun pty hpty ↦ by simp [isRequest_iff.1 hpty] at hread
    | some pty => exact haccepts pty (isRequest_iff.2 hread)
  · intro h
    refine ⟨fun pty hpty ↦ by rw [h, isRequest_iff.1 hpty, okOr_some], fun hnone ↦ ?_⟩
    cases hread : readPty s with
    | none => rw [h, hread, okOr_none]
    | some pty => exact absurd (isRequest_iff.2 hread) (hnone pty)

/-- What is misjudged is a string that can be read. -/
theorem Misjudged.exists_readString {buf : Bytes} (h : Misjudged buf) :
    ∃ p, readString buf = some p :=
  ⟨_, if_pos ⟨(Nat.le_add_right 4 _).trans h.1, h.1⟩⟩

/-- The second string is parsed as it is read. -/
theorem parseModes_eq_iff (f : Bytes → Pty) (rest : Bytes) :
    ((parseString rest).bind fun r ↦ .ok (f r.1)) = okOr ((readString rest).map fun r ↦ f r.1) ↔
      ¬ Wraps rest ∧ ¬ Misjudged rest := by
  rw [parseString_eq]
  split_ifs with hw hm
  · cases readString rest <;> simp [Except.bind, hw]
  · obtain ⟨p, hp⟩ := hm.exists_readString
    simp [hp, hm, Except.bind]
  · cases readString rest <;> simp [Except.bind, hw, hm]

/-- Behind a first string that is judged right, it is the second one that matters. -/
theorem parse_eq_read_iff (hw : ¬ Wraps s) (hm : ¬ Misjudged s) :
    parsePtyRequest s = okOr (readPty s) ↔
      ∀ term s' window rest, readString s = some (term, s') →
        readWindow s' = some (window, rest) → ¬ Wraps rest ∧ ¬ Misjudged rest := by
  rw [parsePtyRequest_eq, parseString_eq, if_neg hw, if_neg hm, readPty]
  cases hterm : readString s with
  | none => simp [Except.bind]
  | some p =>
    obtain ⟨term, s'⟩ := p
    cases hwindow : readWindow s' with
    | none =>
      refine iff_of_true (by simp [Except.bind, hwindow]) fun _ _ _ _ hs hwindow' ↦ ?_
      cases hs
      simp [hwindow] at hwindow'
    | some q =>
      obtain ⟨window, rest⟩ := q
      have hmodes := parseModes_eq_iff (fun modes ↦ ⟨term, window, modes⟩) rest
      rw [Option.map_eq_bind] at hmodes
      simp only [okOr_some, Except.bind, hwindow, Option.bind_eq_bind, Option.bind_some]
      refine hmodes.trans ⟨fun h _ _ _ _ hs hwindow' ↦ ?_, fun h ↦ h _ _ _ _ rfl hwindow⟩
      cases hs
      rw [hwindow] at hwindow'
      cases hwindow'
      exact h

theorem straight_iff (hw : ¬ Wraps s) (hm : ¬ Misjudged s) :
    Straight s ↔ ∀ term s' window rest, readString s = some (term, s') →
      readWindow s' = some (window, rest) → ¬ Wraps rest ∧ ¬ Misjudged rest := by
  constructor
  · intro h term s' window rest hterm hwindow
    obtain ⟨hlt, rfl⟩ := readString_eq_some_iff.1 hterm
    obtain rfl := readWindow_eq_some_iff.1 hwindow
    exact h.second hm term window rest hlt rfl
  · refine fun h ↦ ⟨hw, fun hm' ↦ absurd hm' hm, fun _ term window rest hlt hs ↦ ?_⟩
    exact h term _ window rest (readString_eq_some_iff.2 ⟨hlt, hs⟩) (readWindow_eq_some_iff.2 rfl)

/-- **When the parser accepts exactly its format.** -/
theorem exact_iff_straight : Exact s ↔ Straight s := by
  rw [exact_iff_eq]
  by_cases hw : Wraps s
  · rw [parsePtyRequest_eq, parseString_eq, if_pos hw]
    refine iff_of_false ?_ fun h ↦ h.first hw
    cases readPty s <;> simp [Except.bind]
  by_cases hm : Misjudged s
  · rw [parsePtyRequest_eq, parseString_eq, if_neg hw, if_pos hm]
    have hnone : (.error .notOk : Except Refusal Pty) = okOr (readPty s) ↔
        ∀ pty, ¬ IsRequest s pty := by
      cases hread : readPty s <;> simp [isRequest_iff, hread]
    exact hnone.trans ⟨fun h ↦ ⟨hw, fun _ ↦ h, absurd hm⟩, fun h ↦ h.missed hm⟩
  · rw [parse_eq_read_iff hw hm, straight_iff hw hm]

end Parse

/-! ### Payloads below four gigabytes -/

section Short

variable {buf : Bytes}

/-- A string that is in a buffer of less than `2^32` bytes is judged right. -/
theorem not_misjudged_of_lt (h : buf.length < 2 ^ 32) : ¬ Misjudged buf := by
  rintro ⟨hin, hlt⟩
  rw [Nat.mod_eq_of_lt h, Nat.mod_eq_of_lt (hin.trans_lt h)] at hlt
  omega

theorem wraps_iff_of_lt (h : buf.length < 2 ^ 32) :
    Wraps buf ↔ 4 ≤ buf.length ∧ 2 ^ 32 - 4 ≤ (uint32 buf).toNat := by
  have hlen := (uint32 buf).toNat_lt
  rw [Wraps, Nat.mod_eq_of_lt h]
  omega

theorem toNat_uint32_encodeString {out rest : Bytes} (h : out.length < 2 ^ 32) :
    (uint32 (encodeString out ++ rest)).toNat = out.length := by
  rw [encodeString_eq h, List.append_assoc, uint32_encodeUint32, UInt32.toNat_ofNat_of_lt' h]

theorem not_wraps_encodeString {out rest : Bytes}
    (h : (encodeString out ++ rest).length < 2 ^ 32) : ¬ Wraps (encodeString out ++ rest) := by
  have hlen : (encodeString out ++ rest).length = 4 + out.length + rest.length := by
    rw [encodeString, List.length_append, List.length_append, length_toBigEndian]
  rw [wraps_iff_of_lt h, toNat_uint32_encodeString (by omega)]
  omega

end Short

/-! ### The payload of a request -/

/-- `TerminalModes`, in the order in which the map is gone through. -/
structure TerminalModes where
  entries : List (UInt8 × UInt32)
  nodup : (entries.map Prod.fst).Nodup

/-- The end of the modes. -/
def ttyOpEnd : UInt8 := 0

/-- The modes as `RequestPty` encodes them. -/
def TerminalModes.encode (modes : TerminalModes) : Bytes :=
  (modes.entries.flatMap fun kv ↦ kv.1 :: encodeUint32 kv.2) ++ [ttyOpEnd]

/-- `uint32(x)` -/
def truncate32 (x : Int64) : UInt32 := x.toUInt64.toUInt32

/-- The request that a client of the repository sends. -/
structure PtyRequestMsg where
  term : Bytes
  columns : UInt32
  rows : UInt32
  width : UInt32
  height : UInt32
  modelist : Bytes
  deriving DecidableEq, Repr

/-- The message of `RequestPty`. -/
def ptyRequest (term : Bytes) (h w : Int64) (modes : TerminalModes) : PtyRequestMsg where
  term := term
  columns := truncate32 w
  rows := truncate32 h
  width := truncate32 (w * 8)
  height := truncate32 (h * 8)
  modelist := modes.encode

/-- `Marshal`: the fields in their order. The length of a string is cut to 32 bits. -/
def PtyRequestMsg.marshal (m : PtyRequestMsg) : Bytes :=
  encodeString m.term ++ encodeUint32 m.columns ++ encodeUint32 m.rows ++ encodeUint32 m.width ++
    encodeUint32 m.height ++ encodeString m.modelist

/-- What the message asks for. -/
def PtyRequestMsg.pty (m : PtyRequestMsg) : Pty :=
  ⟨m.term, ⟨m.columns, m.rows, m.width, m.height⟩, m.modelist⟩

/-- There are no more modes than opcodes. -/
theorem TerminalModes.length_encode_le (modes : TerminalModes) : modes.encode.length ≤ 1281 := by
  have hcard : modes.entries.length ≤ 256 := by
    have hfin : (modes.entries.map fun kv ↦ kv.1.toFin).Nodup := by
      have hmap := modes.nodup.map (f := UInt8.toFin) fun a b hab ↦ UInt8.toFin_inj.1 hab
      rwa [List.map_map] at hmap
    have hle := hfin.length_le_card
    rwa [List.length_map, Fintype.card_fin] at hle
  have hsum : (modes.entries.flatMap fun kv ↦ kv.1 :: encodeUint32 kv.2).length =
      5 * modes.entries.length := by
    induction modes.entries with
    | nil => rfl
    | cons kv kvs ih =>
      rw [List.flatMap_cons, List.length_append, ih, List.length_cons, length_encodeUint32,
        List.length_cons]
      omega
  rw [encode, List.length_append, hsum, List.length_singleton]
  omega

section Payload

variable (m : PtyRequestMsg)

theorem PtyRequestMsg.marshal_eq : m.marshal = encodePty m.pty := by
  simp only [marshal, encodePty, encodeWindow, pty, List.append_assoc]

theorem PtyRequestMsg.length_marshal :
    m.marshal.length = m.term.length + 24 + m.modelist.length := by
  simp only [marshal, encodeString, List.length_append, length_encodeUint32, length_toBigEndian]
  omega

/-- A payload of less than `2^32` bytes is parsed. -/
theorem parse_marshal_of_lt (h : m.marshal.length < 2 ^ 32) :
    parsePtyRequest m.marshal = .ok m.pty := by
  have hlen := m.length_marshal
  have hterm : m.term.length < 2 ^ 32 := by omega
  have hmodes : m.modelist.length < 2 ^ 32 := by omega
  have hrequest : IsRequest m.marshal m.pty := ⟨hterm, hmodes, by rw [m.marshal_eq]⟩
  have hsplit : m.marshal =
      encodeString m.term ++ (encodeWindow m.pty.window ++ encodeString m.modelist) := by
    rw [m.marshal_eq, encodePty, List.append_assoc]
    rfl
  have hw : ¬ Wraps m.marshal := by
    rw [hsplit] at h ⊢
    exact not_wraps_encodeString h
  have hparse : parsePtyRequest m.marshal = okOr (readPty m.marshal) := by
    refine (parse_eq_read_iff hw (not_misjudged_of_lt h)).2 fun term s' window rest hs hwindow ↦ ?_
    rw [readString_eq_some_iff.2 ⟨hterm, hsplit⟩] at hs
    cases hs
    rw [readWindow_eq_some_iff.2 rfl] at hwindow
    cases hwindow
    have hrest : (encodeString m.modelist ++ []).length < 2 ^ 32 := by
      rw [List.append_nil, encodeString, List.length_append, length_toBigEndian]
      omega
    rw [← List.append_nil (encodeString m.modelist)]
    exact ⟨not_wraps_encodeString hrest, not_misjudged_of_lt hrest⟩
  rw [hparse, isRequest_iff.1 hrequest, okOr_some]

/-- What is parsed to the request is not longer, as far as its modes are few. -/
theorem lt_of_parse_marshal (hmodes : m.modelist.length ≤ 1281)
    (h : parsePtyRequest m.marshal = .ok m.pty) : m.marshal.length < 2 ^ 32 := by
  have hlen := m.length_marshal
  rw [parsePtyRequest_eq, parseString_eq] at h
  split_ifs at h with hw hm
  · cases h
  · cases h
  cases hread : readString m.marshal with
  | none => simp [hread, Except.bind] at h
  | some p =>
    have hp : p.1 = m.term := by
      simp only [hread, okOr_some, Except.bind] at h
      split at h
      · cases h
      split at h
      · cases h
      · exact congrArg Pty.term (Except.ok.inj h)
    obtain ⟨term, s'⟩ := p
    obtain rfl : term = m.term := hp
    obtain ⟨hterm, hs⟩ := readString_eq_some_iff.1 hread
    have hfield : (uint32 m.marshal).toNat = m.term.length := by
      rw [hs, toNat_uint32_encodeString hterm]
    rw [Wraps, hfield] at hw
    rw [Misjudged, hfield] at hm
    omega

end Payload

/-- **When requests for a terminal are understood.** The parser accepts exactly its format at the
payloads whose two strings are judged by their real lengths, and it inverts what `RequestPty` sends
exactly if that has less than `2^32` bytes. -/
theorem parsePtyRequest_exact_iff (s term : List UInt8) (h w : Int64) (modes : TerminalModes) :
    (Exact s ↔ Straight s) ∧
      (parsePtyRequest (ptyRequest term h w modes).marshal = .ok (ptyRequest term h w modes).pty ↔
        (ptyRequest term h w modes).marshal.length < 2 ^ 32) :=
  ⟨exact_iff_straight, lt_of_parse_marshal _ modes.length_encode_le, parse_marshal_of_lt _⟩

/-- Four bytes end the process. -/
theorem not_exact_of_max_length :
    parsePtyRequest [255, 255, 255, 255] = .error .panic ∧ ¬ Exact [255, 255, 255, 255] := by
  have hpanic : parsePtyRequest [255, 255, 255, 255] = .error .panic := rfl
  refine ⟨hpanic, fun h ↦ ?_⟩
  have heq := exact_iff_eq.1 h
  rw [hpanic, show readPty [255, 255, 255, 255] = none from rfl] at heq
  cases heq

end Ssh
