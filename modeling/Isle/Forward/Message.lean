import Isle.Foundation.Codec
import Mathlib.Tactic.Ring

/-!
# The messages of the port-forward protocol

The messages of `types/types.go` that the host and the guest exchange in front of a forwarded
connection, and their encoding.

The encoder and decoder are those of a library, so they are a parameter (`Cbor`): one stream codec
for each message, with the laws of `Codec` and nothing else. `rfc8949` is an instance, the encoding
of the three structures as maps from field names to values, for texts of ASCII characters.
-/

namespace Forward

/-- `types.ProtocolByte` -/
def protocolByte : UInt8 := 0x7

/-- What goes over a connection. -/
abbrev Bytes := List UInt8

/-- `types.OK` -/
def codeOK : ℤ := 1

/-- `types.Error` -/
def codeError : ℤ := 2

/-- What a connection is for. -/
structure HeaderMessage where
  kind : String
  deriving DecidableEq, Repr

/-- The port to dial, and the address that it is at. -/
structure PortForwardMessage where
  port : ℤ
  key : String
  deriving DecidableEq, Repr

/-- The answer to a request. -/
structure ResponseMessage where
  code : ℤ
  error : String
  deriving DecidableEq, Repr

/-- The reply to a connection that is forwarded. -/
def ResponseMessage.ok : ResponseMessage := ⟨codeOK, ""⟩

/-- The reply to a connection that is not. -/
def ResponseMessage.failed (text : String) : ResponseMessage := ⟨codeError, text⟩

/-- The message encoding: a stream codec for each message. -/
structure Cbor where
  header : Codec UInt8 HeaderMessage
  portForward : Codec UInt8 PortForwardMessage
  response : Codec UInt8 ResponseMessage

/-! ### The encoding itself -/

/-- A number in a given number of bytes, the most significant first. -/
def toBigEndian : ℕ → ℕ → Bytes
  | 0, _ => []
  | w + 1, n => UInt8.ofNat (n / 256 ^ w % 256) :: toBigEndian w n

theorem length_toBigEndian (w n : ℕ) : (toBigEndian w n).length = w := by
  induction w with
  | zero => rfl
  | succ w ih => rw [toBigEndian, List.length_cons, ih]

/-- The number that some bytes are, the most significant first. -/
def ofBigEndian (bs : Bytes) : ℕ := bs.foldl (fun n b ↦ 256 * n + b.toNat) 0

private theorem foldl_toBigEndian (w n a : ℕ) :
    (toBigEndian w n).foldl (fun n b ↦ 256 * n + b.toNat) a = 256 ^ w * a + n % 256 ^ w := by
  induction w generalizing a with
  | zero => simp [toBigEndian, Nat.mod_one]
  | succ w ih =>
    have hdigit : (UInt8.ofNat (n / 256 ^ w % 256)).toNat = n / 256 ^ w % 256 := by simp
    have hsplit : n % 256 ^ (w + 1) = 256 ^ w * (n / 256 ^ w % 256) + n % 256 ^ w := by
      rw [pow_succ, Nat.mod_mul]
      exact Nat.add_comm _ _
    rw [toBigEndian, List.foldl_cons, ih, hdigit, hsplit]
    ring

theorem ofBigEndian_toBigEndian {w n : ℕ} (h : n < 256 ^ w) :
    ofBigEndian (toBigEndian w n) = n := by
  rw [ofBigEndian, foldl_toBigEndian, Nat.mod_eq_of_lt h]
  simp

/-- A number of a given width. -/
def bigEndian (w : ℕ) : Codec UInt8 ℕ :=
  (Codec.take w).imap ofBigEndian (fun n ↦ if n < 256 ^ w then some (toBigEndian w n) else none)
    fun n bs h ↦ by
      obtain ⟨hn, rfl⟩ : n < 256 ^ w ∧ toBigEndian w n = bs := by simpa using h
      exact ofBigEndian_toBigEndian hn

/-- How the argument of an item is given: by itself, or in one, two, four or eight bytes. -/
def additionalInfo (n : ℕ) : ℕ :=
  if n < 24 then n else if n < 2 ^ 8 then 24 else if n < 2 ^ 16 then 25 else
    if n < 2 ^ 32 then 26 else 27

theorem additionalInfo_lt (n : ℕ) : additionalInfo n < 32 := by
  unfold additionalInfo
  split_ifs <;> omega

/-- The first byte of an item of a major type. -/
def initialByte (major n : ℕ) : UInt8 := UInt8.ofNat (32 * major + additionalInfo n)

/-- The argument behind a first byte. -/
def argument (major : ℕ) (b : UInt8) : Codec UInt8 ℕ :=
  if b.toNat / 32 = major then
    match b.toNat % 32 with
    | 24 => bigEndian 1
    | 25 => bigEndian 2
    | 26 => bigEndian 4
    | 27 => bigEndian 8
    | i => if i < 24 then Codec.done i else Codec.fail
  else Codec.fail

/-- The head of an item of a major type: its argument. -/
def head (major : ℕ) : Codec UInt8 ℕ :=
  (Codec.one.andThen (argument major)).imap Prod.snd (fun n ↦ some (initialByte major n, n))
    fun n p h ↦ by
      obtain rfl : (initialByte major n, n) = p := by simpa using h
      rfl

/-- A text of ASCII characters. -/
def text : Codec UInt8 String :=
  ((head 3).andThen Codec.take).imap
    (fun p ↦ String.ofList (p.2.map fun b ↦ Char.ofNat b.toNat))
    (fun s ↦ if s.toList.all (·.toNat < 128) then
      some (s.toList.length, s.toList.map fun c ↦ UInt8.ofNat c.toNat) else none)
    fun s p h ↦ by
      obtain ⟨hs, rfl⟩ : (∀ c ∈ s.toList, c.toNat < 128) ∧ _ = p := by simpa using h
      have hchar : ∀ c ∈ s.toList, Char.ofNat (UInt8.ofNat c.toNat).toNat = c := fun c hc ↦ by
        have hlt := hs c hc
        have hnat : (UInt8.ofNat c.toNat).toNat = c.toNat := by
          simp only [UInt8.toNat_ofNat']
          omega
        rw [hnat, Char.ofNat_toNat]
      have hchars : s.toList.map ((fun b : UInt8 ↦ Char.ofNat b.toNat) ∘ fun c ↦
          UInt8.ofNat c.toNat) = s.toList :=
        (List.map_congr_left (g := id) hchar).trans (List.map_id _)
      rw [List.map_map, hchars, String.ofList_toList]

/-- An integer: major type 1 holds the negative ones. -/
def int : Codec UInt8 ℤ :=
  (Codec.one.andThen fun b ↦ if b.toNat / 32 = 1 then argument 1 b else argument 0 b).imap
    (fun p ↦ if p.1.toNat / 32 = 1 then -1 - (p.2 : ℤ) else p.2)
    (fun i ↦ if i < 0 then some (initialByte 1 (-1 - i).toNat, (-1 - i).toNat)
      else some (initialByte 0 i.toNat, i.toNat))
    fun i p h ↦ by
      by_cases hi : i < 0
      · obtain rfl : (initialByte 1 (-1 - i).toNat, (-1 - i).toNat) = p := by simpa [hi] using h
        have hlt := additionalInfo_lt (-1 - i).toNat
        have hb : (initialByte 1 (-1 - i).toNat).toNat / 32 = 1 := by
          simp only [initialByte, UInt8.toNat_ofNat']
          omega
        rw [if_pos hb]
        omega
      · obtain rfl : (initialByte 0 i.toNat, i.toNat) = p := by simpa [hi] using h
        have hlt := additionalInfo_lt i.toNat
        have hb : ¬ (initialByte 0 i.toNat).toNat / 32 = 1 := by
          simp only [initialByte, UInt8.toNat_ofNat']
          omega
        rw [if_neg hb]
        omega

/-- The bytes of a map of a few entries, up to its first key. -/
def mapOf (n : ℕ) (key : String) : Bytes :=
  ((head 5).encode n).getD [] ++ (text.encode key).getD []

/-- A value behind fixed bytes. -/
def behind {M : Type*} (lit : Bytes) (c : Codec UInt8 M) : Codec UInt8 M :=
  ((Codec.literal lit).andThen fun _ ↦ c).imap Prod.snd (fun m ↦ some ((), m)) fun m p h ↦ by
    obtain rfl : ((), m) = p := by simpa using h
    rfl

theorem behind_productive {M : Type*} {lit : Bytes} (hlit : lit ≠ []) (c : Codec UInt8 M) :
    (behind lit c).Productive :=
  (Codec.Productive.andThen (fun _ h ↦ hlit (Option.some.inj h)) _).imap _

/-- The three messages, as the maps the encoder makes of the structures. -/
def rfc8949 : Cbor where
  header := (behind (mapOf 1 "Kind") text).imap HeaderMessage.mk (fun m ↦ some m.kind)
    fun m s h ↦ by obtain rfl : m.kind = s := by simpa using h
                   rfl
  portForward := ((behind (mapOf 2 "Port") int).andThen fun _ ↦
      behind ((text.encode "Key").getD []) text).imap
    (fun p ↦ ⟨p.1, p.2⟩) (fun m ↦ some (m.port, m.key))
    fun m p h ↦ by obtain rfl : (m.port, m.key) = p := by simpa using h
                   rfl
  response := ((behind (mapOf 2 "Code") int).andThen fun _ ↦
      behind ((text.encode "Error").getD []) text).imap
    (fun p ↦ ⟨p.1, p.2⟩) (fun m ↦ some (m.code, m.error))
    fun m p h ↦ by obtain rfl : (m.code, m.error) = p := by simpa using h
                   rfl

example : rfc8949.response.encode .ok =
    some [0xa2, 0x64, 0x43, 0x6f, 0x64, 0x65, 0x01, 0x65, 0x45, 0x72, 0x72, 0x6f, 0x72, 0x60] := by
  decide

end Forward
