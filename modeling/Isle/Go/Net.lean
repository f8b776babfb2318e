import Mathlib.Algebra.Group.Nat.Defs
import Mathlib.Data.List.Basic

/-!
# Addresses

The part of Go's `net`, `encoding/hex` and `encoding/base32` packages that address allocation and
the making of names use: IP addresses as bytes, networks in prefix notation, hardware addresses and
byte strings in their text forms.

Addresses are byte strings, most significant byte first. An IPv4 address is in its **four-byte
form** throughout: `net.IP` also has a sixteen-byte one, but every comparison the callers make
(`Equal`, `Contains`) identifies the two.

A network in CIDR notation is the pair its text denotes — an address, host bits included, and a
prefix length — since `ParseCIDR` inverts the text form. So a value that the source keeps as text
between two calls is an `IPNet` here.
-/

/-- An IP address: four bytes or sixteen. -/
abbrev IP := List UInt8

/-- `To4`: the four bytes of an IPv4 address in either form. -/
def to4 (ip : IP) : Option IP :=
  if ip.length = 4 then some ip
  else if ip.length = 16 ∧ ip.take 12 = [0, 0, 0, 0, 0, 0, 0, 0, 0, 0, 0xFF, 0xFF] then
    some (ip.drop 12)
  else none

/-- `IsLoopback` -/
def isLoopback (ip : IP) : Bool :=
  match to4 ip with
  | some ip4 => ip4.head? = some 127
  | none => ip = [0, 0, 0, 0, 0, 0, 0, 0, 0, 0, 0, 0, 0, 0, 0, 1]

/-- An address together with the length of its network prefix. -/
structure IPNet where
  /-- The address. -/
  ip : IP
  /-- How many leading bits belong to the network. -/
  ones : ℕ
  deriving DecidableEq, Repr

/-! ### Masks -/

/-- The byte whose leading `k` bits are set, for `k ≤ 8`. -/
def prefixMask (k : ℕ) : UInt8 :=
  UInt8.ofNat (256 - 2 ^ (8 - k))

/-- Clear all but the leading `ones` bits of an address. -/
def maskIP : ℕ → IP → IP
  | _, [] => []
  | ones, b :: bs => (b &&& prefixMask (min ones 8)) :: maskIP (ones - 8) bs

@[simp] theorem maskIP_nil (ones : ℕ) : maskIP ones [] = [] := rfl

theorem maskIP_cons (ones : ℕ) (b : UInt8) (bs : IP) :
    maskIP ones (b :: bs) = (b &&& prefixMask (min ones 8)) :: maskIP (ones - 8) bs := rfl

@[simp] theorem prefixMask_zero : prefixMask 0 = 0 := rfl

@[simp] theorem prefixMask_eight : prefixMask 8 = 255 := rfl

@[simp] theorem and_full (b : UInt8) : b &&& 255 = b :=
  UInt8.and_neg_one

namespace IPNet

/-- The network of an address: host bits cleared. The second result of `ParseCIDR`. -/
def network (n : IPNet) : IPNet :=
  { n with ip := maskIP n.ones n.ip }

/-- `Contains`: same length, and equal under the mask. -/
def contains (n : IPNet) (ip : IP) : Bool :=
  ip.length = n.ip.length ∧ maskIP n.ones n.ip = maskIP n.ones ip

end IPNet

/-- Set all but the leading `ones` bits of an address: the broadcast address of its network. -/
def broadcastIP : ℕ → IP → IP
  | _, [] => []
  | ones, b :: bs => (b ||| ~~~ prefixMask (min ones 8)) :: broadcastIP (ones - 8) bs

/-- A mask of whole bytes keeps those and clears the others. -/
theorem maskIP_eight_mul (k : ℕ) (ip : IP) :
    maskIP (8 * k) ip = ip.take k ++ List.replicate (ip.length - k) 0 := by
  induction ip generalizing k with
  | nil => simp
  | cons b bs ih =>
    rcases k with - | k
    · have hzero := ih 0
      rw [Nat.mul_zero] at hzero
      simp [maskIP_cons, hzero, List.replicate_succ]
    · have hmin : min (8 * (k + 1)) 8 = 8 := by omega
      have hsub : 8 * (k + 1) - 8 = 8 * k := by omega
      rw [maskIP_cons, hmin, hsub, ih k]
      simp

/-- A network whose prefix is `k` bytes has the addresses of its length that begin with them. -/
theorem contains_eight_mul {k : ℕ} {ip ip' : IP} :
    IPNet.contains ⟨ip, 8 * k⟩ ip' = true ↔ ip'.length = ip.length ∧ ip'.take k = ip.take k := by
  unfold IPNet.contains
  rw [decide_eq_true_eq]
  constructor
  · rintro ⟨hlen, hmask⟩
    have hlen : ip'.length = ip.length := hlen
    rw [maskIP_eight_mul, maskIP_eight_mul, hlen] at hmask
    exact ⟨hlen, (List.append_cancel_right hmask).symm⟩
  · rintro ⟨hlen, htake⟩
    refine ⟨hlen, ?_⟩
    rw [maskIP_eight_mul, maskIP_eight_mul, hlen, htake]

/-! ### The address after another -/

/-- Add one to an address, with the carry out of its first byte. -/
def addOne : IP → IP × Bool
  | [] => ([], true)
  | b :: bs =>
    if (addOne bs).2 then ((b + 1) :: (addOne bs).1, b == 255)
    else (b :: (addOne bs).1, false)

/-- `NextIP`: the address incremented by one. -/
def nextIP (ip : IP) : IP :=
  (addOne ip).1

theorem addOne_ne_self {ip : IP} (h : ip ≠ []) : (addOne ip).1 ≠ ip := by
  induction ip with
  | nil => exact absurd rfl h
  | cons b bs ih =>
    rw [addOne]
    rcases bs with - | ⟨b', bs⟩
    · simp [addOne]
    · have hne := ih (by simp)
      split <;> exact fun heq ↦ hne (List.cons.inj heq).2

theorem addOne_concat (ip : IP) (d : UInt8) :
    addOne (ip ++ [d]) =
      if d = 255 then ((addOne ip).1 ++ [0], (addOne ip).2) else (ip ++ [d + 1], false) := by
  induction ip with
  | nil =>
    by_cases hd : d = 255
    · subst hd
      rfl
    · simp [addOne, hd]
  | cons b bs ih =>
    rw [List.cons_append, addOne, ih, addOne]
    by_cases hd : d = 255
    · simp only [hd, if_true]
      split <;> rfl
    · simp [hd]

/-! ### Networks with one host byte -/

/-- The address with the given last byte in the network with the given other bytes. -/
def hostOf (p : IP) (x : ℕ) : IP := p ++ [UInt8.ofNat x]

theorem toNat_ofNat_of_le {x : ℕ} (hx : x ≤ 255) : (UInt8.ofNat x).toNat = x := by
  rw [UInt8.toNat_ofNat']
  omega

theorem hostOf_inj {p : IP} {x y : ℕ} (hx : x ≤ 255) (hy : y ≤ 255) :
    hostOf p x = hostOf p y ↔ x = y := by
  constructor
  · intro h
    have hbyte : UInt8.ofNat x = UInt8.ofNat y := by simpa [hostOf] using h
    rw [← toNat_ofNat_of_le hx, hbyte, toNat_ofNat_of_le hy]
  · rintro rfl
    rfl

theorem maskIP_hostOf (p : IP) (x : ℕ) : maskIP (8 * p.length) (hostOf p x) = hostOf p 0 := by
  simp [maskIP_eight_mul, hostOf]

theorem contains_hostOf (p : IP) (x y : ℕ) :
    IPNet.contains ⟨hostOf p x, 8 * p.length⟩ (hostOf p y) = true := by
  simp [contains_eight_mul, hostOf]

theorem nextIP_hostOf {p : IP} {x : ℕ} (hx : x < 255) : nextIP (hostOf p x) = hostOf p (x + 1) := by
  have hne : UInt8.ofNat x ≠ 255 := by
    intro h
    have hnat : (UInt8.ofNat x).toNat = 255 := congrArg UInt8.toNat h
    rw [toNat_ofNat_of_le (by omega)] at hnat
    omega
  rw [nextIP, hostOf, addOne_concat, if_neg hne, hostOf, UInt8.ofNat_add]
  rfl

/-- The address after the last one of a network is outside it. -/
theorem not_contains_nextIP {p : IP} (hp : p ≠ []) (x : ℕ) :
    IPNet.contains ⟨hostOf p x, 8 * p.length⟩ (nextIP (hostOf p 255)) = false := by
  have hnext : nextIP (hostOf p 255) = (addOne p).1 ++ [0] :=
    congrArg Prod.fst ((addOne_concat p 255).trans (if_pos rfl))
  rw [Bool.eq_false_iff, Ne, contains_eight_mul, hnext, hostOf]
  rintro ⟨hlen, htake⟩
  have hlen : (addOne p).1.length = p.length := by simpa using hlen
  rw [List.take_left, ← hlen, List.take_left] at htake
  exact addOne_ne_self hp htake

/-! ### Slices -/

/-- `copy(dst[off:], src)`: as many bytes as both sides have room for. -/
def copyAt (dst : List UInt8) (off : ℕ) (src : List UInt8) : List UInt8 :=
  dst.take off ++ src.take (dst.length - off) ++ dst.drop (off + src.length)

/-- Copying over a part of the same length. -/
theorem copyAt_middle {x y z w : List UInt8} (h : w.length = y.length) :
    copyAt (x ++ y ++ z) x.length w = x ++ w ++ z := by
  have htake : (x ++ y ++ z).take x.length = x := by
    rw [List.append_assoc, List.take_left]
  have hdrop : (x ++ y ++ z).drop (x.length + w.length) = z := by
    rw [h, ← List.length_append, List.drop_left]
  have hroom : w.length ≤ (x ++ y ++ z).length - x.length := by
    simp only [List.length_append]
    omega
  rw [copyAt, htake, hdrop, List.take_of_length_le hroom]

/-! ### Hexadecimal text -/

/-- The value of a hexadecimal digit, in either case. -/
def hexDigit (c : Char) : Option UInt8 :=
  if '0' ≤ c ∧ c ≤ '9' then some (UInt8.ofNat (c.toNat - 48))
  else if 'a' ≤ c ∧ c ≤ 'f' then some (UInt8.ofNat (c.toNat - 87))
  else if 'A' ≤ c ∧ c ≤ 'F' then some (UInt8.ofNat (c.toNat - 55))
  else none

/-- `hex.DecodeString`: an even number of digits. -/
def hexDecode : List Char → Option (List UInt8)
  | [] => some []
  | [_] => none
  | a :: b :: rest => do
    let hi ← hexDigit a
    let lo ← hexDigit b
    let bs ← hexDecode rest
    return (16 * hi + lo) :: bs

/-- The lower-case digit of a value below sixteen. -/
def hexChar (n : ℕ) : Char :=
  if n < 10 then Char.ofNat (48 + n) else Char.ofNat (87 + n)

theorem hexDigit_hexChar : ∀ n < 16, hexDigit (hexChar n) = some (UInt8.ofNat n) := by decide

/-- A byte is read back from its two digits. -/
theorem byte_of_digits (b : UInt8) :
    16 * UInt8.ofNat (b.toNat / 16) + UInt8.ofNat (b.toNat % 16) = b := by
  have hb := b.toNat_lt
  apply UInt8.toNat_inj.1
  simp only [UInt8.toNat_add, UInt8.toNat_mul, UInt8.toNat_ofNat', UInt8.reduceToNat]
  omega

/-- `hex.EncodeToString`. -/
def hexEncode (bs : List UInt8) : List Char :=
  bs.flatMap fun b ↦ [hexChar (b.toNat / 16), hexChar (b.toNat % 16)]

theorem hexDecode_hexEncode (bs : List UInt8) : hexDecode (hexEncode bs) = some bs := by
  induction bs with
  | nil => rfl
  | cons b bs ih =>
    have hb := b.toNat_lt
    have hhi := hexDigit_hexChar (b.toNat / 16) (by omega)
    have hlo := hexDigit_hexChar (b.toNat % 16) (by omega)
    rw [hexEncode, List.flatMap_cons]
    change hexDecode (_ :: _ :: hexEncode bs) = _
    rw [hexDecode, hhi, hlo, ih]
    simp [byte_of_digits]

/-! ### Base 32 -/

/-- The standard alphabet: the capital letters and the digits from two to seven. -/
def base32Char (n : ℕ) : Char :=
  if n < 26 then Char.ofNat (65 + n) else Char.ofNat (24 + n)

/-- The eight characters of one to five bytes, filled up with `=`. -/
def base32Group (g : List UInt8) : List Char :=
  let n := (g ++ List.replicate (5 - g.length) 0).foldl (fun n (b : UInt8) ↦ 256 * n + b.toNat) 0
  let used := (8 * g.length + 4) / 5
  ((List.range used).map fun i ↦ base32Char (n / 32 ^ (7 - i) % 32)) ++
    List.replicate (8 - used) '='

/-- `base32.StdEncoding.EncodeToString`. -/
def base32Encode : List UInt8 → List Char
  | a :: b :: c :: d :: e :: rest => base32Group [a, b, c, d, e] ++ base32Encode rest
  | [] => []
  | g => base32Group g

theorem base32Group_ne_nil {g : List UInt8} (hg : g ≠ []) : base32Group g ≠ [] := by
  intro hnil
  have hpos := List.length_pos_of_ne_nil hg
  have hlen := congrArg List.length hnil
  simp only [base32Group, List.length_append, List.length_map, List.length_range,
    List.length_replicate, List.length_nil] at hlen
  omega

theorem base32Encode_ne_nil {bs : List UInt8} (hbs : bs ≠ []) : base32Encode bs ≠ [] := by
  fun_cases base32Encode bs with
  | case1 a b c d e rest => simp [base32Group_ne_nil (List.cons_ne_nil a [b, c, d, e])]
  | case2 => exact absurd rfl hbs
  | case3 => exact base32Group_ne_nil hbs

example : base32Encode [102, 111, 111, 98, 97, 114] = "MZXW6YTBOI======".toList := by decide

/-! ### Hardware addresses -/

/-- Two hexadecimal digits; what follows them, if anything, has to be the separator `e`. -/
def xtoi2 (s : List Char) (e : Option Char) : Option UInt8 :=
  match s with
  | a :: b :: rest =>
    if rest ≠ [] ∧ rest.head? ≠ e then none
    else do
      let hi ← hexDigit a
      let lo ← hexDigit b
      return 16 * hi + lo
  | _ => none

/-- `n` bytes of two digits each, with a separator between any two. -/
def macPairs (sep : Char) : ℕ → List Char → Option (List UInt8)
  | 0, _ => some []
  | n + 1, s => do
    let b ← xtoi2 s (some sep)
    let bs ← macPairs sep n (s.drop 3)
    return b :: bs

/-- `n` groups of four digits each, with a separator between any two. -/
def macQuads (sep : Char) : ℕ → List Char → Option (List UInt8)
  | 0, _ => some []
  | n + 1, s => do
    let hi ← xtoi2 (s.take 2) none
    let lo ← xtoi2 (s.drop 2) (some sep)
    let bs ← macQuads sep n (s.drop 5)
    return hi :: lo :: bs

/-- The number of bytes a hardware address may have. -/
def IsMACLength (n : ℕ) : Prop :=
  n = 6 ∨ n = 8 ∨ n = 20

instance (n : ℕ) : Decidable (IsMACLength n) :=
  inferInstanceAs (Decidable (n = 6 ∨ n = 8 ∨ n = 20))

/-- `ParseMAC`: pairs of digits separated by colons or hyphens, or groups of four separated by
dots. -/
def parseMAC (s : String) : Option (List UInt8) :=
  let cs := s.toList
  if cs.length < 14 then none
  else if cs[2]? = some ':' ∨ cs[2]? = some '-' then
    let n := (cs.length + 1) / 3
    if (cs.length + 1) % 3 = 0 ∧ IsMACLength n then macPairs (cs[2]?.getD ':') n cs else none
  else if cs[4]? = some '.' then
    let n := 2 * (cs.length + 1) / 5
    if (cs.length + 1) % 5 = 0 ∧ IsMACLength n then macQuads '.' (n / 2) cs else none
  else none

example : parseMAC "02:42:ac:16:01:02" = some [2, 66, 172, 22, 1, 2] := by decide

example : parseMAC "0242.ac16.0102" = some [2, 66, 172, 22, 1, 2] := by decide

example : parseMAC "02:42:ac:16:01" = none := by decide
