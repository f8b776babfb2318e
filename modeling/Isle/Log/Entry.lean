import Isle.Foundation.Digits
import Isle.Forward.Message
import Mathlib.Data.String.Basic
import Mathlib.Order.Fin.Basic

/-!
# Log entries and their ids

The entries of `pkg/clog/entry.go`, the ids they and the shard files are named by, and the names.

Both the ids and the encoding are those of libraries, so they are parameters: `Ulid` is what the log
uses of an id (its text, which sorts as the id does and has no dot; reading the text back; the
milliseconds it was drawn at), and the encoding of entries is a `Codec` of which every entry takes
some bytes. `ulid128` and `cborEntry` are instances, 128-bit ids in their base-32 text and the map
of two fields the encoder makes of an entry.
-/

namespace Log

/-- What the log uses of an id. -/
structure Ulid (Id : Type*) [LinearOrder Id] where
  /-- `ULID.String` -/
  text : Id → String
  /-- `ulid.Parse` -/
  parse : String → Option Id
  /-- `ULID.Time`, in milliseconds. -/
  time : Id → ℕ
  text_lt_text : ∀ {a b : Id}, a < b → text a < text b
  length_text : ∀ id, (text id).length = 26
  dot_notMem_text : ∀ id, '.' ∉ (text id).toList
  parse_text : ∀ id, parse (text id) = some id

/-- The text of a Go string, and what is in a file. -/
abbrev Bytes := List UInt8

/-- `Entry` -/
structure Entry (Id : Type*) where
  timestamp : Id
  data : Bytes
  deriving DecidableEq, Repr

/-! ### Shard names -/

section Names

variable {Id : Type*} [LinearOrder Id] (U : Ulid Id)

/-- The name of the shard with an id, `ts.String()+".clog"`. -/
def shardName (id : Id) : String := U.text id ++ ".clog"

/-- The id `pruneEntries` takes from a name: the text before the first dot, parsed. -/
def diskEntry (name : String) : Option (Id × String) :=
  if '.' ∈ name.toList then
    (U.parse (String.ofList (name.toList.takeWhile (· ≠ '.')))).map fun id ↦ (id, name)
  else none

variable {U}

theorem toList_shardName (id : Id) :
    (shardName U id).toList = (U.text id).toList ++ ['.', 'c', 'l', 'o', 'g'] := by
  rw [shardName, String.toList_append]
  rfl

/-- Names are ordered as their ids are. -/
theorem shardName_lt_shardName {a b : Id} (h : a < b) : shardName U a < shardName U b := by
  have htext := String.lt_iff_toList_lt.1 (U.text_lt_text h)
  rw [String.lt_iff_toList_lt, toList_shardName, toList_shardName]
  have hlen : (U.text a).toList.length = (U.text b).toList.length := by
    rw [String.length_toList, String.length_toList, U.length_text, U.length_text]
  exact append_lt_append_of_lt htext hlen _ _

theorem dot_mem_shardName (id : Id) : '.' ∈ (shardName U id).toList := by
  rw [toList_shardName]
  simp

/-- The text in front of the first dot of a shard's name is that of its id. -/
theorem takeWhile_shardName (id : Id) :
    (shardName U id).toList.takeWhile (· ≠ '.') = (U.text id).toList := by
  have hdot : ∀ c ∈ (U.text id).toList, decide (c ≠ '.') = true := fun c hc ↦
    decide_eq_true fun hc' ↦ U.dot_notMem_text id (hc' ▸ hc)
  rw [toList_shardName, List.takeWhile_append_of_pos hdot]
  simp

theorem diskEntry_shardName (id : Id) :
    diskEntry U (shardName U id) = some (id, shardName U id) := by
  rw [diskEntry, if_pos (dot_mem_shardName id), takeWhile_shardName, String.ofList_toList,
    U.parse_text, Option.map_some]

end Names

/-! ### Ids of 128 bits -/

/-- The digits of the text of an id. -/
def crockford : List Char := "0123456789ABCDEFGHJKMNPQRSTVWXYZ".toList

private theorem crockford_lt : ∀ i : Fin 32, ∀ j : Fin 32, i < j →
    crockford.getD i '0' < crockford.getD j '0' := by decide

private theorem idxOf_crockford : ∀ i : Fin 32, crockford.idxOf (crockford.getD i '0') = i := by
  decide

private theorem dot_ne_crockford : ∀ i : Fin 32, crockford.getD i '0' ≠ '.' := by decide

/-- Ids of 48 bits of milliseconds and 80 bits of entropy, in 26 base-32 digits. -/
def ulid128 : Ulid (Fin (2 ^ 128)) where
  text id := String.ofList ((digits 32 26 id).map fun i ↦ crockford.getD i '0')
  parse s :=
    if h : s.toList.length = 26 ∧
        ofDigits 32 (s.toList.map fun c ↦ crockford.idxOf c) < 2 ^ 128 then some ⟨_, h.2⟩
    else none
  time id := id.val / 2 ^ 80
  text_lt_text := by
    intro a b hab
    rw [String.lt_iff_toList_lt, String.toList_ofList, String.toList_ofList]
    refine map_lt_map (digits_lt_digits hab (b.isLt.trans (by decide))) fun i hi j hj hij ↦ ?_
    exact crockford_lt ⟨i, lt_of_mem_digits (by decide) hi⟩ ⟨j, lt_of_mem_digits (by decide) hj⟩ hij
  length_text id := by
    rw [← String.length_toList, String.toList_ofList, List.length_map, length_digits]
  dot_notMem_text id := by
    rw [String.toList_ofList, List.mem_map]
    rintro ⟨i, hi, hdot⟩
    exact dot_ne_crockford ⟨i, lt_of_mem_digits (by decide) hi⟩ hdot
  parse_text id := by
    have hback : ((digits 32 26 id).map fun i ↦ crockford.getD i '0').map
        (fun c ↦ crockford.idxOf c) = digits 32 26 id := by
      rw [List.map_map]
      refine (List.map_congr_left fun i hi ↦ ?_).trans (List.map_id _)
      exact idxOf_crockford ⟨i, lt_of_mem_digits (by decide) hi⟩
    have hval : ofDigits 32 (digits 32 26 id) = id.val :=
      ofDigits_digits (id.isLt.trans (by decide))
    simp only [String.toList_ofList, hback, hval, List.length_map, length_digits, id.isLt, true_and,
      dite_true, Fin.eta]

/-- The id drawn in a millisecond, with the given entropy. -/
def ulidAt (ms entropy : ℕ) : Fin (2 ^ 128) := Fin.ofNat _ (ms * 2 ^ 80 + entropy)

/-! ### The encoding of entries -/

/-- The map of an entry: the id as 16 bytes, the data as a text. -/
def cborEntry : Codec UInt8 (Entry (Fin (2 ^ 128))) :=
  ((Forward.behind (Forward.mapOf 2 "ts") (Forward.behind [0x50] (Codec.take 16))).andThen fun _ ↦
      Forward.behind ((Forward.text.encode "data").getD [])
        ((Forward.head 3).andThen Codec.take)).imap
    (fun p ↦ ⟨Fin.ofNat _ (Forward.ofBigEndian p.1), p.2.2⟩)
    (fun e ↦ some (Forward.toBigEndian 16 e.timestamp, e.data.length, e.data))
    fun e p h ↦ by
      obtain rfl : (Forward.toBigEndian 16 e.timestamp, e.data.length, e.data) = p := by
        simpa using h
      have hid : Forward.ofBigEndian (Forward.toBigEndian 16 e.timestamp) = e.timestamp :=
        Forward.ofBigEndian_toBigEndian (e.timestamp.isLt.trans_le (by decide))
      rw [hid, Fin.ofNat_eq_cast, Fin.cast_val_eq_self]

theorem cborEntry_productive : cborEntry.Productive :=
  ((Forward.behind_productive (by decide) _).andThen _).imap _

end Log
