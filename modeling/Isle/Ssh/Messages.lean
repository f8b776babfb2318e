import Isle.Go.Text
import Isle.Ssh.Mpint

/-!
# The messages of SSH

`Marshal`, `Unmarshal` and `decode` of `pkg/crypto/ssh/messages.go`. The source finds out about a
structure by reflection; here a structure is a list of fields, each with a name and a `Kind`, and a
value of it is a value for each (`Struct`). The numbers in the `sshtype` tag of its first field are
`tags`, and a `[]byte` with the tag `ssh:"rest"` is a kind of its own.

A message is not always read as it was written. A list of names is joined by commas and split at
them, so a name with a comma arrives as several, and the list of one empty name as an empty list:
`Struct.normalize` is the message that arrives (`unmarshal_marshal`). Every message that is read
from anything at all is one of those that arrive as they are (`unmarshal_spec`).
-/

namespace Ssh

open Forward (toBigEndian ofBigEndian length_toBigEndian ofBigEndian_toBigEndian)

/-! ### Structures -/

/-- The types of fields that both directions know. -/
inductive Kind
  | bool
  /-- `[n]byte` -/
  | array (n : ℕ)
  | uint64
  | uint32
  | uint8
  | string
  /-- `[]byte` -/
  | bytes
  /-- `[]byte`, with the tag `ssh:"rest"`. -/
  | rest
  /-- `[]string` -/
  | nameList
  /-- `*big.Int` -/
  | bigInt
  deriving DecidableEq, Repr

/-- The values of a field. A string is its bytes. -/
abbrev Kind.Value : Kind → Type
  | bool => Bool
  | array n => List.Vector UInt8 n
  | uint64 => UInt64
  | uint32 => UInt32
  | uint8 => UInt8
  | string | bytes | rest => Bytes
  | nameList => List Bytes
  | bigInt => ℤ

/-- A field of a structure. -/
structure Field where
  name : String
  kind : Kind
  deriving DecidableEq, Repr

/-- The type of a structure. It has a field: `typeTags` looks at the tag of the first, and panics
where there is none. -/
structure StructType where
  name : String
  /-- The numbers in the tag of the first field. -/
  tags : Bytes
  first : Field
  others : List Field
  deriving DecidableEq, Repr

/-- The fields in the order in which they are declared. -/
abbrev StructType.fields (t : StructType) : List Field := t.first :: t.others

/-- A value for each field. -/
def Struct : List Field → Type
  | [] => Unit
  | f :: fs => f.kind.Value × Struct fs

/-! ### Writing -/

/-- `appendInt` with the length of what follows. -/
def appendString (s : Bytes) : Bytes := putUint32 s.length ++ s

/-- What is between the names of a list. -/
def comma : UInt8 := 44

/-- What a list of names is on the wire, without the length. -/
def joinNames (names : List Bytes) : Bytes := [comma].intercalate names

/-- A field, as `marshalStruct` appends it. -/
def marshalField : (k : Kind) → k.Value → Bytes
  | .bool, (v : Bool) => [if v then 1 else 0]
  | .array _, v => v.toList
  | .uint64, (v : UInt64) => toBigEndian 8 v.toNat
  | .uint32, (v : UInt32) => putUint32 v.toNat
  | .uint8, (v : UInt8) => [v]
  | .string, v | .bytes, v => appendString v
  | .rest, v => v
  | .nameList, v => appendString (joinNames v)
  | .bigInt, v => marshalInt v

/-- The fields one after the other. -/
def marshalFields : (fs : List Field) → Struct fs → Bytes
  | [], _ => []
  | f :: fs, (v, vs) => marshalField f.kind v ++ marshalFields fs vs

/-- `Marshal`: the first of the types that the message may have, and its fields. -/
def marshal (t : StructType) (m : Struct t.fields) : Bytes :=
  t.tags.take 1 ++ marshalFields t.fields m

/-! ### Reading -/

/-- The error for a packet that does not have the fields of its message. -/
def parseError (tag : UInt8) : String := "ssh: parse error in message type " ++ toString tag.toNat

/-- The error for a packet of another message than the one that is expected. -/
def unexpectedMessageError (expected got : UInt8) : String :=
  "ssh: unexpected message type " ++ toString got.toNat ++ " (expected " ++
    toString expected.toNat ++ ")"

/-- The error for a packet that ends too early. -/
def errShortRead : String := "ssh: short read"

/-- `fieldError` without a problem, the others being for types that are not among the kinds. -/
def fieldError (struct field : String) : String :=
  "ssh: unmarshal error for field " ++ field ++ " of type " ++ struct

/-- A `[]byte` under `%v`. -/
def showTags (tags : Bytes) : String :=
  "[" ++ " ".intercalate (tags.map fun t ↦ toString t.toNat) ++ "]"

namespace Messages

/-- `parseString`. The number of bytes that are there is compared in 32 bits. -/
def parseString (buf : Bytes) : Option (Bytes × Bytes) :=
  if buf.length < 4 then none
  else
    let length := getUint32 buf
    let buf := buf.drop 4
    if buf.length % 2 ^ 32 < length then none
    else some (buf.take length, buf.drop length)

/-- The names of a list. A list of no bytes has no names. -/
def parseNameList (buf : Bytes) : Option (List Bytes × Bytes) :=
  (parseString buf).map fun (contents, rest) ↦
    (if contents = [] then [] else Text.split comma contents, rest)

/-- A number of any size. -/
def parseInt (buf : Bytes) : Option (ℤ × Bytes) :=
  (parseString buf).map fun (contents, rest) ↦ (ofTwosComplement contents, rest)

/-- A field, as `Unmarshal` takes it from the front. -/
def parseField : (k : Kind) → Bytes → Option (k.Value × Bytes)
  | .bool, data => data.head?.map fun b ↦ (b != 0, data.tail)
  | .array n, data =>
    if h : n ≤ data.length then some (⟨data.take n, List.length_take_of_le h⟩, data.drop n)
    else none
  | .uint64, data =>
    if data.length < 8 then none
    else some (UInt64.ofNat (ofBigEndian (data.take 8)), data.drop 8)
  | .uint32, data =>
    if data.length < 4 then none else some (UInt32.ofNat (getUint32 data), data.drop 4)
  | .uint8, data => data.head?.map fun b ↦ (b, data.tail)
  | .string, data | .bytes, data => parseString data
  | .rest, data => some (data, [])
  | .nameList, data => parseNameList data
  | .bigInt, data => parseInt data

end Messages

open Messages

/-- The error for a field that cannot be taken. -/
def shortError (struct : String) (f : Field) : String :=
  match f.kind with
  | .string => fieldError struct f.name
  | _ => errShortRead

/-- The fields are read in their order, each from where the one before it ends. -/
def unmarshalFields (struct : String) :
    (fs : List Field) → Bytes → Except String (Struct fs × Bytes)
  | [], data => .ok ((), data)
  | f :: fs, data =>
    match parseField f.kind data with
    | none => .error (shortError struct f)
    | some (v, data) => (unmarshalFields struct fs data).map fun (vs, data) ↦ ((v, vs), data)

/-- `Unmarshal`: the type must be one of those of the message, and every byte one of a field. -/
def unmarshal (t : StructType) (data : Bytes) : Except String (Struct t.fields) :=
  let expectedType := t.tags.headD 0
  match data with
  | [] => .error (parseError expectedType)
  | b :: rest =>
    if t.tags ≠ [] ∧ (t.tags.any fun e ↦ 0 < e && b == e) = false then
      .error ("ssh: unexpected message type " ++ toString b.toNat ++ " (expected one of " ++
        showTags t.tags ++ ")")
    else
      match unmarshalFields t.name t.fields (if t.tags = [] then b :: rest else rest) with
      | .error e => .error e
      | .ok (m, left) => if left ≠ [] then .error (parseError expectedType) else .ok m

/-! ### Fields survive -/

namespace Messages

theorem parseString_appendString {s rest : Bytes} (h : (appendString s ++ rest).length < 2 ^ 32) :
    parseString (appendString s ++ rest) = some (s, rest) := by
  simp only [appendString, List.length_append, length_putUint32] at h
  have hlen : ¬ (appendString s ++ rest).length < 4 := by
    simp only [appendString, List.length_append, length_putUint32]
    omega
  have hget : getUint32 (appendString s ++ rest) = s.length := by
    rw [appendString, List.append_assoc, getUint32_putUint32_append (by omega)]
  have hdrop : (appendString s ++ rest).drop 4 = s ++ rest := by
    rw [appendString, List.append_assoc, List.drop_left' (length_putUint32 _)]
  have hle : ¬ (s ++ rest).length % 2 ^ 32 < s.length := by
    rw [List.length_append, Nat.mod_eq_of_lt (by omega)]
    omega
  simp only [parseString, if_neg hlen, hget, hdrop, if_neg hle, List.take_left, List.drop_left]

/-- What is taken is the string with its length. -/
theorem length_of_parseString {buf s rest : Bytes} (h : parseString buf = some (s, rest)) :
    4 + s.length + rest.length = buf.length := by
  simp only [parseString] at h
  split_ifs at h with hlen hle
  obtain ⟨rfl, rfl⟩ := Prod.mk.inj (Option.some.inj h)
  have hmod := Nat.mod_le (buf.drop 4).length (2 ^ 32)
  have hdrop : (buf.drop 4).length = buf.length - 4 := List.length_drop
  rw [List.length_take_of_le (by omega), Nat.add_assoc, List.length_drop]
  omega

end Messages

/-- What a list of names arrives as. -/
def normalizeNames (names : List Bytes) : List Bytes :=
  if joinNames names = [] then [] else Text.split comma (joinNames names)

/-- A value as it comes out of its own encoding. -/
def normalizeValue : (k : Kind) → k.Value → k.Value
  | .nameList, names => normalizeNames names
  | .bool, v | .array _, v | .uint64, v | .uint32, v | .uint8, v | .string, v | .bytes, v
  | .rest, v | .bigInt, v => v

/-- What a message arrives as. -/
def Struct.normalize : {fs : List Field} → Struct fs → Struct fs
  | [], m => m
  | f :: _, (v, vs) => (normalizeValue f.kind v, normalize vs)

/-- **The lists that arrive as they are** have no name with a comma, and are not the list of one
empty name. -/
theorem normalizeNames_eq_iff {names : List Bytes} :
    normalizeNames names = names ↔ (∀ name ∈ names, comma ∉ name) ∧ names ≠ [[]] := by
  unfold normalizeNames
  constructor
  · intro h
    split_ifs at h with hjoin
    · subst h
      exact ⟨fun name hname ↦ absurd hname List.not_mem_nil, by decide⟩
    · refine ⟨fun name hname ↦ ?_, ?_⟩
      · rw [← h] at hname
        exact Text.not_mem_of_mem_split hname
      · rintro rfl
        exact hjoin rfl
  · rintro ⟨hcomma, hne⟩
    rcases eq_or_ne names [] with rfl | hnil
    · rfl
    have hsplit : Text.split comma (joinNames names) = names :=
      List.splitOn_intercalate comma hcomma hnil
    have hjoin : joinNames names ≠ [] := fun hjoin ↦ by
      rw [hjoin] at hsplit
      exact hne hsplit.symm
    rw [if_neg hjoin, hsplit]

/-- The names in the lists of a message survive. -/
def Struct.NamesSurvive : {fs : List Field} → Struct fs → Prop
  | [], _ => True
  | ⟨_, .nameList⟩ :: _, (names, vs) =>
    ((∀ name ∈ names, comma ∉ name) ∧ names ≠ [[]]) ∧ NamesSurvive vs
  | _ :: _, (_, vs) => NamesSurvive vs

variable {fs : List Field} {t : StructType} {b : UInt8}

theorem Struct.normalize_eq_iff {m : Struct fs} : m.normalize = m ↔ m.NamesSurvive := by
  induction fs with
  | nil => exact iff_of_true rfl trivial
  | cons f fs ih =>
    obtain ⟨name, kind⟩ := f
    obtain ⟨v, vs⟩ := m
    refine Prod.ext_iff.trans ?_
    show normalizeValue kind v = v ∧ vs.normalize = vs ↔ _
    rw [ih]
    cases kind with
    | nameList => exact and_congr_left' normalizeNames_eq_iff
    | _ => exact and_iff_right rfl

theorem joinNames_split (contents : Bytes) :
    joinNames (Text.split comma contents) = contents := List.intercalate_splitOn comma

theorem normalizeNames_split (contents : Bytes) :
    normalizeNames (if contents = [] then [] else Text.split comma contents) =
      if contents = [] then [] else Text.split comma contents := by
  split_ifs with h
  · rfl
  · rw [normalizeNames, joinNames_split, if_neg h]

namespace Messages

theorem length_appendString_le {s rest buf : Bytes} (h : 4 + s.length + rest.length = buf.length) :
    (appendString s).length + rest.length ≤ buf.length := by
  rw [appendString, List.length_append, length_putUint32, h]

/-- A field is read as what it arrives as, and leaves what follows it. -/
theorem parseField_marshalField (k : Kind) (hk : k ≠ .rest) (v : k.Value) (rest : Bytes)
    (h : (marshalField k v ++ rest).length < 2 ^ 32) :
    parseField k (marshalField k v ++ rest) = some (normalizeValue k v, rest) := by
  cases k with
  | bool => cases v <;> rfl
  | array n =>
    obtain ⟨v, rfl⟩ := v
    have hle : v.length ≤ (v ++ rest).length := by rw [List.length_append]; omega
    simp only [parseField, marshalField, List.Vector.toList, dif_pos hle, List.take_left,
      List.drop_left, normalizeValue]
  | uint64 =>
    have hlen : (toBigEndian 8 v.toNat).length = 8 := length_toBigEndian _ _
    have hval : ofBigEndian (toBigEndian 8 v.toNat) = v.toNat :=
      ofBigEndian_toBigEndian v.toNat_lt
    simp only [parseField, marshalField, List.length_append, hlen,
      if_neg (Nat.not_lt.2 (Nat.le_add_right 8 _)), List.take_left' hlen, List.drop_left' hlen,
      hval, normalizeValue]
    rw [UInt64.ofNat_toNat]
  | uint32 =>
    have hlen := length_putUint32 v.toNat
    simp only [parseField, marshalField, List.length_append, hlen,
      if_neg (Nat.not_lt.2 (Nat.le_add_right 4 _)), getUint32_putUint32_append v.toNat_lt,
      List.drop_left' hlen, normalizeValue]
    rw [UInt32.ofNat_toNat]
  | uint8 => rfl
  | string | bytes => exact parseString_appendString h
  | rest => exact absurd rfl hk
  | nameList =>
    rw [parseField, marshalField, parseNameList, parseString_appendString h]
    rfl
  | bigInt =>
    rw [parseField, marshalField, parseInt, show marshalInt v = appendString _ from rfl,
      parseString_appendString h]
    exact congrArg (fun n ↦ some (n, rest)) (ofTwosComplement_twosComplement v)

/-- What is read from anything arrives as it is, and is written in no more bytes. -/
theorem parseField_spec {k : Kind} {data rest : Bytes} {v : k.Value}
    (h : parseField k data = some (v, rest)) :
    normalizeValue k v = v ∧ (marshalField k v).length + rest.length ≤ data.length := by
  cases k with
  | bool | uint8 =>
    rcases data with - | ⟨b, data⟩
    · cases h
    · cases h
      exact ⟨rfl, Nat.le_of_eq (Nat.add_comm _ _)⟩
  | array n =>
    simp only [parseField] at h
    split_ifs at h with hle
    cases h
    refine ⟨rfl, ?_⟩
    simp only [marshalField, List.Vector.toList, List.length_take, List.length_drop]
    omega
  | uint64 =>
    simp only [parseField] at h
    split_ifs at h with hle
    cases h
    refine ⟨rfl, ?_⟩
    rw [marshalField, length_toBigEndian, List.length_drop]
    omega
  | uint32 =>
    simp only [parseField] at h
    split_ifs at h with hle
    cases h
    refine ⟨rfl, ?_⟩
    rw [marshalField, length_putUint32, List.length_drop]
    omega
  | string | bytes => exact ⟨rfl, length_appendString_le (length_of_parseString h)⟩
  | rest =>
    cases h
    exact ⟨rfl, Nat.le_refl _⟩
  | nameList =>
    obtain ⟨⟨contents, rest'⟩, hparse, heq⟩ := Option.map_eq_some_iff.1 h
    cases heq
    refine ⟨normalizeNames_split contents, ?_⟩
    -- the empty text is the list without names, where `split` gives one empty name
    have hjoin :
        joinNames (if contents = [] then [] else Text.split comma contents) = contents := by
      split_ifs with hnil
      · exact hnil.symm
      · exact joinNames_split contents
    show (appendString (joinNames _)).length + rest.length ≤ data.length
    rw [hjoin]
    exact length_appendString_le (length_of_parseString hparse)
  | bigInt =>
    obtain ⟨⟨contents, rest'⟩, hparse, heq⟩ := Option.map_eq_some_iff.1 h
    cases heq
    refine ⟨rfl, ?_⟩
    have hlen := length_of_parseString hparse
    have hle := length_twosComplement_le contents
    show (marshalInt _).length + rest.length ≤ data.length
    rw [marshalInt, List.length_append, length_putUint32]
    omega

end Messages

/-! ### Structures survive -/

/-- A structure that can be read: it has a number, and no field behind one that takes the rest. -/
structure StructType.WellFormed (t : StructType) : Prop where
  tag_pos : 0 < t.tags.headD 0
  rest_last : ∀ f ∈ t.fields.dropLast, f.kind ≠ .rest

instance (t : StructType) : Decidable t.WellFormed :=
  decidable_of_iff (0 < t.tags.headD 0 ∧ ∀ f ∈ t.fields.dropLast, f.kind ≠ .rest)
    ⟨fun ⟨h, h'⟩ ↦ ⟨h, h'⟩, fun ⟨h, h'⟩ ↦ ⟨h, h'⟩⟩

/-- A structure arrives, up to what its name lists lose. -/
theorem unmarshalFields_marshalFields (struct : String) (hrest : ∀ f ∈ fs.dropLast, f.kind ≠ .rest)
    (m : Struct fs) (h : (marshalFields fs m).length < 2 ^ 32) :
    unmarshalFields struct fs (marshalFields fs m) = .ok (m.normalize, []) := by
  induction fs with
  | nil => rfl
  | cons f fs ih =>
    obtain ⟨v, vs⟩ := m
    have hfield : parseField f.kind (marshalField f.kind v ++ marshalFields fs vs) =
        some (normalizeValue f.kind v, marshalFields fs vs) := by
      by_cases hk : f.kind = .rest
      · -- it is the last
        have hnil : fs = [] := by
          by_contra hne
          exact hrest f (by rw [List.dropLast_cons_of_ne_nil hne]; exact List.mem_cons_self) hk
        subst hnil
        obtain ⟨name, kind⟩ := f
        subst hk
        exact congrArg (fun bs ↦ some (bs, [])) (List.append_nil v)
      · exact parseField_marshalField f.kind hk v _ h
    have htail : ∀ g ∈ fs.dropLast, g.kind ≠ .rest := by
      intro g hg
      rcases fs with - | ⟨g', fs⟩
      · cases hg
      · exact hrest g (List.mem_cons_of_mem _ hg)
    have hlen : (marshalFields fs vs).length < 2 ^ 32 := by
      rw [marshalFields, List.length_append] at h
      omega
    rw [marshalFields, unmarshalFields, hfield]
    dsimp only
    rw [ih htail vs hlen]
    rfl

/-- **Every message arrives**, as what it arrives as. -/
theorem unmarshal_marshal (ht : t.WellFormed) (m : Struct t.fields)
    (h : (marshal t m).length < 2 ^ 32) : unmarshal t (marshal t m) = .ok m.normalize := by
  obtain ⟨htag, hrest⟩ := ht
  rcases htags : t.tags with - | ⟨tag, tags⟩
  · rw [htags] at htag
    exact absurd htag (by decide)
  have hmarshal : marshal t m = tag :: marshalFields t.fields m := by
    rw [marshal, htags]
    rfl
  have hgood : (t.tags.any fun e ↦ 0 < e && tag == e) = true := by
    rw [htags] at htag ⊢
    simpa using Or.inl htag
  have hlen : (marshalFields t.fields m).length < 2 ^ 32 := by
    rw [hmarshal, List.length_cons] at h
    omega
  have hne : t.tags ≠ [] := by
    rw [htags]
    exact List.cons_ne_nil _ _
  rw [hmarshal]
  simp only [unmarshal, hgood, Bool.true_eq_false, and_false, if_false, if_neg hne,
    unmarshalFields_marshalFields t.name hrest m hlen, ne_eq, not_true_eq_false]

/-- What was read arrives as it is, in no more bytes. -/
theorem unmarshalFields_spec {struct : String} {data left : Bytes} {m : Struct fs}
    (h : unmarshalFields struct fs data = .ok (m, left)) :
    m.normalize = m ∧ (marshalFields fs m).length + left.length ≤ data.length := by
  induction fs generalizing data with
  | nil =>
    cases h
    exact ⟨rfl, Nat.le_of_eq (Nat.zero_add _)⟩
  | cons f fs ih =>
    rw [unmarshalFields] at h
    rcases hfield : parseField f.kind data with - | ⟨v, rest⟩
    · rw [hfield] at h
      cases h
    · rw [hfield] at h
      dsimp only at h
      rcases hfields : unmarshalFields struct fs rest with e | ⟨vs, left'⟩
      · rw [hfields] at h
        cases h
      · rw [hfields] at h
        cases h
        obtain ⟨hv, hvlen⟩ := parseField_spec hfield
        obtain ⟨hvs, hvslen⟩ := ih hfields
        dsimp only at hvslen
        refine ⟨Prod.ext hv hvs, ?_⟩
        show (marshalField f.kind v ++ marshalFields fs vs).length + left'.length ≤ data.length
        rw [List.length_append]
        omega

/-- What is read from anything arrives as it is, and is written in no more bytes. -/
theorem unmarshal_spec {data : Bytes} {m : Struct t.fields} (h : unmarshal t data = .ok m) :
    m.normalize = m ∧ (marshal t m).length ≤ data.length := by
  rcases data with - | ⟨b, rest⟩
  · cases h
  rw [unmarshal] at h
  by_cases htag : t.tags ≠ [] ∧ (t.tags.any fun e ↦ 0 < e && b == e) = false
  · rw [if_pos htag] at h
    cases h
  rw [if_neg htag] at h
  rcases hfields : unmarshalFields t.name t.fields (if t.tags = [] then b :: rest else rest)
    with e | ⟨m', left⟩
  · rw [hfields] at h
    cases h
  rw [hfields] at h
  dsimp only at h
  split_ifs at h with hleft
  cases h
  obtain ⟨hm, hlen⟩ := unmarshalFields_spec hfields
  refine ⟨hm, ?_⟩
  rw [marshal, List.length_append, List.length_take]
  rcases hnil : t.tags with - | ⟨tag, tags⟩
  · rw [if_pos hnil] at hlen
    simp only [List.length_nil, Nat.min_zero, Nat.zero_add]
    omega
  · rw [if_neg (by rw [hnil]; exact List.cons_ne_nil _ _)] at hlen
    rw [List.length_cons, List.length_cons]
    omega

/-! ### The messages -/

/-- An end gives up the connection, and says why. -/
def disconnectMsg : StructType :=
  ⟨"disconnectMsg", [1], ⟨"Reason", .uint32⟩, [⟨"Message", .string⟩, ⟨"Language", .string⟩]⟩

/-- The algorithms of one end, by kind and direction and in the order of its preference. -/
def kexInitMsg : StructType :=
  ⟨"kexInitMsg", [20], ⟨"Cookie", .array 16⟩, [⟨"KexAlgos", .nameList⟩,
    ⟨"ServerHostKeyAlgos", .nameList⟩, ⟨"CiphersClientServer", .nameList⟩,
    ⟨"CiphersServerClient", .nameList⟩, ⟨"MACsClientServer", .nameList⟩,
    ⟨"MACsServerClient", .nameList⟩, ⟨"CompressionClientServer", .nameList⟩,
    ⟨"CompressionServerClient", .nameList⟩, ⟨"LanguagesClientServer", .nameList⟩,
    ⟨"LanguagesServerClient", .nameList⟩, ⟨"FirstKexFollows", .bool⟩, ⟨"Reserved", .uint32⟩]⟩

/-- The public value of the client. -/
def kexDHInitMsg : StructType := ⟨"kexDHInitMsg", [30], ⟨"X", .bigInt⟩, []⟩

/-- The host key, the public value of the server, and the signature of both ends' exchange. -/
def kexDHReplyMsg : StructType :=
  ⟨"kexDHReplyMsg", [31], ⟨"HostKey", .bytes⟩, [⟨"Y", .bigInt⟩, ⟨"Signature", .bytes⟩]⟩

/-- A service is asked for by its name. -/
def serviceRequestMsg : StructType := ⟨"serviceRequestMsg", [5], ⟨"Service", .string⟩, []⟩

/-- The service is there. -/
def serviceAcceptMsg : StructType := ⟨"serviceAcceptMsg", [6], ⟨"Service", .string⟩, []⟩

/-- A user tries a method, with what the method needs behind its name. -/
def userAuthRequestMsg : StructType :=
  ⟨"userAuthRequestMsg", [50], ⟨"User", .string⟩, [⟨"Service", .string⟩, ⟨"Method", .string⟩,
    ⟨"Payload", .rest⟩]⟩

/-- The methods that can go on. -/
def userAuthFailureMsg : StructType :=
  ⟨"userAuthFailureMsg", [51], ⟨"Methods", .nameList⟩, [⟨"PartialSuccess", .bool⟩]⟩

/-- A key would do. -/
def userAuthPubKeyOkMsg : StructType :=
  ⟨"userAuthPubKeyOkMsg", [60], ⟨"Algo", .string⟩, [⟨"PubKey", .bytes⟩]⟩

/-- A request that is about no channel. -/
def globalRequestMsg : StructType :=
  ⟨"globalRequestMsg", [80], ⟨"Type", .string⟩, [⟨"WantReply", .bool⟩, ⟨"Data", .rest⟩]⟩

/-- It was granted. -/
def globalRequestSuccessMsg : StructType := ⟨"globalRequestSuccessMsg", [81], ⟨"Data", .rest⟩, []⟩

/-- It was not. -/
def globalRequestFailureMsg : StructType := ⟨"globalRequestFailureMsg", [82], ⟨"Data", .rest⟩, []⟩

/-- A channel, with the number, window and packet size of the end that opens it. -/
def channelOpenMsg : StructType :=
  ⟨"channelOpenMsg", [90], ⟨"ChanType", .string⟩, [⟨"PeersID", .uint32⟩, ⟨"PeersWindow", .uint32⟩,
    ⟨"MaxPacketSize", .uint32⟩, ⟨"TypeSpecificData", .rest⟩]⟩

/-- The same of the end that accepts it. -/
def channelOpenConfirmMsg : StructType :=
  ⟨"channelOpenConfirmMsg", [91], ⟨"PeersID", .uint32⟩, [⟨"MyID", .uint32⟩, ⟨"MyWindow", .uint32⟩,
    ⟨"MaxPacketSize", .uint32⟩, ⟨"TypeSpecificData", .rest⟩]⟩

/-- The channel is not opened. -/
def channelOpenFailureMsg : StructType :=
  ⟨"channelOpenFailureMsg", [92], ⟨"PeersID", .uint32⟩, [⟨"Reason", .uint32⟩, ⟨"Message", .string⟩,
    ⟨"Language", .string⟩]⟩

/-- Room for more bytes on a channel. -/
def windowAdjustMsg : StructType :=
  ⟨"windowAdjustMsg", [93], ⟨"PeersID", .uint32⟩, [⟨"AdditionalBytes", .uint32⟩]⟩

/-- Bytes on a channel. The length is a field of its own, so the bytes are the rest. -/
def channelDataMsg : StructType :=
  ⟨"channelDataMsg", [94], ⟨"PeersID", .uint32⟩, [⟨"Length", .uint32⟩, ⟨"Rest", .rest⟩]⟩

/-- There is no more data on a channel. -/
def channelEOFMsg : StructType := ⟨"channelEOFMsg", [96], ⟨"PeersID", .uint32⟩, []⟩

/-- A channel is closed. -/
def channelCloseMsg : StructType := ⟨"channelCloseMsg", [97], ⟨"PeersID", .uint32⟩, []⟩

/-- A request about a channel. -/
def channelRequestMsg : StructType :=
  ⟨"channelRequestMsg", [98], ⟨"PeersID", .uint32⟩, [⟨"Request", .string⟩, ⟨"WantReply", .bool⟩,
    ⟨"RequestSpecificData", .rest⟩]⟩

/-- It was granted. -/
def channelRequestSuccessMsg : StructType :=
  ⟨"channelRequestSuccessMsg", [99], ⟨"PeersID", .uint32⟩, []⟩

/-- It was not. -/
def channelRequestFailureMsg : StructType :=
  ⟨"channelRequestFailureMsg", [100], ⟨"PeersID", .uint32⟩, []⟩

/-- A token of the GSS-API exchange. -/
def userAuthGSSAPIToken : StructType := ⟨"userAuthGSSAPIToken", [61], ⟨"Token", .bytes⟩, []⟩

/-- A token with which the exchange ends in an error. -/
def userAuthGSSAPIErrTok : StructType := ⟨"userAuthGSSAPIErrTok", [64], ⟨"ErrorToken", .bytes⟩, []⟩

/-- The error of the exchange, as numbers and text. -/
def userAuthGSSAPIError : StructType :=
  ⟨"userAuthGSSAPIError", [65], ⟨"MajorStatus", .uint32⟩, [⟨"MinorStatus", .uint32⟩,
    ⟨"Message", .string⟩, ⟨"LanguageTag", .string⟩]⟩

/-- The code that ends the exchange. -/
def userAuthGSSAPIMIC : StructType := ⟨"userAuthGSSAPIMIC", [66], ⟨"MIC", .bytes⟩, []⟩

/-- The number of the one message without a field. -/
def msgUserAuthSuccess : UInt8 := 52

/-- The cases of `decode`. -/
def messageType : UInt8 → Option StructType
  | 1 => some disconnectMsg
  | 5 => some serviceRequestMsg
  | 6 => some serviceAcceptMsg
  | 20 => some kexInitMsg
  | 30 => some kexDHInitMsg
  | 31 => some kexDHReplyMsg
  | 50 => some userAuthRequestMsg
  | 51 => some userAuthFailureMsg
  | 60 => some userAuthPubKeyOkMsg
  | 80 => some globalRequestMsg
  | 81 => some globalRequestSuccessMsg
  | 82 => some globalRequestFailureMsg
  | 90 => some channelOpenMsg
  | 94 => some channelDataMsg
  | 91 => some channelOpenConfirmMsg
  | 92 => some channelOpenFailureMsg
  | 93 => some windowAdjustMsg
  | 96 => some channelEOFMsg
  | 97 => some channelCloseMsg
  | 98 => some channelRequestMsg
  | 99 => some channelRequestSuccessMsg
  | 100 => some channelRequestFailureMsg
  | 61 => some userAuthGSSAPIToken
  | 66 => some userAuthGSSAPIMIC
  | 64 => some userAuthGSSAPIErrTok
  | 65 => some userAuthGSSAPIError
  | _ => none

/-- A message of any type. `userAuthSuccessMsg` is the one structure without a field. -/
inductive AnyMsg
  | userAuthSuccess
  | msg (t : StructType) (m : Struct t.fields)

/-- `Marshal` of a message of any type. -/
def AnyMsg.marshal : AnyMsg → Except Failure Bytes
  -- `typeTags` takes the first field of a structure that has none
  | .userAuthSuccess => .error .panics
  | .msg t m => .ok (Ssh.marshal t m)

/-- `decode`: the first byte says which message a packet is. -/
def decode (packet : Bytes) : Except Failure AnyMsg :=
  match packet with
  | [] => .error .panics
  | b :: _ =>
    if b = msgUserAuthSuccess then .ok .userAuthSuccess
    else
      match messageType b with
      | none => .error (.error (unexpectedMessageError 0 b))
      | some t =>
        match unmarshal t packet with
        | .error e => .error (.error e)
        | .ok m => .ok (.msg t m)

/-- The cases of `decode` agree with the tags of the structures. -/
theorem messageType_spec (h : messageType b = some t) :
    t.tags = [b] ∧ t.WellFormed ∧ b ≠ msgUserAuthSuccess := by
  unfold messageType at h
  split at h <;> cases h <;> exact ⟨rfl, by decide, by decide⟩

/-- A packet with the number of one of these cases is read as that structure. -/
theorem decode_of_messageType (h : messageType b = some t) (rest : Bytes) :
    decode (b :: rest) =
      match unmarshal t (b :: rest) with
      | .error e => .error (.error e)
      | .ok m => .ok (.msg t m) := by
  rw [decode, if_neg (messageType_spec h).2.2, h]

/-- Every message is decoded as what it arrives as. -/
theorem decode_marshal (ht : messageType b = some t) (m : Struct t.fields)
    (h : (marshal t m).length < 2 ^ 32) : decode (marshal t m) = .ok (.msg t m.normalize) := by
  obtain ⟨htags, hwf, -⟩ := messageType_spec ht
  have hmarshal : marshal t m = b :: marshalFields t.fields m := by
    rw [marshal, htags]
    rfl
  rw [hmarshal, decode_of_messageType ht, ← hmarshal, unmarshal_marshal hwf m h]

/-- The message is of a type that `decode` knows. -/
def AnyMsg.Known : AnyMsg → Prop
  | .userAuthSuccess => True
  | .msg t _ => ∃ b, messageType b = some t

/-- The names in the lists of the message survive. -/
def AnyMsg.NamesSurvive : AnyMsg → Prop
  | .userAuthSuccess => True
  | .msg _ m => m.NamesSurvive

/-- **A message is decoded as itself** exactly if no name in its lists has a comma and none of them
is the list of one empty name; every other field survives whatever it is. This is about packets of
less than 2^32 bytes, and about every type that `decode` knows but the one without a field, which
cannot be written at all. -/
theorem decode_marshal_iff {m : AnyMsg} (hm : m.Known) :
    (m.marshal = .error .panics ↔ m = .userAuthSuccess) ∧
      ∀ packet, m.marshal = .ok packet → packet.length < 2 ^ 32 →
        (decode packet = .ok m ↔ m.NamesSurvive) := by
  rcases m with - | ⟨t, m⟩
  · exact ⟨iff_of_true rfl rfl, fun packet hpacket ↦ by cases hpacket⟩
  refine ⟨iff_of_false (fun h ↦ by cases h) (fun h ↦ by cases h), ?_⟩
  obtain ⟨b, ht⟩ := hm
  rintro packet ⟨⟩ hlen
  rw [decode_marshal ht m hlen, AnyMsg.NamesSurvive, ← Struct.normalize_eq_iff]
  constructor
  · intro heq
    exact eq_of_heq (AnyMsg.msg.inj (Except.ok.inj heq)).2
  · intro heq
    rw [heq]

/-- The methods of a server that has two of them. -/
def twoMethods : Struct userAuthFailureMsg.fields :=
  ([Text.ascii "password", Text.ascii "publickey"], false, ())

theorem decode_marshal_iff_twoMethods :
    messageType 51 = some userAuthFailureMsg ∧
      (decode (marshal userAuthFailureMsg twoMethods) = .ok (.msg userAuthFailureMsg twoMethods) ↔
        twoMethods.NamesSurvive) :=
  ⟨rfl, (decode_marshal_iff (m := .msg userAuthFailureMsg twoMethods) ⟨51, rfl⟩).2 _ rfl
    (by decide)⟩

/-- **Whatever is decoded can be sent again**, in no more bytes than those it came from, and is then
decoded as the same; but for the message without a field, with which `Marshal` panics. -/
theorem decode_marshal_of_decode {packet : Bytes} {m : AnyMsg} (h : decode packet = .ok m)
    (hlen : packet.length < 2 ^ 32) :
    (m = .userAuthSuccess ∧ m.marshal = .error .panics) ∨
      ∃ again, m.marshal = .ok again ∧ again.length ≤ packet.length ∧ decode again = .ok m := by
  rcases packet with - | ⟨b, rest⟩
  · cases h
  by_cases hb : b = msgUserAuthSuccess
  · rw [decode, if_pos hb] at h
    cases h
    exact .inl ⟨rfl, rfl⟩
  rcases htype : messageType b with - | t
  · rw [decode, if_neg hb, htype] at h
    cases h
  · rw [decode_of_messageType htype] at h
    rcases hm : unmarshal t (b :: rest) with e | m'
    · rw [hm] at h
      cases h
    · rw [hm] at h
      cases h
      obtain ⟨hnormal, hle⟩ := unmarshal_spec hm
      refine .inr ⟨_, rfl, hle, ?_⟩
      rw [decode_marshal htype m' (by omega), hnormal]

theorem decode_marshal_of_decode_close :
    decode [97, 0, 0, 0, 5] = .ok (.msg channelCloseMsg ((5 : UInt32), ())) ∧
      ∃ again, marshal channelCloseMsg ((5 : UInt32), ()) = again ∧ again.length ≤ 5 ∧
        decode again = .ok (.msg channelCloseMsg ((5 : UInt32), ())) := by
  have h : decode [97, 0, 0, 0, 5] = .ok (.msg channelCloseMsg ((5 : UInt32), ())) := rfl
  rcases decode_marshal_of_decode h (by decide) with ⟨hmsg, -⟩ | ⟨again, hagain, hle, hdecode⟩
  · cases hmsg
  · exact ⟨h, again, Except.ok.inj hagain, hle, hdecode⟩

end Ssh
