import Mathlib.Data.List.Infix

/-!
# Codecs for messages on a stream

A message on a stream is read from a buffer that holds **some initial part** of what was sent: part
of the message, the message, or the message and bytes that follow it. A `Codec` is a writer and a
three-valued reader that agree on all three:

* on the bytes of a message with anything behind them the reader returns the message and how many
  bytes it took (`decode_append`);
* on a proper part of them it asks for more (`decode_proper`).

`Codec.next_of_prefix` is what a stream reader uses: with any initial part of a message and its
successors in the buffer, it asks for more or takes exactly the message, and what it leaves is what
was read **ahead** of it.

Codecs compose: `andThen` reads one message and then another chosen by it, `imap` changes the type
read, and `one`, `take`, `literal`, `done` and `fail` are the atoms.

`encodeAll` and `decodeAll` are the whole stream; every message written is among those read
(`Productive.mem_decodeAll`) if each of them takes some bytes.
-/

/-- What a reader makes of a buffer. -/
inductive Decoded (M : Type*)
  /-- A message, and how many bytes of the buffer it takes. -/
  | item (m : M) (n : ℕ)
  /-- The buffer ends inside a message. -/
  | incomplete
  /-- The buffer does not start with a message. -/
  | malformed
  deriving DecidableEq, Repr

namespace Decoded

variable {M N : Type*}

/-- Go on behind a message, with the number of bytes it took. -/
def bind : Decoded M → (M → ℕ → Decoded N) → Decoded N
  | item m n, f => f m n
  | incomplete, _ => incomplete
  | malformed, _ => malformed

@[simp] theorem bind_item (m : M) (n : ℕ) (f : M → ℕ → Decoded N) : (item m n).bind f = f m n := rfl

@[simp] theorem bind_incomplete (f : M → ℕ → Decoded N) : incomplete.bind f = .incomplete := rfl

end Decoded

/-- A writer and a reader of messages that agree on every initial part of a stream. -/
structure Codec (β M : Type*) where
  /-- The bytes of a message, if it can be written. -/
  encode : M → Option (List β)
  /-- The message a buffer starts with. -/
  decode : List β → Decoded M
  /-- A message is read off its bytes, whatever follows them. -/
  decode_append : ∀ {m : M} {bs : List β} (rest : List β),
    encode m = some bs → decode (bs ++ rest) = .item m bs.length
  /-- A proper part of the bytes of a message is not enough. -/
  decode_proper : ∀ {m : M} {bs buf : List β},
    encode m = some bs → buf <+: bs → buf ≠ bs → decode buf = .incomplete

namespace Codec

variable {β M N : Type*}

/-! ### Reading from a stream -/

/-- The next message of a buffer; an empty buffer is not looked at. -/
def next (c : Codec β M) : List β → Decoded M
  | [] => .incomplete
  | b :: bs => c.decode (b :: bs)

@[simp] theorem next_nil (c : Codec β M) : c.next [] = .incomplete := rfl

variable {buf bs : List β} {m : M} {c : Codec β M} {ms : List M}

private theorem next_of_ne_nil (c : Codec β M) (h : buf ≠ []) : c.next buf = c.decode buf := by
  cases buf with
  | nil => exact absurd rfl h
  | cons b bs => rfl

/-- **A reader in front of a message.** From any initial part of the message and what follows it,
the reader asks for more, or takes the message and leaves what was read ahead of it. -/
theorem next_of_prefix (c : Codec β M) {rest : List β} (h : c.encode m = some bs)
    (hbuf : buf <+: bs ++ rest) :
    c.next buf = .incomplete ∨
      ∃ extra, buf = bs ++ extra ∧ extra <+: rest ∧ c.next buf = .item m bs.length := by
  by_cases hnil : buf = []
  · exact .inl (by rw [hnil, next_nil])
  rw [c.next_of_ne_nil hnil]
  rcases List.prefix_or_prefix_of_prefix hbuf (List.prefix_append bs rest) with hpre | ⟨extra, rfl⟩
  · by_cases heq : buf = bs
    · refine .inr ⟨[], by simp [heq], List.nil_prefix, ?_⟩
      simpa [heq] using c.decode_append [] h
    · exact .inl (c.decode_proper h hpre heq)
  · exact .inr ⟨extra, rfl, (List.prefix_append_right_inj bs).1 hbuf, c.decode_append extra h⟩

/-! ### Streams of messages -/

/-- The bytes of several messages, one after the other. -/
def encodeAll (c : Codec β M) : List M → Option (List β)
  | [] => some []
  | m :: ms => do
    let bs ← c.encode m
    let bs' ← c.encodeAll ms
    some (bs ++ bs')

@[simp] theorem encodeAll_nil (c : Codec β M) : c.encodeAll [] = some [] := rfl

theorem encodeAll_cons_eq_some :
    c.encodeAll (m :: ms) = some bs ↔
      ∃ b b', c.encode m = some b ∧ c.encodeAll ms = some b' ∧ b ++ b' = bs := by
  simp only [encodeAll, Option.bind_eq_bind, Option.bind_eq_some_iff, Option.some.injEq,
    exists_and_left]

theorem encodeAll_singleton (h : c.encode m = some bs) : c.encodeAll [m] = some bs :=
  encodeAll_cons_eq_some.2 ⟨bs, [], h, rfl, List.append_nil bs⟩

theorem encodeAll_append {ms' : List M} {bs' : List β} (h : c.encodeAll ms = some bs)
    (h' : c.encodeAll ms' = some bs') : c.encodeAll (ms ++ ms') = some (bs ++ bs') := by
  induction ms generalizing bs with
  | nil =>
    cases h
    exact h'
  | cons m ms ih =>
    obtain ⟨b, b', hb, hb', rfl⟩ := encodeAll_cons_eq_some.1 h
    exact encodeAll_cons_eq_some.2 ⟨b, b' ++ bs', hb, ih hb', (List.append_assoc ..).symm⟩

theorem encodeAll_append_eq_some {ms' : List M} :
    c.encodeAll (ms ++ ms') = some bs ↔
      ∃ b b', c.encodeAll ms = some b ∧ c.encodeAll ms' = some b' ∧ b ++ b' = bs := by
  constructor
  · intro h
    induction ms generalizing bs with
    | nil => exact ⟨[], bs, rfl, h, rfl⟩
    | cons m ms ih =>
      obtain ⟨b, b', hb, hb', rfl⟩ := encodeAll_cons_eq_some.1 h
      obtain ⟨b₁, b₂, hb₁, hb₂, rfl⟩ := ih hb'
      exact ⟨b ++ b₁, b₂, encodeAll_cons_eq_some.2 ⟨b, b₁, hb, hb₁, rfl⟩, hb₂,
        List.append_assoc ..⟩
  · rintro ⟨b, b', hb, hb', rfl⟩
    exact encodeAll_append hb hb'

/-- Every message takes some bytes. -/
def Productive (c : Codec β M) : Prop := ∀ m, c.encode m ≠ some []

theorem Productive.next_append (hc : c.Productive) (h : c.encode m = some bs) (rest : List β) :
    c.next (bs ++ rest) = .item m bs.length := by
  have hne : bs ++ rest ≠ [] := fun hnil ↦ hc m (by rw [h, (List.append_eq_nil_iff.1 hnil).1])
  rw [c.next_of_ne_nil hne, c.decode_append rest h]

theorem Productive.length_le (hc : c.Productive) (h : c.encodeAll ms = some bs) :
    ms.length ≤ bs.length := by
  induction ms generalizing bs with
  | nil => exact Nat.zero_le _
  | cons m ms ih =>
    obtain ⟨b, b', hb, hb', rfl⟩ := encodeAll_cons_eq_some.1 h
    have hpos : 0 < b.length := List.length_pos_of_ne_nil fun hnil ↦ hc m (by rw [hb, hnil])
    have hle := ih hb'
    rw [List.length_cons, List.length_append]
    omega

/-- The messages a buffer holds, up to the first place where there is none. -/
def decodeUpTo (c : Codec β M) : ℕ → List β → List M
  | 0, _ => []
  | fuel + 1, buf =>
    match c.next buf with
    | .item m n => m :: c.decodeUpTo fuel (buf.drop n)
    | _ => []

/-- The messages of a buffer. -/
def decodeAll (c : Codec β M) (buf : List β) : List M := c.decodeUpTo buf.length buf

/-- **What was written is read.** -/
theorem Productive.mem_decodeAll (hc : c.Productive) (h : c.encodeAll ms = some bs) (hm : m ∈ ms) :
    m ∈ c.decodeAll bs := by
  suffices hfuel : ∀ fuel, ms.length ≤ fuel → m ∈ c.decodeUpTo fuel bs from
    hfuel bs.length (hc.length_le h)
  induction ms generalizing bs with
  | nil => cases hm
  | cons m' ms ih =>
    obtain ⟨b, b', hb, hb', rfl⟩ := encodeAll_cons_eq_some.1 h
    rintro (- | fuel) hle
    · cases hle
    rw [decodeUpTo, hc.next_append hb]
    simp only [List.drop_left]
    rcases List.mem_cons.1 hm with rfl | hm
    · exact List.mem_cons_self
    · exact List.mem_cons_of_mem _ (ih hb' hm fuel (Nat.le_of_succ_le_succ hle))

/-- **What is read of an initial part** is the first of what was written. -/
theorem decodeAll_of_prefix (c : Codec β M) (h : c.encodeAll ms = some bs) (hbuf : buf <+: bs) :
    c.decodeAll buf <+: ms := by
  suffices hfuel : ∀ fuel, c.decodeUpTo fuel buf <+: ms from hfuel buf.length
  induction ms generalizing bs buf with
  | nil =>
    cases h
    rintro (- | fuel)
    · exact List.nil_prefix
    · rw [decodeUpTo, List.prefix_nil.1 hbuf, next_nil]
  | cons m ms ih =>
    obtain ⟨b, b', hb, hb', rfl⟩ := encodeAll_cons_eq_some.1 h
    rintro (- | fuel)
    · exact List.nil_prefix
    · rw [decodeUpTo]
      rcases c.next_of_prefix hb hbuf with hnext | ⟨extra, rfl, hextra, hnext⟩
      · rw [hnext]
        exact List.nil_prefix
      · rw [hnext]
        simp only [List.drop_left]
        exact List.cons_prefix_cons.2 ⟨rfl, ih hb' hextra fuel⟩

/-! ### Atoms -/

/-- The codec that writes nothing and reads nothing. -/
def fail : Codec β M where
  encode _ := none
  decode _ := .malformed
  decode_append _ h := absurd h (by simp)
  decode_proper h := absurd h (by simp)

/-- The codec of one message that takes no bytes. -/
def done [DecidableEq M] (m : M) : Codec β M where
  encode m' := if m' = m then some [] else none
  decode _ := .item m 0
  decode_append rest h := by
    obtain ⟨rfl, rfl⟩ : _ = m ∧ [] = _ := by simpa using h
    rfl
  decode_proper h hpre hne := by
    obtain ⟨-, rfl⟩ : _ = m ∧ [] = _ := by simpa using h
    exact absurd (List.prefix_nil.1 hpre) hne

/-- One byte. -/
def one : Codec β β where
  encode b := some [b]
  decode
    | [] => .incomplete
    | b :: _ => .item b 1
  decode_append rest h := by
    obtain rfl : [_] = _ := by simpa using h
    rfl
  decode_proper h hpre hne := by
    obtain rfl : [_] = _ := by simpa using h
    rcases List.prefix_cons_iff.1 hpre with rfl | ⟨t, rfl, ht⟩
    · rfl
    · exact absurd (by rw [List.prefix_nil.1 ht]) hne

/-- A given number of bytes. -/
def take (n : ℕ) : Codec β (List β) where
  encode bs := if bs.length = n then some bs else none
  decode buf := if n ≤ buf.length then .item (buf.take n) n else .incomplete
  decode_append rest h := by
    obtain ⟨rfl, rfl⟩ : _ = n ∧ _ = _ := by simpa using h
    simp
  decode_proper h hpre hne := by
    obtain ⟨rfl, rfl⟩ : _ = n ∧ _ = _ := by simpa using h
    exact if_neg fun hle ↦ hne (hpre.eq_of_length_le hle)

/-- Fixed bytes. -/
def literal [DecidableEq β] (lit : List β) : Codec β Unit where
  encode _ := some lit
  decode buf :=
    if lit <+: buf then .item () lit.length else if buf <+: lit then .incomplete else .malformed
  decode_append rest h := by
    obtain rfl : lit = _ := by simpa using h
    exact if_pos (List.prefix_append lit rest)
  decode_proper h hpre hne := by
    obtain rfl : lit = _ := by simpa using h
    rw [if_neg fun h' ↦ hne (hpre.eq_of_length_le h'.length_le), if_pos hpre]

/-! ### Composition -/

/-- One message, then another in a format chosen by the first. -/
def andThen (c : Codec β M) (f : M → Codec β N) : Codec β (M × N) where
  encode p := do
    let bs ← c.encode p.1
    let bs' ← (f p.1).encode p.2
    some (bs ++ bs')
  decode buf := (c.decode buf).bind fun m n ↦
    ((f m).decode (buf.drop n)).bind fun m' n' ↦ .item (m, m') (n + n')
  decode_append rest h := by
    simp only [Option.bind_eq_bind, Option.bind_eq_some_iff, Option.some.injEq] at h
    obtain ⟨bs, hbs, bs', hbs', rfl⟩ := h
    rw [List.append_assoc, c.decode_append _ hbs, Decoded.bind_item, List.drop_left,
      (f _).decode_append _ hbs', Decoded.bind_item, List.length_append]
  decode_proper := by
    intro p whole buf h hpre hne
    simp only [Option.bind_eq_bind, Option.bind_eq_some_iff, Option.some.injEq] at h
    obtain ⟨bs, hbs, bs', hbs', rfl⟩ := h
    rcases List.prefix_or_prefix_of_prefix hpre (List.prefix_append bs bs') with hin | ⟨buf', rfl⟩
    · by_cases heq : buf = bs
      · have hne' : [] ≠ bs' := fun h' ↦ hne (by rw [heq, ← h', List.append_nil])
        have hdec := c.decode_append [] hbs
        rw [List.append_nil] at hdec
        rw [heq, hdec, Decoded.bind_item, List.drop_length,
          (f _).decode_proper hbs' List.nil_prefix hne', Decoded.bind_incomplete]
      · rw [c.decode_proper hbs hin heq, Decoded.bind_incomplete]
    · have hin' : buf' <+: bs' := (List.prefix_append_right_inj bs).1 hpre
      rw [c.decode_append _ hbs, Decoded.bind_item, List.drop_left,
        (f _).decode_proper hbs' hin' fun h' ↦ hne (by rw [h']), Decoded.bind_incomplete]

/-- A codec read at another type; `put` may refuse to write a value. -/
def imap (c : Codec β M) (get : M → N) (put : N → Option M)
    (h : ∀ x m, put x = some m → get m = x) : Codec β N where
  encode x := (put x).bind c.encode
  decode buf := (c.decode buf).bind fun m n ↦ .item (get m) n
  decode_append rest hx := by
    obtain ⟨m, hm, hbs⟩ := Option.bind_eq_some_iff.1 hx
    rw [c.decode_append rest hbs, Decoded.bind_item, h _ m hm]
  decode_proper hx hpre hne := by
    obtain ⟨m, hm, hbs⟩ := Option.bind_eq_some_iff.1 hx
    rw [c.decode_proper hbs hpre hne, Decoded.bind_incomplete]

theorem Productive.andThen (hc : c.Productive) (f : M → Codec β N) : (c.andThen f).Productive := by
  intro p h
  simp only [Codec.andThen, Option.bind_eq_bind, Option.bind_eq_some_iff, Option.some.injEq] at h
  obtain ⟨bs, hbs, bs', -, hnil⟩ := h
  exact hc p.1 (by rw [hbs, (List.append_eq_nil_iff.1 hnil).1])

theorem Productive.imap (hc : c.Productive) {get : M → N} {put : N → Option M}
    (hput : ∀ x m, put x = some m → get m = x) : (c.imap get put hput).Productive := by
  intro x h
  obtain ⟨m, -, hm⟩ := Option.bind_eq_some_iff.1 h
  exact hc m hm

end Codec
