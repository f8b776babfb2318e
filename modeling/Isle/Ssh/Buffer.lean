import Mathlib.Data.List.Basic

/-!
# The stream buffers of an SSH channel

`pkg/crypto/ssh/buffer.go`. A buffer is a linked list of chunks between the packet loop, which
writes, and the readers of one stream, who wait on a condition variable while nothing is there.

The readers are part of the buffer here: those asleep in `Cond.Wait`, and those a `Signal` has woken
and who have not got the lock again. Each is known by the length of the slice it reads into. A
`Signal` wakes **one** reader, the one that has waited longest.

`copyOut_spec` is the read loop over the chunks as an operation on the bytes in them, and
`reads_eq_drain` is what a closed buffer gives a reader: the bytes left, and then the end of the
stream, without ever waiting.
-/

namespace Ssh

/-- What is sent, as packets and in streams. -/
abbrev Bytes := List UInt8

/-- `buffer`, with the goroutines inside `Read`. -/
structure Buffer where
  /-- What is unread of the element at `head`. -/
  head : Bytes
  /-- The elements after `head`, up to `tail`. -/
  rest : List Bytes
  closed : Bool
  /-- The readers in `Cond.Wait`, the one that came first at the front. -/
  asleep : List ℕ
  /-- The readers that were woken. -/
  woken : List ℕ
  deriving DecidableEq, Repr

/-- The bytes that can be read. -/
def Buffer.content (b : Buffer) : Bytes := b.head ++ b.rest.flatten

/-- A buffer with nothing in it. -/
def newBuffer : Buffer where
  head := []
  rest := []
  closed := false
  asleep := []
  woken := []

namespace Buffer

/-- `Cond.Signal` -/
def signal (b : Buffer) : Buffer :=
  { b with asleep := b.asleep.tail, woken := b.woken ++ b.asleep.take 1 }

/-- What arrives is put behind the rest, and a reader that waits is woken. -/
def write (b : Buffer) (buf : Bytes) : Buffer := signal { b with rest := b.rest ++ [buf] }

/-- Nothing more will arrive, and a reader that waits is woken. -/
def eof (b : Buffer) : Buffer := signal { b with closed := true }

/-- The loop of `Read` as far as there is data: it copies from the head until the slice is full, and
goes on to the next element where the head is used up. The result is what was copied, and the
elements left. -/
def copyOut : ℕ → Bytes → List Bytes → Bytes × Bytes × List Bytes
  | n, head, [] => (head.take n, head.drop n, [])
  | n, head, next :: rest =>
    if n ≤ head.length then (head.take n, head.drop n, next :: rest)
    else
      let (out, left) := copyOut (n - head.length) next rest
      (head ++ out, left)

/-- How a pass through `Read` ends. -/
inductive Outcome
  | bytes (data : Bytes)
  | eof
  /-- The reader is in `Cond.Wait`. -/
  | wait
  deriving DecidableEq, Repr

/-- What a reader into a slice of length `n` copies. -/
def copied (b : Buffer) (n : ℕ) : Bytes := (copyOut n b.head b.rest).1

/-- The buffer without what a reader into a slice of length `n` copies. -/
def advance (b : Buffer) (n : ℕ) : Buffer :=
  { b with head := (copyOut n b.head b.rest).2.1, rest := (copyOut n b.head b.rest).2.2 }

/-- `Read` into a slice of length `n`, up to its end or to `Cond.Wait`. -/
def read (b : Buffer) (n : ℕ) : Outcome × Buffer :=
  if n = 0 then (.bytes [], b)
  else if b.copied n ≠ [] then (.bytes (b.copied n), b.advance n)
  else if b.closed then (.eof, b.advance n)
  else (.wait, { b.advance n with asleep := b.asleep ++ [n] })

/-- A woken reader has the lock again and goes on with the loop. -/
def resume (b : Buffer) (n : ℕ) : Outcome × Buffer := read { b with woken := b.woken.erase n } n

/-! ### The bytes -/

/-- **The read loop.** It copies the first bytes of the buffer and leaves the others. -/
theorem copyOut_spec (n : ℕ) (head : Bytes) (rest : List Bytes) :
    (copyOut n head rest).1 = (head ++ rest.flatten).take n ∧
      (copyOut n head rest).2.1 ++ (copyOut n head rest).2.2.flatten
        = (head ++ rest.flatten).drop n := by
  induction rest generalizing n head with
  | nil => simp [copyOut]
  | cons next rest ih =>
    rw [copyOut, List.flatten_cons]
    split
    · -- The slice is full with what the head holds.
      next h =>
      rw [List.take_append_of_le_length h, List.drop_append_of_le_length h, List.flatten_cons]
      exact ⟨rfl, rfl⟩
    · next h =>
      obtain ⟨htake, hdrop⟩ := ih (n - head.length) next
      have hle : head.length ≤ n := Nat.le_of_not_le h
      rw [List.take_append, List.drop_append, List.take_of_length_le hle,
        List.drop_eq_nil_of_le hle]
      exact ⟨congrArg (head ++ ·) htake, hdrop⟩

theorem copied_eq (b : Buffer) (n : ℕ) : b.copied n = b.content.take n :=
  (copyOut_spec n b.head b.rest).1

@[simp] theorem content_advance (b : Buffer) (n : ℕ) :
    (b.advance n).content = b.content.drop n :=
  (copyOut_spec n b.head b.rest).2

/-- What one pass through `Read` does. -/
theorem read_cases (b : Buffer) {n : ℕ} (hn : n ≠ 0) :
    (b.content ≠ [] ∧ b.read n = (.bytes (b.content.take n), b.advance n)) ∨
      (b.content = [] ∧ b.closed = true ∧ b.read n = (.eof, b.advance n)) ∨
      (b.content = [] ∧ b.closed = false ∧
        b.read n = (.wait, { b.advance n with asleep := b.asleep ++ [n] })) := by
  have hnil : b.content.take n = [] ↔ b.content = [] :=
    List.take_eq_nil_iff.trans (or_iff_right hn)
  rw [read, if_neg hn, copied_eq]
  by_cases hdata : b.content = []
  · right
    rw [if_neg (not_not.2 (hnil.2 hdata))]
    rcases hclosed : b.closed with - | -
    · exact .inr ⟨hdata, rfl, if_neg Bool.false_ne_true⟩
    · exact .inl ⟨hdata, rfl, if_pos rfl⟩
  · exact .inl ⟨hdata, if_pos fun h ↦ hdata (hnil.1 h)⟩

variable {b : Buffer}

/-- A reader of a closed buffer does not wait. -/
theorem read_eq_of_closed (hb : b.closed = true) {n : ℕ} (hn : n ≠ 0) :
    b.read n = (if b.content = [] then .eof else .bytes (b.content.take n), b.advance n) := by
  obtain ⟨hdata, hread⟩ | ⟨hdata, -, hread⟩ | ⟨-, hopen, -⟩ := b.read_cases hn
  · rw [hread, if_neg hdata]
  · rw [hread, if_pos hdata]
  · exact absurd (hopen.symm.trans hb) Bool.false_ne_true

/-- How reads into slices of the given lengths end, one after the other. -/
def reads (b : Buffer) : List ℕ → List Outcome
  | [] => []
  | n :: ns => (b.read n).1 :: (b.read n).2.reads ns

/-- What such reads are to give of the bytes that are left: these bytes, and then the end of the
stream. -/
def drain (content : Bytes) : List ℕ → List Outcome
  | [] => []
  | n :: ns =>
    (if content = [] then .eof else .bytes (content.take n)) :: drain (content.drop n) ns

/-- **A closed buffer drains.** -/
theorem reads_eq_drain (hb : b.closed = true) {ns : List ℕ} (hns : ∀ n ∈ ns, n ≠ 0) :
    b.reads ns = drain b.content ns := by
  induction ns generalizing b with
  | nil => rfl
  | cons n ns ih =>
    have hrest : (b.advance n).reads ns = drain (b.advance n).content ns :=
      ih hb fun m hm ↦ hns m (List.mem_cons_of_mem n hm)
    rw [reads, read_eq_of_closed hb (hns n List.mem_cons_self), hrest, content_advance, drain]

/-! ### Buffers that have ended -/

/-- The buffer is closed and nobody is asleep at it. -/
structure Settled (b : Buffer) : Prop where
  closed : b.closed = true
  asleep : b.asleep = []

theorem settled_eof_iff : b.eof.Settled ↔ b.asleep.length ≤ 1 := by
  have htail : b.asleep.tail = [] ↔ b.asleep.length ≤ 1 := by
    rw [← List.length_eq_zero_iff, List.length_tail]
    omega
  exact ⟨fun h ↦ htail.1 h.asleep, fun h ↦ ⟨rfl, htail.2 h⟩⟩

/-- What a write, a read or a woken reader makes of a buffer. -/
inductive Step (b : Buffer) : Buffer → Prop
  | same : Step b b
  | write (buf : Bytes) : Step b (b.write buf)
  | read (n : ℕ) : Step b (b.read n).2
  | resume (n : ℕ) : Step b (b.resume n).2

theorem Settled.eof (hb : b.Settled) : b.eof.Settled :=
  settled_eof_iff.2 (by rw [hb.asleep]; exact Nat.zero_le 1)

theorem Settled.read (hb : b.Settled) (n : ℕ) : (b.read n).2.Settled := by
  rcases eq_or_ne n 0 with rfl | hn
  · exact hb
  · obtain ⟨-, hread⟩ | ⟨-, -, hread⟩ | ⟨-, hopen, -⟩ := b.read_cases hn
    · rw [hread]
      exact ⟨hb.closed, hb.asleep⟩
    · rw [hread]
      exact ⟨hb.closed, hb.asleep⟩
    · exact absurd (hopen.symm.trans hb.closed) Bool.false_ne_true

/-- A reader wakes no other. -/
theorem mem_asleep_read {m : ℕ} (hm : m ∈ b.asleep) (n : ℕ) : m ∈ (b.read n).2.asleep := by
  rcases eq_or_ne n 0 with rfl | hn
  · exact hm
  · obtain ⟨-, hread⟩ | ⟨-, -, hread⟩ | ⟨-, -, hread⟩ := b.read_cases hn
    · rwa [hread]
    · rwa [hread]
    · rw [hread]
      exact List.mem_append_left [n] hm

/-- Nobody falls asleep at a buffer that has ended. -/
theorem Settled.step {b' : Buffer} (hb : b.Settled) (h : Step b b') : b'.Settled := by
  cases h with
  | same => exact hb
  | write buf => exact ⟨hb.closed, congrArg List.tail hb.asleep⟩
  | read n => exact hb.read n
  | resume n =>
    have hb' : Settled { b with woken := b.woken.erase n } := ⟨hb.closed, hb.asleep⟩
    exact hb'.read n

end Buffer

end Ssh
