import Isle.Go.Text

/-!
# Reading lines through a buffer

`ReadLine` of a `bufio.Reader`. It returns a line without its end, unless the line does not fit into
the buffer: then it returns the buffer and says that this is a prefix. Of a file, what it returns
depends on the bytes to come alone, so `readLine` is a function of these, and `readLines` is what
one call after the other returns, up to the end of the file.

A line is returned in chunks (`chunks`): the full buffers, and what is left at its end. **If nothing
is left and the file ends there, no last call tells that the line is over**
(`readLines_of_not_mem`).
-/

namespace Lines

/-- What a line ends with. -/
def newline : UInt8 := 0x0A

/-- What is dropped in front of it. -/
def carriageReturn : UInt8 := 0x0D

/-- What a call of `ReadLine` returns. -/
structure Chunk where
  line : List UInt8
  isPrefix : Bool
  deriving DecidableEq, Repr

/-- A line without the carriage return at its end. -/
def dropCR (line : List UInt8) : List UInt8 :=
  if line.getLast? = some carriageReturn then line.dropLast else line

/-- One call of `ReadLine` with a buffer of `size` bytes, in front of the bytes to come: none at the
end of the file. -/
def readLine (size : ℕ) (bs : List UInt8) : Option (Chunk × List UInt8) :=
  let line := bs.takeWhile (· ≠ newline)
  if bs = [] then none
  else if line.length < size then
    if newline ∈ bs then some (⟨dropCR line, false⟩, bs.drop (line.length + 1))
    else some (⟨line, false⟩, [])
  else
    -- the buffer is full; a carriage return in it may be the first half of the line's end
    if (bs.take size).getLast? = some carriageReturn then
      some (⟨bs.take (size - 1), true⟩, bs.drop (size - 1))
    else some (⟨bs.take size, true⟩, bs.drop size)

/-- What the calls of `ReadLine` return, with what is in the buffer. -/
def scan (size : ℕ) : List UInt8 → List UInt8 → List Chunk
  | buf, [] => if buf = [] then [] else [⟨buf, false⟩]
  | buf, b :: bs =>
    if b = newline then ⟨dropCR buf, false⟩ :: scan size [] bs
    else if buf.length + 1 < size then scan size (buf ++ [b]) bs
    else if b = carriageReturn then ⟨buf, true⟩ :: scan size [b] bs
    else ⟨buf ++ [b], true⟩ :: scan size [] bs

/-- What the calls of `ReadLine` return up to the end of a file. -/
def readLines (size : ℕ) (bs : List UInt8) : List Chunk := scan size [] bs

/-! ### Call by call -/

variable {buf l : List UInt8} {size : ℕ}

private theorem takeWhile_append (hbuf : newline ∉ buf) (bs : List UInt8) :
    (buf ++ bs).takeWhile (· ≠ newline) = buf ++ bs.takeWhile (· ≠ newline) :=
  List.takeWhile_append_of_pos fun _ hb ↦ decide_eq_true fun h ↦ hbuf (h ▸ hb)

private theorem drop_append_cons (buf : List UInt8) (b : UInt8) (bs : List UInt8) :
    (buf ++ b :: bs).drop (buf.length + 1) = bs := by
  rw [List.append_cons, show buf.length + 1 = (buf ++ [b]).length by simp, List.drop_left]

/-- The line ends in the buffer. -/
private theorem readLine_newline (hbuf : newline ∉ buf) (hlen : buf.length < size)
    (bs : List UInt8) : readLine size (buf ++ newline :: bs) = some (⟨dropCR buf, false⟩, bs) := by
  have hline : (buf ++ newline :: bs).takeWhile (· ≠ newline) = buf := by
    rw [takeWhile_append hbuf, List.takeWhile_cons_of_neg (by simp), List.append_nil]
  rw [readLine, if_neg (by simp), hline, if_pos hlen, if_pos (by simp), drop_append_cons]

/-- The buffer is full with the next byte. -/
private theorem readLine_full (hbuf : newline ∉ buf) {b : UInt8} (hb : b ≠ newline)
    (bs : List UInt8) :
    readLine (buf.length + 1) (buf ++ b :: bs) =
      if b = carriageReturn then some (⟨buf, true⟩, b :: bs)
      else some (⟨buf ++ [b], true⟩, bs) := by
  have hfull : ¬ ((buf ++ b :: bs).takeWhile (· ≠ newline)).length < buf.length + 1 := by
    rw [takeWhile_append hbuf, List.takeWhile_cons_of_pos (by simpa using hb), List.length_append,
      List.length_cons]
    omega
  have htake : (buf ++ b :: bs).take (buf.length + 1) = buf ++ [b] := by
    rw [List.append_cons, show buf.length + 1 = (buf ++ [b]).length by simp, List.take_left]
  rw [readLine, if_neg (by simp), if_neg hfull, htake, List.getLast?_concat, drop_append_cons,
    Nat.add_sub_cancel, List.take_left, List.drop_left]
  exact if_congr (by simp) rfl rfl

/-- Byte by byte or a line at a time, the same is read. -/
private theorem scan_eq (hsize : 2 ≤ size) {bs : List UInt8} (hbuf : newline ∉ buf)
    (hlen : buf.length < size) :
    scan size buf bs =
      match readLine size (buf ++ bs) with
      | none => []
      | some (c, rest) => c :: readLines size rest := by
  induction bs generalizing buf with
  | nil =>
    rw [scan, List.append_nil, readLine]
    have hline := takeWhile_append hbuf []
    rw [List.append_nil, List.takeWhile_nil, List.append_nil] at hline
    by_cases hnil : buf = []
    · rw [if_pos hnil, if_pos hnil]
    · rw [if_neg hnil, if_neg hnil, hline, if_pos hlen, if_neg hbuf]
      rfl
  | cons b bs ih =>
    rw [scan]
    by_cases hb : b = newline
    · rw [if_pos hb, hb, readLine_newline hbuf hlen]
      rfl
    rw [if_neg hb]
    by_cases hlt : buf.length + 1 < size
    · rw [if_pos hlt, ih (by simp [hbuf, Ne.symm hb]) (by simpa using hlt), List.append_assoc,
        List.singleton_append]
    obtain rfl : size = buf.length + 1 := by omega
    rw [if_neg hlt, readLine_full hbuf hb]
    by_cases hcr : b = carriageReturn
    · -- the carriage return goes back to the bytes to come
      have hback : readLines (buf.length + 1) (b :: bs) = scan (buf.length + 1) [b] bs := by
        rw [readLines, scan, if_neg hb, List.length_nil, if_pos (by omega), List.nil_append]
      rw [if_pos hcr, if_pos hcr]
      simp only [hback]
    · rw [if_neg hcr, if_neg hcr]
      rfl

/-- **`readLines` is one call of `ReadLine` after the other.** -/
theorem readLines_eq (hsize : 2 ≤ size) (bs : List UInt8) :
    readLines size bs =
      match readLine size bs with
      | none => []
      | some (c, rest) => c :: readLines size rest :=
  scan_eq hsize List.not_mem_nil (by rw [List.length_nil]; omega)

/-! ### Line by line -/

/-- The full buffers that a line is cut into, and what is left at its end. -/
def chunksFrom (size : ℕ) : List UInt8 → List UInt8 → List (List UInt8) × List UInt8
  | buf, [] => ([], buf)
  | buf, b :: l =>
    if buf.length + 1 < size then chunksFrom size (buf ++ [b]) l
    else if b = carriageReturn then
      (buf :: (chunksFrom size [b] l).1, (chunksFrom size [b] l).2)
    else ((buf ++ [b]) :: (chunksFrom size [] l).1, (chunksFrom size [] l).2)

@[inherit_doc chunksFrom]
def chunks (size : ℕ) (l : List UInt8) : List (List UInt8) × List UInt8 := chunksFrom size [] l

private theorem flatten_chunksFrom (size : ℕ) (buf l : List UInt8) :
    (chunksFrom size buf l).1.flatten ++ (chunksFrom size buf l).2 = buf ++ l := by
  induction l generalizing buf with
  | nil => simp [chunksFrom]
  | cons b l ih =>
    rw [chunksFrom]
    split_ifs
    · rw [ih, List.append_assoc, List.singleton_append]
    · rw [List.flatten_cons, List.append_assoc, ih, List.singleton_append]
    · rw [List.flatten_cons, List.append_assoc, ih, List.nil_append, ← List.append_cons]

/-- The chunks are the line. -/
theorem flatten_chunks (size : ℕ) (l : List UInt8) :
    (chunks size l).1.flatten ++ (chunks size l).2 = l :=
  flatten_chunksFrom size [] l

private theorem chunksFrom_of_length_lt (h : buf.length + l.length < size) :
    chunksFrom size buf l = ([], buf ++ l) := by
  induction l generalizing buf with
  | nil => rw [chunksFrom, List.append_nil]
  | cons b l ih =>
    rw [List.length_cons] at h
    rw [chunksFrom, if_pos (by omega), ih, List.append_assoc, List.singleton_append]
    rw [List.length_append, List.length_singleton]
    omega

private theorem chunksFrom_append {h : List UInt8} {c : UInt8}
    (hsize : buf.length + h.length + 1 = size) (hc : c ≠ carriageReturn) (t : List UInt8) :
    chunksFrom size buf (h ++ c :: t) =
      ((buf ++ (h ++ [c])) :: (chunksFrom size [] t).1, (chunksFrom size [] t).2) := by
  induction h generalizing buf with
  | nil => rw [List.nil_append, chunksFrom, if_neg (by simp at hsize; omega), if_neg hc,
      List.nil_append]
  | cons b h ih =>
    rw [List.length_cons] at hsize
    rw [List.cons_append, chunksFrom, if_pos (by omega), ih, List.append_assoc,
      List.singleton_append, List.cons_append]
    rw [List.length_append, List.length_singleton]
    omega

/-- A line that fits into the buffer with its end is one chunk. -/
theorem chunks_of_length_lt (h : l.length < size) : chunks size l = ([], l) := by
  rw [chunks, chunksFrom_of_length_lt (by simpa using h), List.nil_append]

/-- A full buffer is a chunk. -/
theorem chunks_append {h : List UInt8} {c : UInt8} (hsize : h.length + 1 = size)
    (hc : c ≠ carriageReturn) (t : List UInt8) :
    chunks size (h ++ c :: t) = ((h ++ [c]) :: (chunks size t).1, (chunks size t).2) := by
  rw [chunks, chunksFrom_append (by simpa using hsize) hc, List.nil_append, chunks]

private theorem scan_append (hl : newline ∉ l) (buf bs : List UInt8) :
    scan size buf (l ++ newline :: bs) =
      (chunksFrom size buf l).1.map (⟨·, true⟩) ++
        ⟨dropCR (chunksFrom size buf l).2, false⟩ :: readLines size bs := by
  induction l generalizing buf with
  | nil => simp [scan, chunksFrom, readLines]
  | cons b l ih =>
    rw [List.mem_cons, not_or] at hl
    rw [List.cons_append, scan, if_neg (Ne.symm hl.1), chunksFrom]
    split_ifs <;> simp [ih hl.2]

private theorem scan_of_not_mem (hl : newline ∉ l) (buf : List UInt8) :
    scan size buf l =
      (chunksFrom size buf l).1.map (⟨·, true⟩) ++
        if (chunksFrom size buf l).2 = [] then [] else [⟨(chunksFrom size buf l).2, false⟩] := by
  induction l generalizing buf with
  | nil => rfl
  | cons b l ih =>
    rw [List.mem_cons, not_or] at hl
    rw [scan, if_neg (Ne.symm hl.1), chunksFrom]
    split_ifs <;> simp_all

/-- **A line and the rest of the file.** -/
theorem readLines_append (hl : newline ∉ l) (size : ℕ) (bs : List UInt8) :
    readLines size (l ++ newline :: bs) =
      (chunks size l).1.map (⟨·, true⟩) ++
        ⟨dropCR (chunks size l).2, false⟩ :: readLines size bs :=
  scan_append hl [] bs

/-- **What is behind the last newline.** -/
theorem readLines_of_not_mem (hl : newline ∉ l) (size : ℕ) :
    readLines size l =
      (chunks size l).1.map (⟨·, true⟩) ++
        if (chunks size l).2 = [] then [] else [⟨(chunks size l).2, false⟩] :=
  scan_of_not_mem hl []

theorem isBlank_carriageReturn : Text.IsBlank [carriageReturn] := by decide

/-- The carriage return at the end of a line is white space. -/
theorem trimSpace_append_dropCR (l r : List UInt8) :
    Text.trimSpace (l ++ dropCR r) = Text.trimSpace (l ++ r) := by
  rw [dropCR]
  split_ifs with h
  · obtain ⟨r', rfl⟩ := List.getLast?_eq_some_iff.1 h
    rw [List.dropLast_concat, ← List.append_assoc, Text.trimSpace_append isBlank_carriageReturn]
  · rfl

end Lines
