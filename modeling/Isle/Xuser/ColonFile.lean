import Isle.Go.Lines

/-!
# Files of colon-separated rows

`readColonFile` of `pkg/xuser/lookup.go`, which goes through an `/etc/passwd` or `/etc/group` and
calls a function for each row. A line comes from the reader in chunks. They are put together until
the line is over **or has enough colons**, and then the rest is skipped. But a line that is passed
over, as a comment is, has its rest read as if another line began there.

What is handed to the function does not depend on it: `rows` are what the lines of the file come to
(`readColonFile_eq`, `exists_lines`). A line gives one row at most (`rowOf`): what was read of it,
or, of a comment, something from its rest (`stray`).
-/

open Lines Text

namespace Xuser

/-- A text. -/
abbrev Bytes := List UInt8

/-- What is between the parts of a row. -/
def colon : UInt8 := 0x3A

/-- What a comment begins with. -/
def hash : UInt8 := 0x23

/-- The buffer of `bufio.NewReader`. -/
def bufSize : ℕ := 4096

/-- A file that is read: its bytes, and the error that reading ends with, if it is not `io.EOF`. -/
structure Source (ε : Type*) where
  bytes : Bytes
  err : Option ε

/-- How the reading of a file ends before the file does. -/
inductive Stop (V ε : Type*)
  | value (v : V)
  | error (e : ε)
  | panicked
  deriving DecidableEq, Repr

/-- `lineFunc`. What it skips a row with is the state it goes on with. -/
abbrev LineFunc (σ V ε : Type*) := σ → Bytes → Except (Stop V ε) σ

/-- Where `readColonFile` calls `ReadLine`. -/
inductive Place
  /-- In the loop that reads the next line, with what it has of it. -/
  | reading (wholeLine : Bytes)
  /-- In the loop that skips the rest of a line. -/
  | skipping
  deriving DecidableEq, Repr

/-- Where it is after a line of which there may be more to skip. -/
def Place.after (isPrefix : Bool) : Place := if isPrefix then .skipping else .reading []

/-- A line that is blank or a comment. -/
def Ignored (line : Bytes) : Prop := line = [] ∨ line.head? = some hash

instance (line : Bytes) : Decidable (Ignored line) := inferInstanceAs (Decidable (_ ∨ _))

variable {σ V ε : Type*}

/-- What `readColonFile` does with what `ReadLine` returned. -/
def turn (fn : LineFunc σ V ε) (readCols : ℕ) :
    Place × σ → Chunk → Except (Stop V ε) (Place × σ)
  | (.skipping, s), c => .ok (.after c.isPrefix, s)
  | (.reading whole, s), c =>
    let wholeLine := whole ++ c.line
    if c.isPrefix = true ∧ wholeLine.count colon < readCols then .ok (.reading wholeLine, s)
    else if Ignored (trimSpace wholeLine) then .ok (.reading [], s)
    else (fn s (trimSpace wholeLine)).map (Place.after c.isPrefix, ·)

/-- The rows of a file, each given to a function. -/
def readColonFile (r : Source ε) (fn : LineFunc σ V ε) (readCols : ℕ) (s : σ) :
    Except (Stop V ε) σ := do
  let (_, s) ← (readLines bufSize r.bytes).foldlM (turn fn readCols) (.reading [], s)
  match r.err with
  | none => return s
  | some e => throw (.error e)

/-! ### The rows -/

/-- What is handed to the function, for what `ReadLine` returns. -/
def handed (readCols : ℕ) : Place → List Chunk → List Bytes
  | _, [] => []
  | .skipping, c :: cs => handed readCols (.after c.isPrefix) cs
  | .reading whole, c :: cs =>
    let wholeLine := whole ++ c.line
    if c.isPrefix = true ∧ wholeLine.count colon < readCols then
      handed readCols (.reading wholeLine) cs
    else if Ignored (trimSpace wholeLine) then handed readCols (.reading []) cs
    else trimSpace wholeLine :: handed readCols (Place.after c.isPrefix) cs

/-- The rows of a file. -/
def rows (readCols : ℕ) (content : Bytes) : List Bytes :=
  handed readCols (.reading []) (readLines bufSize content)

variable {readCols : ℕ}

/-- The rows are handed to the function one after the other. -/
theorem foldlM_turn (fn : LineFunc σ V ε) (p : Place) (s : σ) (cs : List Chunk) :
    (cs.foldlM (turn fn readCols) (p, s)).map Prod.snd = (handed readCols p cs).foldlM fn s := by
  induction cs generalizing p s with
  | nil => cases p <;> rfl
  | cons c cs ih =>
    rw [List.foldlM_cons]
    rcases p with whole | -
    · simp only [turn, handed]
      split_ifs with hmore hign
      · exact ih _ _
      · exact ih _ _
      · rw [List.foldlM_cons]
        cases fn s (trimSpace (whole ++ c.line)) with
        | error e => rfl
        | ok s' => exact ih _ s'
    · exact ih _ s

/-- **The function is called for the rows, one after the other.** -/
theorem readColonFile_eq (r : Source ε) (fn : LineFunc σ V ε) (readCols : ℕ) (s : σ) :
    readColonFile r fn readCols s =
      ((rows readCols r.bytes).foldlM fn s).bind fun s' ↦
        match r.err with
        | none => .ok s'
        | some e => .error (.error e) := by
  rw [rows, ← foldlM_turn, readColonFile]
  cases (readLines bufSize r.bytes).foldlM (turn fn readCols) (.reading [], s) with
  | error e => rfl
  | ok q => rfl

/-! ### Line by line -/

/-- A line that was read to its end. -/
def keep (line : Bytes) : Option Bytes :=
  if Ignored (trimSpace line) then none else some (trimSpace line)

/-- The row of a line in full buffers, at whose end is something left or nothing. -/
def rowFrom (readCols : ℕ) (finish : Bytes → Option Bytes) : Bytes → List Bytes → Option Bytes
  | whole, [] => finish whole
  | whole, c :: cs =>
    if (whole ++ c).count colon < readCols then rowFrom readCols finish (whole ++ c) cs
    else if Ignored (trimSpace (whole ++ c)) then rowFrom readCols finish [] cs
    else some (trimSpace (whole ++ c))

/-- The row of a line with a newline behind it. -/
def rowOf (readCols : ℕ) (l : Bytes) : Option Bytes :=
  rowFrom readCols (fun whole ↦ keep (whole ++ (chunks bufSize l).2)) [] (chunks bufSize l).1

/-- The row of what is behind the last newline. A line that ends with a full buffer is lost. -/
def lastRowOf (readCols : ℕ) (l : Bytes) : Option Bytes :=
  rowFrom readCols
    (fun whole ↦ if (chunks bufSize l).2 = [] then none else keep (whole ++ (chunks bufSize l).2))
    [] (chunks bufSize l).1

/-- The lines of a file; the last is what is behind the last newline. -/
def lines (content : Bytes) : List Bytes := content.splitOn newline

private theorem handed_append {finish : Bytes → Option Bytes} {more : List Bytes}
    {rest : List Chunk}
    (hread : ∀ whole, handed readCols (.reading whole) rest = (finish whole).toList ++ more)
    (hskip : handed readCols .skipping rest = more) (cs : List Bytes) :
    handed readCols .skipping (cs.map (⟨·, true⟩) ++ rest) = more ∧
      ∀ whole, handed readCols (.reading whole) (cs.map (⟨·, true⟩) ++ rest) =
        (rowFrom readCols finish whole cs).toList ++ more := by
  induction cs with
  | nil => exact ⟨hskip, hread⟩
  | cons c cs ih =>
    refine ⟨ih.1, fun whole ↦ ?_⟩
    simp only [List.map_cons, List.cons_append, handed, rowFrom, true_and]
    split_ifs
    · exact ih.2 _
    · exact ih.2 _
    · exact congrArg (trimSpace (whole ++ c) :: ·) ih.1

variable {l : Bytes}

private theorem rows_append (hl : newline ∉ l) (bs : Bytes) :
    rows readCols (l ++ newline :: bs) = (rowOf readCols l).toList ++ rows readCols bs := by
  rw [rows, readLines_append hl]
  refine (handed_append (fun whole ↦ ?_) rfl (chunks bufSize l).1).2 []
  simp only [handed, Bool.false_eq_true, false_and, if_false, trimSpace_append_dropCR, keep]
  split_ifs <;> rfl

theorem rows_of_not_mem (hl : newline ∉ l) : rows readCols l = (lastRowOf readCols l).toList := by
  rw [rows, readLines_of_not_mem hl, ← List.append_nil (Option.toList _)]
  refine (handed_append (fun whole ↦ ?_) ?_ (chunks bufSize l).1).2 []
  · split_ifs
    · rfl
    · simp only [handed, Bool.false_eq_true, false_and, if_false, keep]
      split_ifs <;> rfl
  · split_ifs <;> rfl

/-- **The rows of a file are those of its lines.** -/
theorem exists_lines (readCols : ℕ) (content : Bytes) :
    ∃ init last, lines content = init ++ [last] ∧
      rows readCols content =
        init.filterMap (rowOf readCols) ++ (lastRowOf readCols last).toList := by
  induction hn : content.length using Nat.strong_induction_on generalizing content with
  | _ n ih =>
    by_cases hmem : newline ∈ content
    · obtain ⟨l, bs, rfl, hl⟩ := exists_append_of_mem hmem
      rw [List.length_append, List.length_cons] at hn
      obtain ⟨init, last, hlines, hrows⟩ := ih bs.length (by omega) bs rfl
      refine ⟨l :: init, last, ?_, ?_⟩
      · rw [lines, List.splitOn_append_cons_self_of_not_mem hl, ← lines, hlines, List.cons_append]
      · rw [rows_append hl, hrows, List.filterMap_cons, ← List.append_assoc]
        cases rowOf readCols l <;> rfl
    · exact ⟨[], content, List.splitOn_eq_singleton hmem, rows_of_not_mem hmem⟩

/-! ### Where a line is cut -/

/-- Where the reading of a line in full buffers stops before its end. -/
def cutFrom (readCols : ℕ) : Bytes → List Bytes → Option (Bytes × List Bytes)
  | _, [] => none
  | whole, c :: cs =>
    if (whole ++ c).count colon < readCols then cutFrom readCols (whole ++ c) cs
    else some (whole ++ c, cs)

/-- What is read of a line as one, and what is behind it. -/
def cut (readCols : ℕ) (l : Bytes) : Bytes × Bytes :=
  match cutFrom readCols [] (chunks bufSize l).1 with
  | none => (l, [])
  | some (whole, cs) => (whole, cs.flatten ++ (chunks bufSize l).2)

/-- The row that is read from the rest of a line. -/
def stray (readCols : ℕ) (l : Bytes) : Option Bytes :=
  match cutFrom readCols [] (chunks bufSize l).1 with
  | none => none
  | some (_, cs) => rowFrom readCols (fun whole ↦ keep (whole ++ (chunks bufSize l).2)) [] cs

private theorem rowFrom_eq (finish : Bytes → Option Bytes) (whole : Bytes) (cs : List Bytes) :
    rowFrom readCols finish whole cs =
      match cutFrom readCols whole cs with
      | none => finish (whole ++ cs.flatten)
      | some (head, cs') =>
        if Ignored (trimSpace head) then rowFrom readCols finish [] cs'
        else some (trimSpace head) := by
  induction cs generalizing whole with
  | nil => rw [rowFrom, cutFrom, List.flatten_nil, List.append_nil]
  | cons c cs ih =>
    rw [rowFrom, cutFrom]
    by_cases hcount : (whole ++ c).count colon < readCols
    · rw [if_pos hcount, if_pos hcount, ih, List.flatten_cons, List.append_assoc]
    · rw [if_neg hcount, if_neg hcount]

private theorem cutFrom_eq_some {whole head : Bytes} {cs cs' : List Bytes}
    (h : cutFrom readCols whole cs = some (head, cs')) :
    whole ++ cs.flatten = head ++ cs'.flatten ∧ readCols ≤ head.count colon := by
  induction cs generalizing whole with
  | nil => cases h
  | cons c cs ih =>
    rw [cutFrom] at h
    split_ifs at h with hcount
    · rw [List.flatten_cons, ← List.append_assoc]
      exact ih h
    · cases h
      exact ⟨by rw [List.flatten_cons, List.append_assoc], not_lt.1 hcount⟩

/-- Nothing of a line is lost where it is cut. -/
theorem cut_append (readCols : ℕ) (l : Bytes) : (cut readCols l).1 ++ (cut readCols l).2 = l := by
  rw [cut]
  cases h : cutFrom readCols [] (chunks bufSize l).1 with
  | none => exact List.append_nil l
  | some q =>
    have hflat := (cutFrom_eq_some h).1
    rw [List.nil_append] at hflat
    dsimp only
    rw [← List.append_assoc, ← hflat, flatten_chunks]

/-- A line that is cut has enough colons in front. -/
theorem cut_cases (readCols : ℕ) (l : Bytes) :
    (cut readCols l = (l, []) ∧ stray readCols l = none) ∨
      readCols ≤ (cut readCols l).1.count colon := by
  rw [cut, stray]
  cases h : cutFrom readCols [] (chunks bufSize l).1 with
  | none => exact .inl ⟨rfl, rfl⟩
  | some q => exact .inr (cutFrom_eq_some h).2

theorem cut_of_count_lt (h : l.count colon < readCols) :
    cut readCols l = (l, []) ∧ stray readCols l = none := by
  refine (cut_cases readCols l).resolve_right fun hle ↦ ?_
  have hcount := congrArg (List.count colon) (cut_append readCols l)
  rw [List.count_append] at hcount
  omega

theorem colon_not_mem_spaces : ∀ w ∈ spaces, colon ∉ w := by decide

theorem count_trimSpace (l : Bytes) : (trimSpace l).count colon = l.count colon :=
  Trim.count_trim isBicode_spaces colon_not_mem_spaces l

/-- Whether a line is passed over is decided in front of its first colon. -/
theorem ignored_append {h : Bytes} (hmem : colon ∈ h) (t : Bytes) :
    Ignored (trimSpace (h ++ t)) ↔ Ignored (trimSpace h) := by
  obtain ⟨u, v, rfl, -⟩ := exists_append_of_mem hmem
  have htrim : ∀ w, trimSpace (u ++ colon :: w) =
      Trim.trimLeft spaces u ++ colon :: Trim.trimRight spaces w :=
    Trim.trim_append_cons isBicode_spaces colon_not_mem_spaces u
  rw [List.append_assoc, List.cons_append, htrim, htrim, Ignored, Ignored]
  cases Trim.trimLeft spaces u <;> simp

/-- **The row of a line** is what was read of it, or something from the rest of a comment. -/
theorem rowOf_eq (hpos : 0 < readCols) (l : Bytes) :
    rowOf readCols l =
      if Ignored (trimSpace l) then stray readCols l
      else some (trimSpace (cut readCols l).1) := by
  have happend := cut_append readCols l
  rw [rowOf, rowFrom_eq, stray]
  rw [cut] at happend ⊢
  cases h : cutFrom readCols [] (chunks bufSize l).1 with
  | none => simp only [List.nil_append, flatten_chunks, keep]
  | some q =>
    have hmem : colon ∈ q.1 := List.count_pos_iff.1 (hpos.trans_le (cutFrom_eq_some h).2)
    rw [h] at happend
    have hign : Ignored (trimSpace q.1) ↔ Ignored (trimSpace l) := by
      rw [← happend]
      exact (ignored_append hmem _).symm
    dsimp only
    rw [if_congr hign rfl rfl]

/-! ### The last line -/

theorem rowOf_of_count_lt (hpos : 0 < readCols) (h : l.count colon < readCols) :
    rowOf readCols l = keep l := by
  rw [rowOf_eq hpos, (cut_of_count_lt h).1, (cut_of_count_lt h).2, keep]

private theorem cutFrom_of_count_lt (h : l.count colon < readCols) :
    cutFrom readCols [] (chunks bufSize l).1 = none := by
  cases hcut : cutFrom readCols [] (chunks bufSize l).1 with
  | none => rfl
  | some q =>
    have hlt := (cut_of_count_lt h).1
    rw [cut, hcut] at hlt
    obtain ⟨rfl, -⟩ := Prod.mk.inj hlt
    exact absurd (cutFrom_eq_some hcut).2 (not_le.2 h)

/-- The last line is lost if it ends with a full buffer and has too few colons for it to be cut. -/
theorem lastRowOf_of_count_lt (h : l.count colon < readCols) :
    lastRowOf readCols l = if (chunks bufSize l).2 = [] then none else keep l := by
  rw [lastRowOf, rowFrom_eq, cutFrom_of_count_lt h]
  simp only [List.nil_append, flatten_chunks]

private theorem rowFrom_bind {β : Type*} {m : Bytes → Option β}
    {finish finish' : Bytes → Option Bytes} (hpos : 0 < readCols)
    (hfinish : ∀ whole, whole.count colon < readCols →
      (finish whole).bind m = (finish' whole).bind m)
    {whole : Bytes} (hwhole : whole.count colon < readCols) (cs : List Bytes) :
    (rowFrom readCols finish whole cs).bind m = (rowFrom readCols finish' whole cs).bind m := by
  induction cs generalizing whole with
  | nil => exact hfinish whole hwhole
  | cons c cs ih =>
    simp only [rowFrom]
    split_ifs with hcount
    · exact ih hcount
    · exact ih hpos
    · rfl

/-- For what takes no row with fewer colons, it makes no difference whether a line is the last. -/
theorem lastRowOf_bind {β : Type*} {m : Bytes → Option β} (hpos : 0 < readCols)
    (hm : ∀ r, r.count colon < readCols → m r = none) (l : Bytes) :
    (lastRowOf readCols l).bind m = (rowOf readCols l).bind m := by
  have hnil : ([] : Bytes).count colon < readCols := hpos
  refine rowFrom_bind hpos (fun whole hwhole ↦ ?_) hnil _
  split_ifs with hlast
  · rw [hlast, List.append_nil, keep]
    split_ifs
    · rfl
    · exact (hm _ (((isInfix_trimSpace whole).sublist.count_le colon).trans_lt hwhole)).symm
  · rfl

end Xuser
