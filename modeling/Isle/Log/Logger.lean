import Isle.Foundation.Run
import Isle.Log.Writer
import Mathlib.Data.List.TakeWhile
import Mathlib.Logic.Function.Basic

/-!
# The container logger

The `log` function of `pkg/clog/containerd-clog-logger/main.go`, which writes what a container
prints on its two outputs to a log directory. Each output goes through a pipe: a goroutine of `log`
copies it into the pipe (`io.Copy`), and the goroutine of `IOInput` reads lines from the other end
and writes them to the log. `log` waits for the two copies and returns; it waits for neither reader,
closes neither pipe, and neither flushes nor closes the writer.

The scheduler is in the labels: which goroutine goes on, and by how many bytes. How the environment
answers a write to the log is a function of the writer, on which nothing is assumed.

* `Input.Conserved` holds along every run: the lines encoded for an output are the first of its
  lines, in their order, and while its reader runs the others are still on their way.
* `mayLose_of_copying`: whatever an output prints, there is a schedule in which its copy ends before
  its last line is read.
-/

namespace Log

/-! ### Lines -/

/-- The lines `ReadString` makes of some bytes, each with its newline; the last may have none. -/
def linesOf : Bytes → List Bytes
  | [] => []
  | b :: bs =>
    if b = 10 then [b] :: linesOf bs
    else
      match linesOf bs with
      | [] => [[b]]
      | l :: ls => (b :: l) :: ls

/-- `strings.TrimRight(line, " \\t\\n")` -/
def trimRight (line : Bytes) : Bytes :=
  (line.reverse.dropWhile fun b ↦ b = 32 ∨ b = 9 ∨ b = 10).reverse

theorem linesOf_eq_nil {bs : Bytes} : linesOf bs = [] ↔ bs = [] := by
  cases bs with
  | nil => exact iff_of_true rfl rfl
  | cons b bs =>
    refine iff_of_false ?_ (List.cons_ne_nil _ _)
    rw [linesOf]
    by_cases hb : b = 10
    · rw [if_pos hb]
      exact List.cons_ne_nil _ _
    · rw [if_neg hb]
      cases linesOf bs <;> exact List.cons_ne_nil _ _

/-- The first line ends with the first newline. -/
theorem linesOf_append_newline {l : Bytes} (hl : (10 : UInt8) ∉ l) (rest : Bytes) :
    linesOf (l ++ 10 :: rest) = (l ++ [10]) :: linesOf rest := by
  induction l with
  | nil => rw [List.nil_append, linesOf, if_pos rfl, List.nil_append]
  | cons b l ih =>
    obtain ⟨hb, hl⟩ := not_or.1 (mt List.mem_cons.2 hl)
    rw [List.cons_append, linesOf, if_neg (Ne.symm hb), ih hl]
    rfl

/-- Without a newline there is one line. -/
theorem linesOf_of_notMem {l : Bytes} (hl : (10 : UInt8) ∉ l) (hne : l ≠ []) :
    linesOf l = [l] := by
  induction l with
  | nil => exact absurd rfl hne
  | cons b l ih =>
    obtain ⟨hb, hl⟩ := not_or.1 (mt List.mem_cons.2 hl)
    rw [linesOf, if_neg (Ne.symm hb)]
    by_cases hnil : l = []
    · rw [hnil]
      rfl
    · rw [ih hl hnil]

/-! ### The goroutines -/

/-- The outputs of a container. -/
inductive Output
  | stderr
  | stdout
  deriving DecidableEq, Repr

/-- An output on its way to the log. -/
structure Input (Id : Type*) where
  /-- What the copy has not read yet. -/
  src : Bytes
  /-- What is in the pipe. -/
  pipe : Bytes
  /-- What the reader has read and made no line of. -/
  buf : Bytes
  /-- Whether the copy still runs. -/
  copying : Bool
  /-- Whether the reader still runs; the read end is closed when it returns. -/
  reading : Bool
  /-- Whether the write end was closed, as the runtime may do once the copy is over. -/
  hungUp : Bool
  /-- The entries written for this output. -/
  encoded : List (Entry Id)
  deriving DecidableEq, Repr

/-- How far `log` has come. -/
inductive Main
  /-- It starts the goroutines and calls `ready`. -/
  | starting
  /-- It waits for the copies. -/
  | waiting
  /-- It has returned, with the error of `ready` or with nil. -/
  | returned (failed : Bool)
  deriving DecidableEq, Repr

/-- The process is there as long as `log` has not returned. -/
def Main.running : Main → Bool
  | .returned _ => false
  | _ => true

/-- The logger of a command: its writer, and the loops that feed it. -/
structure Logger (Id : Type*) where
  dw : DirectoryWriter Id
  input : Output → Input Id
  main : Main

/-- The bytes a pipe takes. -/
def pipeSize : ℕ := 65536

/-- What goes on next. -/
inductive LoggerAct
  | ready (ok : Bool)
  /-- The copy of an output writes some bytes to the pipe. -/
  | copy (o : Output) (n : ℕ)
  /-- The copy of an output ends: at the end of the output, or because nothing reads the pipe. -/
  | copyEnd (o : Output)
  | hangUp (o : Output)
  /-- The reader of an output, with no line to make, reads some bytes from the pipe. -/
  | fill (o : Output) (n : ℕ)
  /-- The reader of an output writes a line to the log. -/
  | line (o : Output)
  /-- The reader of an output finds the pipe closed. -/
  | eof (o : Output)
  | wait
  deriving DecidableEq, Repr

namespace Logger

variable {Id : Type*} [LinearOrder Id] {U : Ulid Id} (fmt : Codec UInt8 (Entry Id))
  (env : DirectoryWriter Id → WriteEnv U)

/-- One of the inputs is changed. -/
def set (s : Logger Id) (o : Output) (i : Input Id) : Logger Id :=
  { s with input := Function.update s.input o i }

/-- The reader of an output writes a line, and goes on with what it has read behind it; it returns
if the write fails. -/
def deliver (s : Logger Id) (o : Output) (line rest : Bytes) : Logger Id :=
  let r := s.dw.write fmt (env s.dw) (trimRight line)
  { s with dw := r.2 }.set o
    { s.input o with
      buf := rest
      reading := r.1 = none
      encoded := (s.input o).encoded ++
        if r.1 = none then ((env s.dw).ts.map (Entry.mk · (trimRight line))).toList else [] }

/-- One step of the logger. -/
def step (s : Logger Id) : LoggerAct → Option (Logger Id)
  | .ready ok =>
    if s.main = .starting then some { s with main := if ok then .waiting else .returned true }
    else none
  | .copy o n =>
    let i := s.input o
    if s.main.running ∧ i.copying ∧ i.reading ∧ 0 < n ∧ n ≤ i.src.length ∧
        i.pipe.length + n ≤ pipeSize then
      some (s.set o { i with src := i.src.drop n, pipe := i.pipe ++ i.src.take n })
    else none
  | .copyEnd o =>
    let i := s.input o
    if s.main.running ∧ i.copying ∧ (i.src = [] ∨ ¬ i.reading) then
      some (s.set o { i with copying := false })
    else none
  | .hangUp o =>
    let i := s.input o
    if s.main.running ∧ ¬ i.copying then some (s.set o { i with hungUp := true })
    else none
  | .fill o n =>
    let i := s.input o
    if s.main.running ∧ i.reading ∧ (10 : UInt8) ∉ i.buf ∧ 0 < n ∧ n ≤ bufSize ∧
        n ≤ i.pipe.length then
      some (s.set o { i with pipe := i.pipe.drop n, buf := i.buf ++ i.pipe.take n })
    else none
  | .line o =>
    let i := s.input o
    if s.main.running ∧ i.reading ∧ (10 : UInt8) ∈ i.buf then
      some (s.deliver fmt env o (i.buf.takeWhile (· ≠ 10) ++ [10])
        (i.buf.dropWhile (· ≠ 10)).tail)
    else none
  | .eof o =>
    let i := s.input o
    if s.main.running ∧ i.reading ∧ i.hungUp ∧ i.pipe = [] ∧ (10 : UInt8) ∉ i.buf then
      -- the rest of the output is a line if there is any, and no line is the end
      some (if i.buf = [] then s.set o { i with reading := false }
        else s.deliver fmt env o i.buf [])
    else none
  | .wait =>
    if s.main = .waiting ∧ ¬ (s.input .stderr).copying ∧ ¬ (s.input .stdout).copying then
      some { s with main := .returned false }
    else none

/-- The logger when its goroutines are started. -/
def start (dw : DirectoryWriter Id) (printed : Output → Bytes) : Logger Id where
  dw := dw
  input o := ⟨printed o, [], [], true, true, false, []⟩
  main := .starting

/-- Every line of both outputs was encoded, each output's in their order, and is in a shard. -/
def Complete (printed : Output → Bytes) (s : Logger Id) : Prop :=
  ∀ o, (s.input o).encoded.map Entry.data = (linesOf (printed o)).map trimRight ∧
    ∀ e ∈ (s.input o).encoded, ∃ sh ∈ s.dw.dir.all, e ∈ fmt.decodeAll sh.data

end Logger

/-! ### Where the lines are -/

/-- The lines encoded for an output are its first ones, in their order; while the reader runs, the
others are those of the bytes on their way. -/
structure Input.Conserved {Id : Type*} (printed : Bytes) (i : Input Id) : Prop where
  lines : ∃ rest, (linesOf printed).map trimRight = i.encoded.map Entry.data ++ rest ∧
    (i.reading = true → rest = (linesOf (i.buf ++ i.pipe ++ i.src)).map trimRight)
  ended : i.copying = false → i.reading = true → i.src = []
  hung : i.hungUp = true → i.copying = false

namespace Logger

variable {Id : Type*} [LinearOrder Id] {U : Ulid Id} {fmt : Codec UInt8 (Entry Id)}
  {env : DirectoryWriter Id → WriteEnv U} {s t : Logger Id} {o : Output}
  {printed : Output → Bytes} {line rest : Bytes}

omit [LinearOrder Id] in
@[simp] theorem set_self (i : Input Id) : (s.set o i).input o = i := Function.update_self ..

omit [LinearOrder Id] in
theorem set_of_ne {o' : Output} (h : o' ≠ o) (i : Input Id) : (s.set o i).input o' = s.input o' :=
  Function.update_of_ne h ..

/-- A line delivered is encoded, or the reader returns. -/
theorem deliver_cases (fmt : Codec UInt8 (Entry Id)) (env : DirectoryWriter Id → WriteEnv U)
    (s : Logger Id) (o : Output) (line rest : Bytes) :
    (∃ d ts, s.deliver fmt env o line rest = { s with dw := d }.set o
      { s.input o with
        buf := rest
        reading := true
        encoded := (s.input o).encoded ++ [Entry.mk ts (trimRight line)] }) ∨
    ∃ d, s.deliver fmt env o line rest = { s with dw := d }.set o
      { s.input o with buf := rest, reading := false } := by
  unfold deliver
  by_cases hack : (s.dw.write fmt (env s.dw) (trimRight line)).1 = none
  · obtain ⟨ts, -, hts, -⟩ := DirectoryWriter.write_cases_of_ack hack
    refine .inl ⟨(s.dw.write fmt (env s.dw) (trimRight line)).2, ts, ?_⟩
    simp only [hack, hts, if_true, decide_true]
    rfl
  · refine .inr ⟨(s.dw.write fmt (env s.dw) (trimRight line)).2, ?_⟩
    simp only [hack, if_false, decide_false, List.append_nil]

end Logger

namespace Input.Conserved

variable {Id : Type*} {S : Bytes} {i : Input Id} {ts : Id} {line rest : Bytes}

/-- A line that is the first of those on their way is encoded. -/
theorem encode (h : i.Conserved S) (hr : i.reading = true)
    (hline : linesOf (i.buf ++ i.pipe ++ i.src) = line :: linesOf (rest ++ i.pipe ++ i.src)) :
    Input.Conserved S { i with
      buf := rest
      reading := true
      encoded := i.encoded ++ [⟨ts, trimRight line⟩] } := by
  obtain ⟨ls, hls, hrest⟩ := h.lines
  rw [hrest hr, hline] at hls
  refine ⟨⟨_, ?_, fun _ ↦ rfl⟩, fun hc _ ↦ h.ended hc hr, h.hung⟩
  rw [hls, List.map_append, List.append_assoc (i.encoded.map Entry.data)]
  rfl

/-- A reader that returns encodes no more. -/
theorem stop (h : i.Conserved S) (buf : Bytes) :
    Input.Conserved S { i with buf := buf, reading := false } := by
  obtain ⟨ls, hls, -⟩ := h.lines
  exact ⟨⟨ls, hls, nofun⟩, nofun, h.hung⟩

/-- Bytes that go on in their order. -/
theorem move (h : i.Conserved S) {src pipe buf : Bytes}
    (hmove : buf ++ pipe ++ src = i.buf ++ i.pipe ++ i.src) (hsrc : i.src = [] → src = []) :
    Input.Conserved S { i with src := src, pipe := pipe, buf := buf } := by
  obtain ⟨ls, hls, hrest⟩ := h.lines
  refine ⟨⟨ls, hls, fun hr ↦ ?_⟩, fun hc hr ↦ hsrc (h.ended hc hr), h.hung⟩
  rw [hmove]
  exact hrest hr

end Input.Conserved

namespace Logger

variable {Id : Type*} [LinearOrder Id] {U : Ulid Id} {fmt : Codec UInt8 (Entry Id)}
  {env : DirectoryWriter Id → WriteEnv U} {s t : Logger Id} {o : Output}
  {printed : Output → Bytes}

/-- Every output is conserved. -/
def Conserved (printed : Output → Bytes) (s : Logger Id) : Prop :=
  ∀ o, (s.input o).Conserved (printed o)

omit [LinearOrder Id] in
theorem Conserved.set (h : Conserved printed s) {i : Input Id} (hi : i.Conserved (printed o)) :
    Conserved printed (s.set o i) := by
  intro o'
  by_cases ho : o' = o
  · rw [ho, set_self]
    exact hi
  · rw [set_of_ne ho]
    exact h o'

theorem Conserved.deliver (h : Conserved printed s) (hr : (s.input o).reading = true)
    {line rest : Bytes}
    (hline : linesOf ((s.input o).buf ++ (s.input o).pipe ++ (s.input o).src) =
      line :: linesOf (rest ++ (s.input o).pipe ++ (s.input o).src)) :
    Conserved printed (s.deliver fmt env o line rest) := by
  rcases deliver_cases fmt env s o line rest with ⟨d, ts, heq⟩ | ⟨d, heq⟩
  · rw [heq]
    exact Conserved.set (s := { s with dw := d }) h ((h o).encode hr hline)
  · rw [heq]
    exact Conserved.set (s := { s with dw := d }) h ((h o).stop rest)

/-- A buffer with a newline in it starts with a line. -/
theorem linesOf_buf {buf : Bytes} (h : (10 : UInt8) ∈ buf) (later : Bytes) :
    linesOf (buf ++ later) =
      (buf.takeWhile (· ≠ 10) ++ [10]) :: linesOf ((buf.dropWhile (· ≠ 10)).tail ++ later) := by
  have hdrop : buf.dropWhile (· ≠ 10) = 10 :: (buf.dropWhile (· ≠ 10)).tail := by
    have hne : buf.dropWhile (· ≠ 10) ≠ [] := fun hnil ↦ by
      simpa using List.dropWhile_eq_nil_iff.1 hnil 10 h
    have hhead : (buf.dropWhile (· ≠ 10)).head hne = 10 := by
      simpa using List.head_dropWhile_not (fun b : UInt8 ↦ decide (b ≠ 10)) hne
    have hcons := List.cons_head_tail hne
    rw [hhead] at hcons
    exact hcons.symm
  have htake : (10 : UInt8) ∉ buf.takeWhile (· ≠ 10) := fun hmem ↦ by
    simpa using List.mem_takeWhile_imp hmem
  rw [← linesOf_append_newline htake, ← List.cons_append, ← hdrop, ← List.append_assoc,
    List.takeWhile_append_dropWhile]

/-- **One step conserves every output.** -/
theorem Conserved.step {a : LoggerAct} (h : Conserved printed s)
    (hs : s.step fmt env a = some t) : Conserved printed t := by
  cases a with
  | ready ok =>
    obtain ⟨-, rfl⟩ := guarded_eq_some hs
    exact h
  | copy o n =>
    obtain ⟨⟨-, -, -, -, hn, -⟩, rfl⟩ := guarded_eq_some hs
    refine h.set ((h o).move ?_ fun hnil ↦ by rw [hnil, List.drop_nil])
    rw [← List.append_assoc, List.append_assoc, List.take_append_drop]
  | copyEnd o =>
    obtain ⟨⟨-, -, hend⟩, rfl⟩ := guarded_eq_some hs
    refine h.set ⟨(h o).lines, fun _ hr ↦ ?_, fun _ ↦ rfl⟩
    exact hend.resolve_right (not_not_intro hr)
  | hangUp o =>
    obtain ⟨⟨-, hc⟩, rfl⟩ := guarded_eq_some hs
    exact h.set ⟨(h o).lines, (h o).ended, fun _ ↦ Bool.eq_false_iff.2 hc⟩
  | fill o n =>
    obtain ⟨-, rfl⟩ := guarded_eq_some hs
    refine h.set ((h o).move ?_ fun hnil ↦ hnil)
    rw [List.append_assoc (s.input o).buf, List.take_append_drop]
  | line o =>
    obtain ⟨⟨-, hr, hmem⟩, rfl⟩ := guarded_eq_some hs
    refine h.deliver hr ?_
    rw [List.append_assoc, linesOf_buf hmem, List.append_assoc]
  | eof o =>
    obtain ⟨⟨-, hr, hhung, hpipe, hmem⟩, rfl⟩ := guarded_eq_some hs
    have hsrc : (s.input o).src = [] := (h o).ended ((h o).hung hhung) hr
    by_cases hbuf : (s.input o).buf = []
    · rw [if_pos hbuf]
      exact h.set ((h o).stop _)
    · rw [if_neg hbuf]
      refine h.deliver hr ?_
      rw [hpipe, hsrc, List.append_nil, List.append_nil, linesOf_of_notMem hmem hbuf]
      rfl
  | wait =>
    obtain ⟨-, rfl⟩ := guarded_eq_some hs
    exact h

omit [LinearOrder Id] in
theorem conserved_start (dw : DirectoryWriter Id) : Conserved printed (start dw printed) :=
  fun _ ↦ ⟨⟨_, rfl, fun _ ↦ rfl⟩, nofun, nofun⟩

/-! ### A copy that is over too soon -/

/-- Some line of the output is not encoded. -/
def Lossy (S : Bytes) (i : Input Id) : Prop :=
  ∃ l ls, (linesOf S).map trimRight = i.encoded.map Entry.data ++ l :: ls

omit [LinearOrder Id] in
/-- Bytes that are still on their way have a line that is not encoded. -/
theorem Lossy.of_conserved {S : Bytes} {i : Input Id} (h : i.Conserved S)
    (hr : i.reading = true) (hne : i.buf ++ i.pipe ++ i.src ≠ []) : Lossy S i := by
  obtain ⟨rest, hrest, heq⟩ := h.lines
  obtain ⟨l, ls, hls⟩ := List.exists_cons_of_ne_nil (mt linesOf_eq_nil.1 hne)
  rw [heq hr, hls] at hrest
  exact ⟨_, _, hrest⟩

/-- Nothing but one output and the log has changed. -/
structure Frame (o : Output) (s t : Logger Id) : Prop where
  main : t.main = s.main
  other : ∀ o', o' ≠ o → t.input o' = s.input o'

omit [LinearOrder Id] in
theorem Frame.trans {u : Logger Id} (h : Frame o s t) (h' : Frame o t u) : Frame o s u :=
  ⟨h'.main.trans h.main, fun o' ho' ↦ (h'.other o' ho').trans (h.other o' ho')⟩

omit [LinearOrder Id] in
theorem frame_set (s : Logger Id) (d : DirectoryWriter Id) (i : Input Id) :
    Frame o s ({ s with dw := d }.set o i) :=
  ⟨rfl, fun _ ho' ↦ set_of_ne ho' i⟩

/-- A copy that has nothing to copy, or that nobody reads, ends. -/
theorem run_copyEnd (hs : s.main.running = true) (hcopy : (s.input o).copying = true)
    (hend : (s.input o).src = [] ∨ (s.input o).reading = false) :
    Run (step fmt env) s [.copyEnd o] (s.set o { s.input o with copying := false }) :=
  .cons trivial (if_pos ⟨hs, hcopy, hend.imp_right Bool.eq_false_iff.1⟩) (.nil _)

variable {b : UInt8} {src : Bytes}

/-- The output is copied and read, and the logger has not returned. -/
structure Copying (o : Output) (s : Logger Id) : Prop where
  running : s.main.running = true
  copying : (s.input o).copying = true
  reading : (s.input o).reading = true

/-- A byte is copied to an empty pipe. -/
theorem step_copy_byte (h : Copying o s) (hpipe : (s.input o).pipe = [])
    (hsrc : (s.input o).src = b :: src) :
    step fmt env s (.copy o 1) = some (s.set o { s.input o with src := src, pipe := [b] }) := by
  have hlen : 1 ≤ (s.input o).src.length := by
    rw [hsrc, List.length_cons]
    omega
  have hroom : (s.input o).pipe.length + 1 ≤ pipeSize := by
    rw [hpipe]
    decide
  refine (if_pos ⟨h.running, h.copying, h.reading, Nat.one_pos, hlen, hroom⟩).trans ?_
  rw [hsrc, hpipe]
  rfl

/-- A byte goes through an empty pipe to a reader that has no line to make. -/
theorem run_byte (h : Copying o s) (hpipe : (s.input o).pipe = [])
    (hbuf : (10 : UInt8) ∉ (s.input o).buf) (hsrc : (s.input o).src = b :: src) :
    Run (step fmt env) s [.copy o 1, .fill o 1]
      (s.set o { s.input o with src := src, buf := (s.input o).buf ++ [b] }) := by
  have hfilled : step fmt env (s.set o { s.input o with src := src, pipe := [b] }) (.fill o 1) =
      some (s.set o { s.input o with src := src, buf := (s.input o).buf ++ [b] }) := by
    simp only [step, set_self]
    refine (if_pos ⟨h.running, h.reading, hbuf, Nat.one_pos, by decide, le_rfl⟩).trans ?_
    rw [set, set, set, Function.update_idem, hpipe]
    rfl
  exact .cons trivial (step_copy_byte h hpipe hsrc) (.cons trivial hfilled (.nil _))

/-- A reader that has just read a newline delivers the line. -/
theorem step_line (h : Copying o s) {line : Bytes} (hline : (10 : UInt8) ∉ line)
    (hbuf : (s.input o).buf = line ++ [10]) :
    step fmt env s (.line o) = some (s.deliver fmt env o (line ++ [10]) []) := by
  have hmem : (10 : UInt8) ∈ (s.input o).buf := by
    rw [hbuf]
    simp
  have hpass : ∀ b ∈ line, decide (b ≠ 10) = true := fun b hb ↦
    decide_eq_true fun heq ↦ hline (heq ▸ hb)
  refine (if_pos ⟨h.running, h.reading, hmem⟩).trans ?_
  rw [hbuf, List.takeWhile_append_of_pos hpass, List.dropWhile_append_of_pos hpass]
  simp

variable (fmt env s o printed) in
/-- The copy may end with a line that is not encoded. -/
def MayLose : Prop :=
  ∃ as t, Run (step fmt env) s as t ∧ Frame o s t ∧ (t.input o).copying = false ∧
    Lossy (printed o) (t.input o)

/-- It may if it may after some steps. -/
theorem MayLose.of_run {as : List LoggerAct} (hrun : Run (step fmt env) s as t)
    (hframe : Frame o s t) (h : MayLose fmt env t o printed) : MayLose fmt env s o printed := by
  obtain ⟨as', u, hu, hframe', hres⟩ := h
  exact ⟨_, u, hrun.append hu, hframe.trans hframe', hres⟩

/-- The last byte is copied, and the copy ends with it in the pipe. -/
theorem mayLose_lastByte (h : Copying o s) (hcons : Conserved printed s)
    (hpipe : (s.input o).pipe = []) (hsrc : (s.input o).src = [b]) :
    MayLose fmt env s o printed := by
  have hrun : Run (step fmt env) s _ _ :=
    .cons trivial (step_copy_byte h hpipe hsrc) (run_copyEnd (by exact h.running)
      (by rw [set_self]; exact h.copying) (.inl (by rw [set_self])))
  have hcons' := hrun.invariant (I := Conserved printed) (fun _ _ _ h _ ↦ h.step) hcons
  refine ⟨_, _, hrun, (frame_set s s.dw _).trans (frame_set _ _ _), by rw [set_self], ?_⟩
  refine Lossy.of_conserved (hcons' o) ?_ ?_
  · rw [set_self, set_self]
    exact h.reading
  · rw [set_self, set_self]
    simp

/-- The reader is gone with the line it could not write, and the copy cannot go on. -/
theorem mayLose_stopped (h : Copying o s) (hcons : Conserved printed s)
    (hbuf : (s.input o).buf ≠ []) {d : DirectoryWriter Id}
    (hstop : step fmt env s (.line o) = some ({ s with dw := d }.set o
      { s.input o with buf := [], reading := false })) :
    MayLose fmt env s o printed := by
  have hlossy : Lossy (printed o) (s.input o) :=
    Lossy.of_conserved (hcons o) h.reading (by simp [hbuf])
  refine ⟨_, _, .cons trivial hstop (run_copyEnd (by exact h.running) ?_ (.inr ?_)),
    (frame_set s d _).trans (frame_set _ _ _), by rw [set_self], ?_⟩
  · rw [set_self]
    exact h.copying
  · rw [set_self]
  · rw [set_self, set_self]
    exact hlossy

/-- **A copy may end before the last line is read**, whatever is printed and however the environment
answers: the bytes go through the pipe one by one, and the last one stays in it. -/
theorem mayLose_of_copying (h : Copying o s) (hcons : Conserved printed s)
    (hpipe : (s.input o).pipe = []) (hbuf : (10 : UInt8) ∉ (s.input o).buf)
    (hsrc : (s.input o).src = src) (hne : src ≠ []) : MayLose fmt env s o printed := by
  induction src generalizing s with
  | nil => exact absurd rfl hne
  | cons b src ih =>
    -- the bytes are copied one at a time, and the last is the one to be lost
    by_cases hlast : src = []
    · subst hlast
      exact mayLose_lastByte h hcons hpipe hsrc
    · have hrun : Run (step fmt env) s _ _ := run_byte h hpipe hbuf hsrc
      have hcons' := hrun.invariant (I := Conserved printed) (fun _ _ _ h _ ↦ h.step) hcons
      refine .of_run hrun (frame_set s s.dw _) ?_
      generalize ht : s.set o { s.input o with src := src, buf := (s.input o).buf ++ [b] } = t at *
      have hin : t.input o = { s.input o with src := src, buf := (s.input o).buf ++ [b] } := by
        rw [← ht, set_self]
      have h' : Copying o t :=
        ⟨by rw [← ht]; exact h.running, by rw [hin]; exact h.copying, by rw [hin]; exact h.reading⟩
      by_cases hb : b = 10
      · have hline : step fmt env t (.line o) =
            some (t.deliver fmt env o ((s.input o).buf ++ [10]) []) :=
          step_line h' hbuf (by rw [hin, hb])
        rcases deliver_cases fmt env t o ((s.input o).buf ++ [10]) [] with ⟨d, ts, heq⟩ | ⟨d, heq⟩
        · rw [heq] at hline
          refine .of_run (.cons trivial hline (.nil _)) (frame_set t d _) (ih
            ⟨h'.running, ?_, ?_⟩ (hcons'.step hline) ?_ ?_ ?_ hlast)
          · rw [set_self]
            exact h'.copying
          · rw [set_self]
          · rwa [set_self, hin]
          · rw [set_self]
            exact List.not_mem_nil
          · rw [set_self, hin]
        · -- the line cannot be written, and the reader is gone with it
          rw [heq] at hline
          exact mayLose_stopped h' hcons' (by rw [hin]; simp) hline
      · exact ih h' hcons' (by rwa [hin]) (by rw [hin]; simpa [hbuf] using Ne.symm hb)
          (by rw [hin]) hlast

variable (fmt env) in
/-- A copy ends, and if anything was printed it may do so before the last line is read. -/
theorem exists_copied (hs : s.main.running = true) (hcons : Conserved printed s)
    (hin : s.input o = ⟨printed o, [], [], true, true, false, []⟩) :
    ∃ as t, Run (step fmt env) s as t ∧ Frame o s t ∧ (t.input o).copying = false ∧
      (printed o ≠ [] → Lossy (printed o) (t.input o)) := by
  by_cases hnil : printed o = []
  · have hrun : Run (step fmt env) s _ _ := run_copyEnd (o := o) hs (by rw [hin])
      (.inl (by rw [hin, hnil]))
    exact ⟨_, _, hrun, frame_set s s.dw _, by rw [set_self], fun h ↦ absurd hnil h⟩
  · obtain ⟨as, t, hrun, hframe, hcopied, hlossy⟩ : MayLose fmt env s o printed :=
      mayLose_of_copying ⟨hs, by rw [hin], by rw [hin]⟩ hcons (by rw [hin])
        (by rw [hin]; exact List.not_mem_nil) (by rw [hin]) hnil
    exact ⟨as, t, hrun, hframe, hcopied, fun _ ↦ hlossy⟩

/-- **The logger is complete only when there is nothing to log.** However the environment answers,
every run of the logger that returns nil has written every line of both outputs to a shard if and
only if nothing is printed on either. -/
theorem complete_iff_nothing_printed (fmt : Codec UInt8 (Entry Id))
    (env : DirectoryWriter Id → WriteEnv U) (dw : DirectoryWriter Id)
    (printed : Output → List UInt8) :
    (∀ as s, Run (step fmt env) (start dw printed) as s → s.main = .returned false →
      Complete fmt printed s) ↔ ∀ o, printed o = [] := by
  constructor
  · intro h
    by_contra hprinted
    obtain ⟨o, ho⟩ := not_forall.1 hprinted
    -- both copies end, and then `log` returns
    have hstart : Conserved printed (start dw printed) := conserved_start dw
    obtain ⟨as₁, s₁, hrun₁, hframe₁, hcopied₁, hlossy₁⟩ :=
      exists_copied fmt env (o := .stderr) rfl hstart rfl
    have hcons₁ := hrun₁.invariant (I := Conserved printed) (fun _ _ _ h _ ↦ h.step) hstart
    obtain ⟨as₂, s₂, hrun₂, hframe₂, hcopied₂, hlossy₂⟩ :=
      exists_copied fmt env (o := .stdout) (by rw [hframe₁.main]; rfl) hcons₁
        (hframe₁.other .stdout (by decide))
    have hstderr : s₂.input .stderr = s₁.input .stderr := hframe₂.other .stderr (by decide)
    have hmain : s₂.main = .starting := hframe₂.main.trans hframe₁.main
    have hready : step fmt env s₂ (.ready true) = some { s₂ with main := .waiting } :=
      if_pos hmain
    have hwait : step fmt env { s₂ with main := .waiting } .wait =
        some { s₂ with main := .returned false } :=
      if_pos ⟨rfl, by rw [hstderr, hcopied₁]; exact Bool.false_ne_true,
        by rw [hcopied₂]; exact Bool.false_ne_true⟩
    have hcomplete := h _ _
      (hrun₁.append (hrun₂.append (.cons trivial hready (.cons trivial hwait (.nil _))))) rfl o
    have hlossy : Lossy (printed o) (s₂.input o) := by
      cases o with
      | stderr =>
        rw [hstderr]
        exact hlossy₁ ho
      | stdout => exact hlossy₂ ho
    obtain ⟨l, ls, hls⟩ := hlossy
    have hsame := hcomplete.1.trans hls
    simp at hsame
  · intro hnone as s hrun _ o
    have hcons := hrun.invariant (I := Conserved printed) (fun _ _ _ h _ ↦ h.step)
      (conserved_start dw)
    obtain ⟨rest, hrest, -⟩ := (hcons o).lines
    rw [hnone o] at hrest
    obtain ⟨henc, -⟩ := List.append_eq_nil_iff.1 hrest.symm
    rw [hnone o, henc]
    exact ⟨rfl, fun e he ↦ by rw [List.map_eq_nil_iff.1 henc] at he; cases he⟩

/-- One line on standard output. -/
def oneLine : Output → Bytes
  | .stderr => []
  | .stdout => [97, 10]

/-- **A line that is lost.** The line is copied into the pipe, both copies are over, `log` returns
nil, and its reader has not had a turn. -/
theorem exists_incomplete_run :
    ∃ s, Run (step cborEntry fun _ ↦ .ordinary ulid128 2 3)
        (start { eagerWriter 1 10 with max := defaultMax } oneLine)
        [.ready true, .copy .stdout 2, .copyEnd .stderr, .copyEnd .stdout, .wait] s ∧
      s.main = .returned false ∧ ¬ Complete cborEntry oneLine s := by
  refine ⟨_, run_iff_foldlM.2 rfl, rfl, fun h ↦ ?_⟩
  exact absurd (h .stdout).1 (by decide)

end Logger

end Log
