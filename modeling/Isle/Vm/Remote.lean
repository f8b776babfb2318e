import Isle.Foundation.Run

/-!
# Commands run for the other side

`RunOnMac` of `vm/vm.go`, which runs a command of the guest on the host, and `Console` of
`guest/api.go`, which runs one of the host in the guest. The client sends the command in a first
message and input in further ones, and gets the output and at last the exit code. The two handlers
are the same but for the directory of the command and what `RunOnMac` needs to find it.

A handler is two goroutines that share the stream and the pipes of the process: one receives
messages and writes their input, the other reads the output and sends it, waits for the process and
sends the exit code. The client, the stream and the process are labels. What a process waits for is
part of its state (`Want`), so that a wait that nobody will ever end can be told from one that goes
on: `Session.Hung`.

**What goes wrong.** Five things do, and `served_throughout_iff` says that nothing else does.

* A first message without a command is indexed and panics.
* When the stream fails the receiver returns without closing the input, and a process that reads its
  input to the end waits for ever.
* When output cannot be sent the other loop stops reading it, and a process with more to say waits
  for ever.
* The loop reads the output until its end, not until the process exits: one that was left behind
  with the output open keeps the handler in it.
* The error of the last message is dropped.

**The end.** That a handler ends is part of what it is for: once the process has exited, its own
steps lead to the message with the exit code (`Session.Sound.ends`). They do exactly as long as the
output is not held open (`Session.exists_run_closing`, `Session.Sound.not_held`).
-/

namespace Vm

/-- A message of the client. -/
structure RunInput where
  command : List String
  input : List UInt8
  closed : Bool
  deriving DecidableEq, Repr

/-- A message to the client. -/
structure RunOutput where
  data : List UInt8
  closed : Bool
  exitCode : Int32
  deriving DecidableEq, Repr

/-- The two handlers. -/
inductive Handler
  | runOnMac
  | console
  deriving DecidableEq, Repr

/-- How a process ended. -/
inductive ExitState
  | code (c : UInt8)
  | signaled
  deriving DecidableEq, Repr

/-- `ExitCode`, as a message has it. -/
def ExitState.exitCode : ExitState → Int32
  | .code c => Int32.ofNat c.toNat
  | .signaled => -1

/-- What a process waits for. -/
inductive Want
  /-- More input, or its end. -/
  | input
  /-- Room for its output. -/
  | output
  deriving DecidableEq, Repr

/-- What the handler and its goroutine see of the process. -/
structure Proc where
  exit : Option ExitState
  /-- The process has its input open. -/
  takesInput : Bool
  /-- The process, or one that it started, has its output open. -/
  hasOutput : Bool
  wants : Option Want
  deriving DecidableEq, Repr

/-- How a handler ends. -/
inductive Returned
  /-- `nil` -/
  | ok
  | error
  | panic
  deriving DecidableEq, Repr

/-- Where the handler is. -/
inductive RunPhase
  /-- Before the process is started. -/
  | starting
  /-- In the loop that reads the output. -/
  | copying
  /-- In `cmd.Wait`. -/
  | waiting
  | ended (r : Returned)
  deriving DecidableEq, Repr

/-- A handler with its goroutine, its stream and its process. -/
structure Session where
  phase : RunPhase
  /-- The other goroutine is there. -/
  receiving : Bool
  /-- `stdin.Close` was called. -/
  inputClosed : Bool
  /-- The input of the messages after the first and before the one that closes. -/
  received : List UInt8
  /-- What was written to the process. -/
  written : List UInt8
  /-- The messages that were sent. -/
  sent : List RunOutput
  proc : Proc
  deriving DecidableEq, Repr

/-- What can happen next. -/
inductive RunEvent
  /-- `os.UserHomeDir` fails. -/
  | homeFails
  /-- The first `Recv` fails. -/
  | firstFails
  /-- The first message, and whether the pipes are made and the process is started. -/
  | first (m : RunInput) (starts : Bool)
  /-- Another message, whose input is written unless the process takes no more. -/
  | recv (m : RunInput)
  /-- Another message, of whose input `n` bytes are written when the process closes it. -/
  | recvCut (m : RunInput) (n : ℕ)
  | recvFails
  /-- Output is read, and sent or not. -/
  | output (data : List UInt8) (sends : Bool)
  /-- `stdout.Read` returns 0. -/
  | outputEnds
  /-- `cmd.Wait` returns, and the exit code is sent or not. -/
  | finish (sends : Bool)
  /-- `cmd.Wait` fails with an error that is not an exit code. -/
  | waitFails
  | wantsInput
  | wantsOutput
  | closesInput
  | closesOutput
  /-- The process exits, and one that it started keeps the output open or none does. -/
  | exits (st : ExitState) (held : Bool)
  deriving DecidableEq, Repr

/-- The process is there and runs. -/
def Session.Runs (s : Session) : Prop :=
  (s.phase = .copying ∨ s.phase = .waiting) ∧ s.proc.exit = none

instance (s : Session) : Decidable s.Runs := inferInstanceAs (Decidable (_ ∧ _))

/-- The process no longer waits for something. -/
def Proc.gets (p : Proc) (w : Want) : Proc :=
  { p with wants := if p.wants = some w then none else p.wants }

/-- The process gets input, unless that is empty. -/
def Proc.fed (p : Proc) (input : List UInt8) : Proc := if input = [] then p else p.gets .input

/-- A message with output. -/
def outputMessage (data : List UInt8) : RunOutput := ⟨data, false, 0⟩

/-- The last message. -/
def exitMessage (st : ExitState) : RunOutput := ⟨[], true, st.exitCode⟩

/-- The size of the buffer of the loop. -/
def bufSize : ℕ := 1024

/-- The first message: `in.Command[0]` panics if there is no command. -/
def Session.begin (s : Session) (m : RunInput) (starts : Bool) : Session :=
  if m.command = [] then { s with phase := .ended .panic }
  else if starts then
    { s with phase := .copying, receiving := true, proc := ⟨none, true, true, none⟩ }
  else { s with phase := .ended .error }

/-- A message for the receiver: it closes the input or is written to it. -/
def Session.receive (s : Session) (m : RunInput) : Session :=
  if m.closed then { s with inputClosed := true, receiving := false, proc := s.proc.gets .input }
  else
    { s with
      received := s.received ++ m.input
      written := if s.proc.takesInput then s.written ++ m.input else s.written
      proc := s.proc.fed m.input }

/-- One step of a handler, its client or its process. -/
def Session.step (h : Handler) (s : Session) : RunEvent → Option Session
  | .homeFails =>
    if h = .runOnMac ∧ s.phase = .starting then some { s with phase := .ended .error } else none
  | .firstFails => if s.phase = .starting then some { s with phase := .ended .error } else none
  | .first m starts => if s.phase = .starting then some (s.begin m starts) else none
  | .recv m => if s.receiving then some (s.receive m) else none
  | .recvCut m n =>
    if s.receiving ∧ m.closed = false ∧ s.proc.takesInput then
      some { s with
        received := s.received ++ m.input
        written := s.written ++ m.input.take n
        proc := { s.proc.gets .input with takesInput := false } }
    else none
  | .recvFails => if s.receiving then some { s with receiving := false } else none
  | .output data sends =>
    if s.phase = .copying ∧ data ≠ [] ∧ data.length ≤ bufSize then
      some { s with
        phase := if sends then .copying else .waiting
        sent := if sends then s.sent ++ [outputMessage data] else s.sent
        proc := s.proc.gets .output }
    else none
  | .outputEnds =>
    if s.phase = .copying ∧ s.proc.hasOutput = false then some { s with phase := .waiting }
    else none
  | .finish sends =>
    match s.proc.exit with
    | some st =>
      if s.phase = .waiting then
        some { s with
          phase := .ended .ok
          sent := if sends then s.sent ++ [exitMessage st] else s.sent }
      else none
    | none => none
  | .waitFails =>
    if s.phase = .waiting ∧ s.proc.exit ≠ none then some { s with phase := .ended .error } else none
  | .wantsInput =>
    if s.Runs ∧ s.proc.wants = none ∧ s.proc.takesInput ∧ s.inputClosed = false then
      some { s with proc := { s.proc with wants := some .input } }
    else none
  | .wantsOutput =>
    if s.Runs ∧ s.proc.wants = none ∧ s.proc.hasOutput then
      some { s with proc := { s.proc with wants := some .output } }
    else none
  | .closesInput =>
    if s.Runs ∧ s.proc.wants = none then
      some { s with proc := { s.proc with takesInput := false } }
    else none
  | .closesOutput =>
    if s.proc.wants ≠ some .output then
      some { s with proc := { s.proc with hasOutput := false } }
    else none
  -- a process that waits can still be killed
  | .exits st held =>
    if s.Runs then
      some { s with proc := ⟨some st, false, s.proc.hasOutput && held, none⟩ }
    else none

/-- A handler that was called. -/
def Session.start : Session :=
  ⟨.starting, false, false, [], [], [], ⟨none, false, false, none⟩⟩

/-! ### What a handler is to do -/

/-- The process waits for something that nobody will do: for input, or its end, with the receiver
gone, or for room for its output with the loop that reads it over. -/
def Session.Hung (s : Session) : Prop :=
  (s.proc.wants = some .input ∧ s.inputClosed = false ∧ s.receiving = false) ∨
    (s.proc.wants = some .output ∧ s.phase ≠ .copying)

/-- The steps with which a handler ends: there is no more output, and the exit code is sent. -/
def RunEvent.closing : RunEvent → Bool
  | .outputEnds | .finish true => true
  | _ => false

/-- **A handler does what it is for.** -/
structure Session.Sound (s : Session) : Prop where
  noPanic : s.phase ≠ .ended .panic
  /-- The input is forwarded in its order, and all of it to a process that takes it. -/
  forwarded : s.written <+: s.received
  forwarded_all : s.proc.takesInput = true → s.written = s.received
  /-- The one message that is marked as closed is the last, and has the exit code. -/
  ended_ok : s.phase = .ended .ok → ∃ outs st, s.proc.exit = some st ∧
    s.sent = outs ++ [exitMessage st] ∧ ∀ o ∈ outs, o.closed = false
  not_closed : s.phase ≠ .ended .ok → ∀ o ∈ s.sent, o.closed = false
  /-- Nothing that the handler does not do keeps the process from ending. -/
  notHung : ¬ s.Hung
  /-- Once the process has exited the handler needs nobody else to end, with the exit code. -/
  ends : ∀ h st, s.proc.exit = some st → s.phase = .copying ∨ s.phase = .waiting →
    ∃ es t, (∀ e ∈ es, e.closing = true) ∧ Run (Session.step h) s es t ∧
      t.phase = .ended .ok ∧ t.sent = s.sent ++ [exitMessage st]

/-- The steps after which that is so. -/
def Sane (s : Session) : RunEvent → Prop
  | .first m _ => m.command ≠ []
  | .recvFails => s.proc.wants ≠ some .input
  | .wantsInput => s.receiving = true
  | .wantsOutput => s.phase = .copying
  | .finish sends => sends = true
  | .exits _ held => held = true → s.proc.hasOutput = true → s.phase ≠ .copying
  | _ => True

instance (s : Session) : DecidablePred (Sane s)
  | .first m _ => inferInstanceAs (Decidable (m.command ≠ []))
  | .recvFails => inferInstanceAs (Decidable (s.proc.wants ≠ some .input))
  | .wantsInput => inferInstanceAs (Decidable (s.receiving = true))
  | .wantsOutput => inferInstanceAs (Decidable (s.phase = .copying))
  | .finish sends => inferInstanceAs (Decidable (sends = true))
  | .exits _ held =>
    inferInstanceAs (Decidable (held = true → s.proc.hasOutput = true → s.phase ≠ .copying))
  | .homeFails | .firstFails | .recv _ | .recvCut _ _ | .output _ _ | .outputEnds | .waitFails
  | .closesInput | .closesOutput => .isTrue trivial

/-! ### Steps -/

/-- What holds in every state. -/
structure Session.Wf (s : Session) : Prop where
  starting : s.phase = .starting →
    s.receiving = false ∧ s.inputClosed = false ∧ s.written = s.received
  receiving : s.receiving = true → s.inputClosed = false
  wants_runs : s.proc.wants ≠ none → s.Runs
  wants_output : s.proc.wants = some .output → s.proc.hasOutput = true

section Steps

variable {h : Handler} {s t : Session} {e : RunEvent}

theorem Proc.gets_wants_ne (p : Proc) (w : Want) : (p.gets w).wants ≠ some w := by
  simp only [gets]
  split_ifs with hw
  · simp
  · exact hw

/-- A process that gets something wants nothing new. -/
theorem Proc.wants_of_gets {p : Proc} {w w' : Want} (h : (p.gets w).wants = some w') :
    p.wants = some w' := by
  simp only [gets] at h
  split_ifs at h
  exact h

theorem Proc.wants_of_fed {p : Proc} {input : List UInt8} {w : Want}
    (h : (p.fed input).wants = some w) : p.wants = some w := by
  simp only [fed] at h
  split_ifs at h
  · exact h
  · exact wants_of_gets h

@[simp] theorem Proc.exit_fed (p : Proc) (input : List UInt8) : (p.fed input).exit = p.exit := by
  simp only [fed]
  split_ifs <;> rfl

@[simp] theorem Proc.takesInput_fed (p : Proc) (input : List UInt8) :
    (p.fed input).takesInput = p.takesInput := by
  simp only [fed]
  split_ifs <;> rfl

@[simp] theorem Proc.hasOutput_fed (p : Proc) (input : List UInt8) :
    (p.fed input).hasOutput = p.hasOutput := by
  simp only [fed]
  split_ifs <;> rfl

theorem Session.step_finish {sends : Bool} (hstep : s.step h (.finish sends) = some t) :
    ∃ st, s.proc.exit = some st ∧ s.phase = .waiting ∧
      t = { s with
        phase := .ended .ok
        sent := if sends then s.sent ++ [exitMessage st] else s.sent } := by
  simp only [Session.step] at hstep
  split at hstep
  · next st hexit =>
    obtain ⟨hphase, rfl⟩ := guarded_eq_some hstep
    exact ⟨st, hexit, hphase, rfl⟩
  · cases hstep

/-- What holds of a state holds of another with no new wish, in which the process still runs. -/
theorem Session.Wf.of_wants (hJ : s.Wf) (hphase : t.phase ≠ .starting)
    (hrecv : t.receiving = true → t.inputClosed = false)
    (hwants : ∀ w, t.proc.wants = some w → s.proc.wants = some w)
    (hruns : t.proc.wants ≠ none → s.Runs → t.Runs)
    (houtput : t.proc.wants = some .output → t.proc.hasOutput = s.proc.hasOutput) : t.Wf where
  starting := fun h ↦ absurd h hphase
  receiving := hrecv
  wants_runs := fun h ↦ by
    obtain ⟨w, hw⟩ := Option.ne_none_iff_exists'.1 h
    exact hruns h (hJ.wants_runs (by simp [hwants w hw]))
  wants_output := fun h ↦ by
    rw [houtput h]
    exact hJ.wants_output (hwants _ h)

/-- A process that waits has not exited, and its handler has not returned. -/
theorem Session.Wf.wants_eq_none (hJ : s.Wf) (hs : ¬ s.Runs) : s.proc.wants = none := by
  by_contra hw
  exact hs (hJ.wants_runs hw)

theorem Session.Wf.not_starting (hJ : s.Wf) (hrecv : s.receiving = true) :
    s.phase ≠ .starting := fun hphase ↦ by
  simp [(hJ.starting hphase).1] at hrecv

theorem Session.Wf.begin (hJ : s.Wf) (hphase : s.phase = .starting) (m : RunInput)
    (starts : Bool) : (s.begin m starts).Wf := by
  obtain ⟨hrecv, hclosed, hwritten⟩ := hJ.starting hphase
  have hwants := hJ.wants_eq_none (by simp [Runs, hphase])
  simp only [Session.begin]
  split_ifs
  · exact ⟨by simp, by simp [hrecv], by simp [hwants], by simp [hwants]⟩
  · exact ⟨by simp, by simp [hclosed], by simp, by simp⟩
  · exact ⟨by simp, by simp [hrecv], by simp [hwants], by simp [hwants]⟩

theorem Session.Wf.receive (hJ : s.Wf) (hrecv : s.receiving = true) (m : RunInput) :
    (s.receive m).Wf := by
  have hnot := hJ.not_starting hrecv
  rw [Session.receive]
  split
  · exact hJ.of_wants hnot (by simp) (fun w ↦ Proc.wants_of_gets) (fun _ hs ↦ hs) fun _ ↦ rfl
  · exact hJ.of_wants hnot hJ.receiving (fun w ↦ Proc.wants_of_fed)
      (fun _ hs ↦ by simpa [Runs] using hs) fun _ ↦ Proc.hasOutput_fed ..

/-- Every step keeps it. -/
theorem Session.Wf.step (hJ : s.Wf) (hstep : s.step h e = some t) : t.Wf := by
  cases e with
  | homeFails | firstFails =>
    obtain ⟨hphase, rfl⟩ := guarded_eq_some hstep
    have hwants := hJ.wants_eq_none (by simp [Runs, hphase])
    exact ⟨by simp, hJ.receiving, by simp [hwants], by simp [hwants]⟩
  | first m starts =>
    obtain ⟨hphase, rfl⟩ := guarded_eq_some hstep
    exact hJ.begin hphase m starts
  | recv m =>
    obtain ⟨hrecv, rfl⟩ := guarded_eq_some hstep
    exact hJ.receive hrecv m
  | recvCut m n =>
    obtain ⟨⟨hrecv, -⟩, rfl⟩ := guarded_eq_some hstep
    exact hJ.of_wants (hJ.not_starting hrecv) hJ.receiving (fun w ↦ Proc.wants_of_gets)
      (fun _ hs ↦ hs) fun _ ↦ rfl
  | recvFails =>
    obtain ⟨hrecv, rfl⟩ := guarded_eq_some hstep
    exact hJ.of_wants (hJ.not_starting hrecv) (by simp) (fun _ hw ↦ hw) (fun _ hs ↦ hs) fun _ ↦ rfl
  | output data sends =>
    obtain ⟨⟨hphase, -⟩, rfl⟩ := guarded_eq_some hstep
    refine hJ.of_wants ?_ hJ.receiving (fun w ↦ Proc.wants_of_gets) (fun _ hs ↦ ⟨?_, hs.2⟩)
      fun _ ↦ rfl
    · cases sends <;> simp
    · cases sends <;> simp
  | outputEnds =>
    obtain ⟨-, rfl⟩ := guarded_eq_some hstep
    exact hJ.of_wants (by simp) hJ.receiving (fun _ hw ↦ hw) (fun _ hs ↦ ⟨.inr rfl, hs.2⟩)
      fun _ ↦ rfl
  | finish sends =>
    obtain ⟨st, hexit, -, rfl⟩ := step_finish hstep
    have hwants := hJ.wants_eq_none (by simp [Runs, hexit])
    exact ⟨by simp, hJ.receiving, by simp [hwants], by simp [hwants]⟩
  | waitFails =>
    obtain ⟨⟨-, hexit⟩, rfl⟩ := guarded_eq_some hstep
    have hwants := hJ.wants_eq_none (by simp [Runs, hexit])
    exact ⟨by simp, hJ.receiving, by simp [hwants], by simp [hwants]⟩
  | wantsInput =>
    obtain ⟨⟨hruns, -⟩, rfl⟩ := guarded_eq_some hstep
    exact ⟨hJ.starting, hJ.receiving, fun _ ↦ hruns, by simp⟩
  | wantsOutput =>
    obtain ⟨⟨hruns, -, hout⟩, rfl⟩ := guarded_eq_some hstep
    exact ⟨hJ.starting, hJ.receiving, fun _ ↦ hruns, fun _ ↦ hout⟩
  | closesInput =>
    obtain ⟨-, rfl⟩ := guarded_eq_some hstep
    exact ⟨hJ.starting, hJ.receiving, hJ.wants_runs, hJ.wants_output⟩
  | closesOutput =>
    obtain ⟨hwants, rfl⟩ := guarded_eq_some hstep
    exact ⟨hJ.starting, hJ.receiving, hJ.wants_runs, fun hw ↦ absurd hw hwants⟩
  | exits st held =>
    obtain ⟨-, rfl⟩ := guarded_eq_some hstep
    exact ⟨hJ.starting, hJ.receiving, by simp, by simp⟩

/-! The end of a handler. -/

/-- The process has exited, and the handler reads an output that another process has open. -/
def Session.Held (s : Session) : Prop :=
  s.proc.exit ≠ none ∧ s.phase = .copying ∧ s.proc.hasOutput = true

/-- Unless the output is held open, the loop ends and then the exit code is sent. -/
theorem Session.exists_run_closing (hs : ¬ s.Held) {st : ExitState} (hexit : s.proc.exit = some st)
    (hphase : s.phase = .copying ∨ s.phase = .waiting) :
    ∃ es t, (∀ e ∈ es, e.closing = true) ∧ Run (Session.step h) s es t ∧
      t.phase = .ended .ok ∧ t.sent = s.sent ++ [exitMessage st] := by
  have hfinish : ∀ u : Session, u.proc.exit = some st → u.phase = .waiting →
      u.step h (.finish true) =
        some { u with phase := .ended .ok, sent := u.sent ++ [exitMessage st] } := by
    intro u hexit hphase
    simp [Session.step, hexit, hphase]
  rcases hphase with hphase | hphase
  · have hout : s.proc.hasOutput = false := by
      refine Bool.eq_false_iff.2 fun hout ↦ ?_
      exact hs ⟨by simp [hexit], hphase, hout⟩
    refine ⟨[.outputEnds, .finish true], _, by simp [RunEvent.closing], .cons trivial ?_
      (.cons trivial (hfinish { s with phase := .waiting } hexit rfl) (.nil _)), rfl, rfl⟩
    exact if_pos ⟨hphase, hout⟩
  · exact ⟨[.finish true], _, by simp [RunEvent.closing],
      .cons trivial (hfinish s hexit hphase) (.nil _), rfl, rfl⟩

/-- Held open, the output does not end. -/
theorem Session.Sound.not_held (hP : s.Sound) : ¬ s.Held := by
  rintro ⟨hexit, hphase, hout⟩
  obtain ⟨st, hst⟩ := Option.ne_none_iff_exists'.1 hexit
  obtain ⟨es, t, hes, hrun, ht, -⟩ := hP.ends .console st hst (.inl hphase)
  cases hrun with
  | nil => simp [hphase] at ht
  | @cons _ u _ e _ _ head _ =>
    have he := hes e List.mem_cons_self
    cases e with
    | outputEnds =>
      obtain ⟨⟨-, hout'⟩, -⟩ := guarded_eq_some head
      simp [hout] at hout'
    | finish sends =>
      obtain ⟨-, -, hphase', -⟩ := step_finish head
      simp [hphase] at hphase'
    | _ => cases he

theorem Session.Sound.of_not_held (hpanic : s.phase ≠ .ended .panic)
    (hforwarded : s.written <+: s.received)
    (hall : s.proc.takesInput = true → s.written = s.received)
    (hok : s.phase = .ended .ok → ∃ outs st, s.proc.exit = some st ∧
      s.sent = outs ++ [exitMessage st] ∧ ∀ o ∈ outs, o.closed = false)
    (hopen : s.phase ≠ .ended .ok → ∀ o ∈ s.sent, o.closed = false) (hhung : ¬ s.Hung)
    (hheld : ¬ s.Held) : s.Sound :=
  ⟨hpanic, hforwarded, hall, hok, hopen, hhung, fun _ _ ↦ exists_run_closing hheld⟩

/-- What is sound stays so where nothing is sent, written or received, unless the process then
hangs or its output is held open. -/
theorem Session.Sound.of_eq (hP : s.Sound) (hwritten : t.written = s.written)
    (hreceived : t.received = s.received) (hsent : t.sent = s.sent)
    (htakes : t.proc.takesInput = true → s.proc.takesInput = true)
    (hpanic : t.phase ≠ .ended .panic)
    (hok : t.phase = .ended .ok → s.phase = .ended .ok ∧ t.proc.exit = s.proc.exit)
    (hopen : t.phase ≠ .ended .ok → s.phase ≠ .ended .ok) (hhung : ¬ t.Hung)
    (hheld : ¬ t.Held) : t.Sound := by
  refine .of_not_held hpanic ?_ ?_ ?_ ?_ hhung hheld
  · rw [hwritten, hreceived]
    exact hP.forwarded
  · rw [hwritten, hreceived]
    exact fun h ↦ hP.forwarded_all (htakes h)
  · intro h
    obtain ⟨hphase, hexit⟩ := hok h
    rw [hexit, hsent]
    exact hP.ended_ok hphase
  · rw [hsent]
    exact fun h ↦ hP.not_closed (hopen h)

/-- A process does not start to hang without a new wish, a receiver that goes or a loop that
ends. -/
theorem Session.not_hung_of (hs : ¬ s.Hung)
    (hwants : ∀ w, t.proc.wants = some w → s.proc.wants = some w)
    (hin : t.proc.wants = some .input → t.inputClosed = false → t.receiving = false →
      s.inputClosed = false ∧ s.receiving = false)
    (hout : t.proc.wants = some .output → t.phase ≠ .copying → s.phase ≠ .copying) :
    ¬ t.Hung := by
  rintro (⟨hw, hclosed, hrecv⟩ | ⟨hw, hphase⟩)
  · exact hs (.inl ⟨hwants _ hw, hin hw hclosed hrecv⟩)
  · exact hs (.inr ⟨hwants _ hw, hout hw hphase⟩)

theorem Session.not_hung_of_wants (h : s.proc.wants = none) : ¬ s.Hung := by
  rintro (⟨hw, -⟩ | ⟨hw, -⟩) <;> simp [h] at hw

/-- It is the command that the first message must have. -/
theorem Session.sound_begin_iff (hJ : s.Wf) (hP : s.Sound) (hphase : s.phase = .starting)
    (m : RunInput) (starts : Bool) : (s.begin m starts).Sound ↔ m.command ≠ [] := by
  obtain ⟨-, -, hwritten⟩ := hJ.starting hphase
  have hwants := hJ.wants_eq_none (by simp [Runs, hphase])
  have hsent := hP.not_closed (by simp [hphase])
  rw [Session.begin]
  by_cases hcmd : m.command = []
  · rw [if_pos hcmd]
    exact iff_of_false (fun ht ↦ ht.noPanic rfl) (not_not_intro hcmd)
  rw [if_neg hcmd]
  refine iff_of_true ?_ hcmd
  cases starts with
  | true =>
    exact .of_not_held (by simp) hP.forwarded (fun _ ↦ hwritten) (by simp) (fun _ ↦ hsent)
      (not_hung_of_wants rfl) fun hheld ↦ hheld.1 rfl
  | false =>
    exact .of_not_held (by simp) hP.forwarded hP.forwarded_all (by simp) (fun _ ↦ hsent)
      (not_hung_of_wants hwants) (by simp [Held])

theorem Session.Sound.receive (hJ : s.Wf) (hP : s.Sound) (hrecv : s.receiving = true)
    (m : RunInput) : (s.receive m).Sound := by
  have hclosed := hJ.receiving hrecv
  rw [Session.receive]
  by_cases hm : m.closed = true
  · rw [if_pos hm]
    refine hP.of_eq rfl rfl rfl id hP.noPanic (fun h ↦ ⟨h, rfl⟩) id ?_ hP.not_held
    exact not_hung_of hP.notHung (fun _ ↦ Proc.wants_of_gets)
      (fun hw ↦ absurd hw (Proc.gets_wants_ne _ _)) fun _ ↦ id
  rw [if_neg hm]
  refine .of_not_held hP.noPanic ?_ ?_ ?_ hP.not_closed ?_ (by simpa [Held] using hP.not_held)
  · show (if s.proc.takesInput then s.written ++ m.input else s.written) <+: s.received ++ m.input
    split_ifs with htakes
    · exact ⟨[], by rw [List.append_nil, hP.forwarded_all htakes]⟩
    · exact hP.forwarded.trans (List.prefix_append ..)
  · intro htakes
    rw [Proc.takesInput_fed] at htakes
    show (if s.proc.takesInput then s.written ++ m.input else s.written) = s.received ++ m.input
    rw [if_pos htakes, hP.forwarded_all htakes]
  · simpa using hP.ended_ok
  · exact not_hung_of hP.notHung (fun _ ↦ Proc.wants_of_fed) (fun _ h h' ↦ ⟨h, h'⟩) fun _ ↦ id

theorem Session.Sound.recvCut (hP : s.Sound) (htakes : s.proc.takesInput = true) (m : RunInput)
    (n : ℕ) :
    Session.Sound { s with
      received := s.received ++ m.input
      written := s.written ++ m.input.take n
      proc := { s.proc.gets .input with takesInput := false } } := by
  refine .of_not_held hP.noPanic ?_ (by simp) hP.ended_ok hP.not_closed ?_ hP.not_held
  · rw [hP.forwarded_all htakes]
    exact (List.prefix_append_right_inj _).2 (List.take_prefix ..)
  · exact not_hung_of hP.notHung (fun _ ↦ Proc.wants_of_gets) (fun _ h h' ↦ ⟨h, h'⟩) fun _ ↦ id

theorem Session.Sound.output (hP : s.Sound) (hphase : s.phase = .copying) (data : List UInt8)
    (sends : Bool) :
    Session.Sound { s with
      phase := if sends then .copying else .waiting
      sent := if sends then s.sent ++ [outputMessage data] else s.sent
      proc := s.proc.gets .output } := by
  have hsent := hP.not_closed (by simp [hphase])
  have hhung : ∀ p : RunPhase, ¬ Session.Hung { s with phase := p, proc := s.proc.gets .output } :=
    fun p ↦ not_hung_of hP.notHung (fun _ ↦ Proc.wants_of_gets) (fun _ h h' ↦ ⟨h, h'⟩)
      fun hw ↦ absurd hw (Proc.gets_wants_ne _ _)
  cases sends with
  | true =>
    refine .of_not_held (by simp) hP.forwarded hP.forwarded_all (by simp) (fun _ o ho ↦ ?_)
      (hhung _) fun hheld ↦ hP.not_held ⟨hheld.1, hphase, hheld.2.2⟩
    rcases List.mem_append.1 ho with ho | ho
    · exact hsent o ho
    · rw [List.mem_singleton.1 ho]
      rfl
  | false =>
    exact .of_not_held (by simp) hP.forwarded hP.forwarded_all (by simp) (fun _ ↦ hsent) (hhung _)
      (by simp [Held])

/-- And the last message must be sent. -/
theorem Session.sound_finish_iff (hJ : s.Wf) (hP : s.Sound) (hphase : s.phase = .waiting)
    {st : ExitState} (hexit : s.proc.exit = some st) (sends : Bool) :
    Session.Sound { s with
      phase := .ended .ok
      sent := if sends then s.sent ++ [exitMessage st] else s.sent } ↔ sends = true := by
  have hsent := hP.not_closed (by simp [hphase])
  have hwants := hJ.wants_eq_none (by simp [Runs, hexit])
  cases sends with
  | true =>
    refine iff_of_true (.of_not_held (by simp) hP.forwarded hP.forwarded_all (fun _ ↦ ?_) (by simp)
      (not_hung_of_wants hwants) (by simp [Held])) rfl
    exact ⟨s.sent, st, hexit, rfl, hsent⟩
  | false =>
    refine iff_of_false (fun ht ↦ ?_) (by simp)
    -- what was sent has no message marked as closed
    obtain ⟨outs, st', -, hlast, -⟩ := ht.ended_ok rfl
    have hmem : exitMessage st' ∈ s.sent := by
      rw [show s.sent = _ from hlast]
      simp
    exact absurd (hsent _ hmem) (by simp [exitMessage])

/-- **One step.** -/
theorem Session.sound_step_iff (hJ : s.Wf) (hP : s.Sound) (hstep : s.step h e = some t) :
    t.Sound ↔ Sane s e := by
  cases e with
  | homeFails | firstFails =>
    obtain ⟨hphase, rfl⟩ := guarded_eq_some hstep
    refine iff_of_true ?_ trivial
    exact hP.of_eq rfl rfl rfl id (by simp) (by simp) (by simp [hphase])
      (not_hung_of_wants (hJ.wants_eq_none (by simp [Runs, hphase]))) (by simp [Held])
  | first m starts =>
    obtain ⟨hphase, rfl⟩ := guarded_eq_some hstep
    exact sound_begin_iff hJ hP hphase m starts
  | recv m =>
    obtain ⟨hrecv, rfl⟩ := guarded_eq_some hstep
    exact iff_of_true (hP.receive hJ hrecv m) trivial
  | recvCut m n =>
    obtain ⟨⟨-, -, htakes⟩, rfl⟩ := guarded_eq_some hstep
    exact iff_of_true (hP.recvCut htakes m n) trivial
  | recvFails =>
    obtain ⟨hrecv, rfl⟩ := guarded_eq_some hstep
    constructor
    · -- nobody is left to hand on the input that the program waits for
      exact fun ht hw ↦ ht.notHung (.inl ⟨hw, hJ.receiving hrecv, rfl⟩)
    · intro hw
      refine hP.of_eq rfl rfl rfl id hP.noPanic (fun h ↦ ⟨h, rfl⟩) id ?_ hP.not_held
      exact not_hung_of hP.notHung (fun _ hw' ↦ hw') (fun hw' ↦ absurd hw' hw) fun _ ↦ id
  | output data sends =>
    obtain ⟨⟨hphase, -⟩, rfl⟩ := guarded_eq_some hstep
    exact iff_of_true (hP.output hphase data sends) trivial
  | outputEnds =>
    obtain ⟨⟨hphase, hout⟩, rfl⟩ := guarded_eq_some hstep
    refine iff_of_true ?_ trivial
    refine hP.of_eq rfl rfl rfl id (by simp) (by simp) (by simp [hphase]) ?_ (by simp [Held])
    exact not_hung_of hP.notHung (fun _ hw ↦ hw) (fun _ h h' ↦ ⟨h, h'⟩) fun hw ↦ by
      simp [hJ.wants_output hw] at hout
  | finish sends =>
    obtain ⟨st, hexit, hphase, rfl⟩ := step_finish hstep
    exact sound_finish_iff hJ hP hphase hexit sends
  | waitFails =>
    obtain ⟨⟨hphase, hexit⟩, rfl⟩ := guarded_eq_some hstep
    refine iff_of_true ?_ trivial
    exact hP.of_eq rfl rfl rfl id (by simp) (by simp) (by simp [hphase])
      (not_hung_of_wants (hJ.wants_eq_none (by simp [Runs, hexit]))) (by simp [Held])
  | wantsInput =>
    obtain ⟨⟨-, -, -, hclosed⟩, rfl⟩ := guarded_eq_some hstep
    constructor
    · intro ht
      by_contra hrecv
      exact ht.notHung (.inl ⟨rfl, hclosed, Bool.eq_false_iff.2 hrecv⟩)
    · intro hrecv
      refine hP.of_eq rfl rfl rfl id hP.noPanic (fun h ↦ ⟨h, rfl⟩) id ?_ hP.not_held
      rintro (⟨-, -, hrecv'⟩ | ⟨hw, -⟩)
      · simp [show s.receiving = true from hrecv] at hrecv'
      · simp at hw
  | wantsOutput =>
    obtain ⟨-, rfl⟩ := guarded_eq_some hstep
    constructor
    · intro ht
      by_contra hphase
      exact ht.notHung (.inr ⟨rfl, hphase⟩)
    · intro hphase
      refine hP.of_eq rfl rfl rfl id hP.noPanic (fun h ↦ ⟨h, rfl⟩) id ?_ hP.not_held
      rintro (⟨hw, -⟩ | ⟨-, hphase'⟩)
      · simp at hw
      · exact hphase' hphase
  | closesInput =>
    obtain ⟨-, rfl⟩ := guarded_eq_some hstep
    refine iff_of_true ?_ trivial
    exact hP.of_eq rfl rfl rfl (by simp) hP.noPanic (fun h ↦ ⟨h, rfl⟩) id hP.notHung hP.not_held
  | closesOutput =>
    obtain ⟨-, rfl⟩ := guarded_eq_some hstep
    refine iff_of_true ?_ trivial
    exact hP.of_eq rfl rfl rfl id hP.noPanic (fun h ↦ ⟨h, rfl⟩) id hP.notHung (by simp [Held])
  | exits st held =>
    obtain ⟨hruns, rfl⟩ := guarded_eq_some hstep
    have hphase : s.phase ≠ .ended .ok := by rcases hruns.1 with h | h <;> simp [h]
    constructor
    · -- a child has the output open, and the handler stays in its read
      intro ht hheld hout hcopying
      exact ht.not_held ⟨by simp, hcopying, by simp [hheld, hout]⟩
    · intro hsane
      refine hP.of_eq rfl rfl rfl (by simp) hP.noPanic (fun h ↦ absurd h hphase) id
        (not_hung_of_wants rfl) ?_
      rintro ⟨-, hcopying, hout⟩
      obtain ⟨hout, hheld⟩ := Bool.and_eq_true_iff.1 hout
      exact hsane hheld hout hcopying

end Steps

theorem Session.wf_start : Session.start.Wf :=
  ⟨fun _ ↦ ⟨rfl, rfl, rfl⟩, by simp [start], by simp [start], by simp [start]⟩

theorem Session.sound_start : Session.start.Sound :=
  .of_not_held (by simp [start]) List.prefix_rfl (fun _ ↦ rfl) (by simp [start]) (by simp [start])
    (not_hung_of_wants rfl) fun hheld ↦ hheld.1 rfl

/-- **When a remote command is served.** For every interleaving of a handler with its client, its
stream and its process, the handler does what it is for throughout exactly if the first message has
a command, the process does not wait for input when the stream fails or after it did, nor for room
for its output after the loop that reads it is over, no other process holds the output open when it
exits, and the last message is sent. What it is for includes its end: from where the process has
exited, its own steps lead to the message with the exit code. -/
theorem served_throughout_iff (h : Handler) {events : List RunEvent} {t : Session}
    (hrun : Run (Session.step h) .start events t) :
    Throughout (Session.step h) Session.Sound .start events ↔
      RunWhile (Session.step h) Sane .start events t :=
  hrun.throughout_iff (J := Session.Wf) (fun _ _ _ hJ hstep ↦ hJ.step hstep)
    (fun _ _ _ hJ hP hstep ↦ Session.sound_step_iff hJ hP hstep) Session.wf_start
    Session.sound_start

/-! ### The client -/

/-- The first message of `RunCmd.Execute`: the words of the command line behind `run`. -/
def runCmdMessage (args : List String) : RunInput := ⟨args, [], false⟩

/-- `cat` with one line of input. -/
def catEvents : List RunEvent :=
  [.first (runCmdMessage ["cat"]) true, .wantsInput, .recv ⟨[], [104, 105], false⟩,
    .output [104, 105] true, .wantsInput, .recv ⟨[], [], true⟩, .exits (.code 0) false, .outputEnds,
    .finish true]

theorem sound_catEvents :
    ∃ t, Run (Session.step .runOnMac) .start catEvents t ∧ t.phase = .ended .ok ∧
      t.sent = [outputMessage [104, 105], exitMessage (.code 0)] ∧
      Throughout (Session.step .runOnMac) Session.Sound .start catEvents := by
  have hrun : Run (Session.step .runOnMac) .start catEvents
      ⟨.ended .ok, false, true, [104, 105], [104, 105],
        [outputMessage [104, 105], exitMessage (.code 0)], ⟨some (.code 0), false, false, none⟩⟩ :=
    run_iff_foldlM.2 (by decide)
  exact ⟨_, hrun, rfl, rfl, (served_throughout_iff .runOnMac hrun).2
    (runWhile_iff_foldlM.2 (by decide))⟩

/-- A first message without a command ends the process of the host; a client of `cat` that goes away
leaves it waiting; and so does a shell that leaves a process behind. -/
theorem not_sound_without_command :
    (∃ t, Run (Session.step .runOnMac) .start [.first (runCmdMessage []) true] t ∧
      t.phase = .ended .panic ∧ ¬ t.Sound) ∧
      (∃ t, Run (Session.step .console) .start
        [.first (runCmdMessage ["cat"]) true, .wantsInput, .recvFails] t ∧ t.Hung ∧ ¬ t.Sound) ∧
      ∃ t, Run (Session.step .console) .start
        [.first (runCmdMessage ["sh", "-c", "sleep 9999 &"]) true, .exits (.code 0) true] t ∧
          t.phase = .copying ∧ ¬ t.Sound := by
  refine ⟨⟨_, run_iff_foldlM.2 rfl, rfl, fun h ↦ h.noPanic rfl⟩,
    ⟨_, run_iff_foldlM.2 rfl, .inl ⟨rfl, rfl, rfl⟩, fun h ↦ h.notHung (.inl ⟨rfl, rfl, rfl⟩)⟩,
    ⟨_, run_iff_foldlM.2 rfl, rfl, fun h ↦ h.not_held ⟨by simp, rfl, rfl⟩⟩⟩

end Vm
