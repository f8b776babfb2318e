import Isle.Foundation.Run
import Mathlib.Data.Finset.Card

/-!
# The init process of a container

`InitMain` of `helper/init.go`, which waits for the children that its container leaves behind. An
iteration of its loop is started by a `SIGCHLD` or by a ticker, and each makes **one** call of
`wait4`.

Children exit one by one, but their signals do not arrive one by one. A `SIGCHLD` that is raised
while another is pending is merged with it, and one that is delivered while another is in the
channel is dropped, for the channel has room for one. So an iteration may stand for several exits,
of which it reaps one.

The kernel looks for an exited child and takes it in one step, so that a wait that finds one begins
and ends at once (`reap`). One that finds none blocks (`block`) until a child exits (`collect`), or
returns if there are no children (`noChildren`).
-/

namespace Helper

/-- Where the loop is. The flag is set if a `SIGCHLD` started the iteration. -/
inductive InitPhase
  /-- In `select`. -/
  | selecting
  /-- Before `wait4`. -/
  | woken (bySignal : Bool)
  /-- In `wait4`, which found no exited child. -/
  | blocked (bySignal : Bool)
  deriving DecidableEq, Repr

/-- The children, and the loop that reaps them. -/
structure Init where
  /-- The children that run. -/
  running : Finset ℕ
  /-- The children that have exited and were not reaped. -/
  exited : Finset ℕ
  /-- A `SIGCHLD` is pending. -/
  raised : Bool
  /-- A `SIGCHLD` is in the channel. -/
  queued : Bool
  phase : InitPhase
  /-- Right after an iteration that a `SIGCHLD` started: the children that had exited and were not
  reaped when its wait began. -/
  before : Option (Finset ℕ)

/-- What can happen next. -/
inductive InitEvent
  | fork (pid : ℕ)
  | exit (pid : ℕ)
  /-- A child stops or continues, which raises `SIGCHLD` as well. -/
  | stop
  /-- The runtime takes the pending signal and sends it to the channel unless that is full. -/
  | deliver
  /-- `<-ch` -/
  | signal
  /-- `<-tick.C` -/
  | tick
  | reap (pid : ℕ)
  | block
  | collect (pid : ℕ)
  /-- `ECHILD` -/
  | noChildren
  deriving DecidableEq, Repr

/-- The end of an iteration whose wait began when `before` had exited. -/
def Init.finish (s : Init) (bySignal : Bool) (before : Finset ℕ) : Init :=
  { s with phase := .selecting, before := if bySignal then some before else none }

/-- One step of the children, the runtime or the loop. -/
def Init.step (s : Init) : InitEvent → Option Init
  | .fork pid =>
    if pid ∉ s.running ∧ pid ∉ s.exited then
      some { s with running := insert pid s.running, before := none }
    else none
  | .exit pid =>
    if pid ∈ s.running then
      some { s with
        running := s.running.erase pid
        exited := insert pid s.exited
        raised := true
        before := none }
    else none
  | .stop => if s.running ≠ ∅ then some { s with raised := true, before := none } else none
  | .deliver =>
    if s.raised then some { s with raised := false, queued := true, before := none } else none
  | .signal =>
    if s.phase = .selecting ∧ s.queued then
      some { s with queued := false, phase := .woken true, before := none }
    else none
  | .tick =>
    if s.phase = .selecting then some { s with phase := .woken false, before := none } else none
  | .reap pid =>
    match s.phase with
    | .woken bySignal =>
      if pid ∈ s.exited then
        some ({ s with exited := s.exited.erase pid }.finish bySignal s.exited)
      else none
    | _ => none
  | .block =>
    match s.phase with
    | .woken bySignal =>
      if s.exited = ∅ ∧ s.running ≠ ∅ then
        some { s with phase := .blocked bySignal, before := none }
      else none
    | _ => none
  | .collect pid =>
    match s.phase with
    -- nothing had exited when this wait began
    | .blocked bySignal =>
      if pid ∈ s.exited then some ({ s with exited := s.exited.erase pid }.finish bySignal ∅)
      else none
    | _ => none
  | .noChildren =>
    match s.phase with
    | .woken bySignal =>
      if s.exited = ∅ ∧ s.running = ∅ then some (s.finish bySignal ∅) else none
    | _ => none

/-- No child has been started. -/
def Init.start : Init := ⟨∅, ∅, false, false, .selecting, none⟩

/-- **Nothing is left behind.** After an iteration that a `SIGCHLD` started, no child that had
exited before its wait began is unreaped. -/
def Init.AllReaped (s : Init) : Prop := ∀ before, s.before = some before → Disjoint before s.exited

/-- When the wait of an iteration that a `SIGCHLD` started begins, at most one child has exited. -/
def AtMostOne (s : Init) : InitEvent → Prop
  | .reap _ => s.phase = .woken true → s.exited.card ≤ 1
  | _ => True

instance (s : Init) : DecidablePred (AtMostOne s)
  | .reap _ => inferInstanceAs (Decidable (_ → _))
  | .fork _ | .exit _ | .stop | .deliver | .signal | .tick | .block | .collect _ | .noChildren =>
    .isTrue trivial

section Steps

variable {s t : Init}

theorem Init.step_reap {pid : ℕ} (h : s.step (.reap pid) = some t) :
    ∃ bySignal, s.phase = .woken bySignal ∧ pid ∈ s.exited ∧
      t = { s with exited := s.exited.erase pid }.finish bySignal s.exited := by
  simp only [step] at h
  split at h
  · next bySignal hphase =>
    obtain ⟨hpid, rfl⟩ := guarded_eq_some h
    exact ⟨bySignal, hphase, hpid, rfl⟩
  · cases h

theorem Init.step_block (h : s.step .block = some t) :
    ∃ bySignal, s.phase = .woken bySignal ∧
      t = { s with phase := .blocked bySignal, before := none } := by
  simp only [step] at h
  split at h
  · next bySignal hphase =>
    obtain ⟨-, rfl⟩ := guarded_eq_some h
    exact ⟨bySignal, hphase, rfl⟩
  · cases h

theorem Init.step_collect {pid : ℕ} (h : s.step (.collect pid) = some t) :
    ∃ bySignal, s.phase = .blocked bySignal ∧ pid ∈ s.exited ∧
      t = { s with exited := s.exited.erase pid }.finish bySignal ∅ := by
  simp only [step] at h
  split at h
  · next bySignal hphase =>
    obtain ⟨hpid, rfl⟩ := guarded_eq_some h
    exact ⟨bySignal, hphase, hpid, rfl⟩
  · cases h

theorem Init.step_noChildren (h : s.step .noChildren = some t) :
    ∃ bySignal, s.phase = .woken bySignal ∧ t = s.finish bySignal ∅ := by
  simp only [step] at h
  split at h
  · next bySignal hphase =>
    obtain ⟨-, rfl⟩ := guarded_eq_some h
    exact ⟨bySignal, hphase, rfl⟩
  · cases h

theorem Init.allReaped_of_before (h : s.before = none) : s.AllReaped := by
  intro before hbefore
  rw [h] at hbefore
  cases hbefore

theorem Init.allReaped_finish_empty (bySignal : Bool) : (s.finish bySignal ∅).AllReaped := by
  intro before hbefore
  simp only [Init.finish, Option.ite_none_right_eq_some, Option.some.injEq] at hbefore
  rw [← hbefore.2]
  exact Finset.disjoint_empty_left _

/-- What `reap` leaves behind. -/
theorem Init.allReaped_reap_iff {pid : ℕ} {bySignal : Bool} (hpid : pid ∈ s.exited) :
    ({ s with exited := s.exited.erase pid }.finish bySignal s.exited).AllReaped ↔
      (bySignal = true → s.exited.card ≤ 1) := by
  cases bySignal with
  | false => exact iff_of_true (allReaped_of_before rfl) (by simp)
  | true =>
    have hdisj : Disjoint s.exited (s.exited.erase pid) ↔ s.exited.erase pid = ∅ :=
      ⟨fun h ↦ Finset.disjoint_self_iff_empty _ |>.1 (h.mono_left (Finset.erase_subset ..)),
        fun h ↦ h ▸ Finset.disjoint_empty_right _⟩
    have hcard : s.exited.erase pid = ∅ ↔ s.exited.card ≤ 1 := by
      rw [← Finset.card_eq_zero, Finset.card_erase_of_mem hpid]
      omega
    simpa [Init.AllReaped, Init.finish] using hdisj.trans hcard

/-- **One step.** Only a wait that reaps one of several leaves children behind. -/
theorem Init.allReaped_step_iff {e : InitEvent} (h : s.step e = some t) :
    t.AllReaped ↔ AtMostOne s e := by
  cases e with
  | reap pid =>
    obtain ⟨bySignal, hphase, hpid, rfl⟩ := step_reap h
    rw [allReaped_reap_iff hpid, AtMostOne, hphase]
    simp
  | collect pid =>
    obtain ⟨bySignal, -, -, rfl⟩ := step_collect h
    exact iff_of_true (allReaped_finish_empty bySignal) trivial
  | noChildren =>
    obtain ⟨bySignal, -, rfl⟩ := step_noChildren h
    exact iff_of_true (allReaped_finish_empty bySignal) trivial
  | block =>
    obtain ⟨bySignal, -, rfl⟩ := step_block h
    exact iff_of_true (allReaped_of_before rfl) trivial
  | fork _ | exit _ | stop | deliver | signal | tick =>
    obtain ⟨-, rfl⟩ := guarded_eq_some h
    exact iff_of_true (allReaped_of_before rfl) trivial

end Steps

/-- **When init reaps every child.** A run leaves none behind exactly if at every wait that a
`SIGCHLD` leads to at most one child has exited. -/
theorem allReaped_throughout_iff {events : List InitEvent} {t : Init}
    (h : Run Init.step .start events t) :
    Throughout Init.step Init.AllReaped .start events ↔
      RunWhile Init.step AtMostOne .start events t :=
  h.throughout_iff (J := fun _ ↦ True) (fun _ _ _ _ _ ↦ trivial)
    (fun _ _ _ _ _ hstep ↦ Init.allReaped_step_iff hstep) trivial (Init.allReaped_of_before rfl)

/-- One child exits, its signal arrives and it is reaped, and then another. -/
def oneByOne : List InitEvent :=
  [.fork 1, .fork 2, .exit 1, .deliver, .signal, .reap 1, .exit 2, .deliver, .signal, .reap 2]

theorem allReaped_oneByOne :
    ∃ t, Run Init.step .start oneByOne t ∧ t.exited = ∅ ∧
      Throughout Init.step Init.AllReaped .start oneByOne := by
  have hrun : Run Init.step .start oneByOne ⟨∅, ∅, false, false, .selecting, some {2}⟩ :=
    run_iff_foldlM.2 rfl
  exact ⟨_, hrun, rfl, (allReaped_throughout_iff hrun).2 (runWhile_iff_foldlM.2 rfl)⟩

/-- Two children exit before the first signal is taken, and the second one stays. -/
theorem not_allReaped_merged :
    ∃ t, Run Init.step .start
        [.fork 1, .fork 2, .exit 1, .exit 2, .deliver, .signal, .reap 1] t ∧
      t.before = some {2, 1} ∧ t.exited = {2} ∧ t.raised = false ∧ t.queued = false ∧
      ¬ t.AllReaped := by
  refine ⟨⟨∅, {2}, false, false, .selecting, some {2, 1}⟩, run_iff_foldlM.2 rfl, rfl, rfl, rfl, rfl,
    fun h ↦ ?_⟩
  exact absurd (h {2, 1} rfl) (by decide)

end Helper
