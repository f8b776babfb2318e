import Isle.Foundation.Run
import Isle.Guest.Adverts
import Mathlib.Data.List.Infix

/-!
# What a boot acquires and releases

`bootContainer` of `guest/runc.go` from its first line to its return: the calls in their order, each
of which may fail, the deferred calls that are put in place in between, and the context, which can
be cancelled at any moment.

A deferred call is of use only if it is in place when the function returns, and if it succeeds. Two
of them are put in place too late: that for the container when the task is there, and that for the
network when the task is started. And the deferred calls use the variable `ctx`, which is replaced
on one way out only; on the others a context that is cancelled makes them fail. `clean_iff`:
everything is released when the function returns exactly if no step is one of these (`Safe`).
-/

namespace Guest.Boot

open Adverts

/-! ### The state -/

/-- What is acquired and released by calls. -/
inductive Resource
  | container
  | task
  /-- What `ConfigureProcess` sets up. -/
  | network
  deriving DecidableEq, Repr

/-- A deferred call. The one that deletes the task and then the container is two. -/
inductive Deferred
  | unregisterEvents
  | clearMounts
  | deleteNetwork
  | deleteTask
  | deleteContainer
  | removePid
  | removeRunDir
  deriving DecidableEq, Repr

/-- The next call of `bootContainer`. -/
inductive Pc
  /-- `os.Stat(rootFsPath)` -/
  | stat
  /-- `os.MkdirAll(runDir, 0777)` -/
  | runDir
  /-- The logger, or a writer for its directory. -/
  | log
  /-- `client.NewContainer` -/
  | container
  /-- `container.NewTask` -/
  | task
  /-- `os.RemoveAll(pidPath)` -/
  | pid
  /-- `network.ConfigureProcess` -/
  | network
  /-- `task.Start` -/
  | start
  | setup
  /-- `started <- id`, or the end of the context. -/
  | announce
  /-- `RegisterEvents`, and the advertisements that there are. -/
  | register
  | loop
  /-- `network.Delete` behind the loop. -/
  | leave
  /-- The function has returned, and its deferred calls run. -/
  | unwinding
  deriving DecidableEq, Repr

/-- Where the function is, and what there is then. -/
structure State (α : Type) where
  pc : Pc
  /-- The context of the caller is cancelled. -/
  cancelled : Bool
  /-- `ctx` is the background context. -/
  background : Bool
  removedCNI : Bool
  /-- The id was sent on the channel `started`. -/
  started : Bool
  /-- The deferred calls, the last first. -/
  defers : List Deferred
  acquired : Resource → ℕ
  released : Resource → ℕ
  /-- The run directory is there. -/
  runDir : Bool
  /-- The pid file is there. -/
  pidFile : Bool
  /-- There is a channel for the events. -/
  subscribed : Bool
  /-- The advertisements that are mounted. -/
  mounts : List α

variable {α : Type}

/-- The function is called. -/
def init : State α where
  pc := .stat
  cancelled := false
  background := false
  removedCNI := false
  started := false
  defers := []
  acquired _ := 0
  released _ := 0
  runDir := false
  pidFile := false
  subscribed := false
  mounts := []

namespace State

variable (s : State α)

/-- The context that `ctx` stands for is not cancelled. -/
def alive : Bool := s.background || !s.cancelled

/-- The function goes on. -/
@[simp] def goto (pc : Pc) : State α := { s with pc := pc }

/-- A call is deferred. -/
@[simp] def push (d : Deferred) : State α := { s with defers := d :: s.defers }

/-- A call has made a resource. -/
@[simp] def acquire (r : Resource) : State α :=
  { s with acquired := Function.update s.acquired r (s.acquired r + 1) }

/-- A call has deleted a resource. -/
@[simp] def release (r : Resource) : State α :=
  { s with released := Function.update s.released r (s.released r + 1) }

/-- The task is there. -/
def hasTask : Prop := s.released .task < s.acquired .task

instance : Decidable s.hasTask := inferInstanceAs (Decidable (_ < _))

/-- A deferred call runs. A call of containerd with a context that is cancelled fails, and a
container that has a task is not deleted. The functions of the package `network` do not look at the
context, so whether they fail then is left open. -/
def runDeferred (ok : Bool) : Deferred → State α
  | .unregisterEvents => { s with subscribed := false }
  | .clearMounts => { s with mounts := [] }
  | .deleteNetwork =>
    if s.removedCNI = true then s else if s.alive || ok then s.release .network else s
  | .deleteTask => if s.alive = true then s.release .task else s
  | .deleteContainer => if s.alive = true ∧ ¬ s.hasTask then s.release .container else s
  | .removePid => { s with pidFile := false }
  | .removeRunDir => { s with runDir := false }

end State

/-! ### The steps -/

/-- How `ConfigureProcess` ends. -/
inductive Configured
  | ok
  /-- It fails, and leaves something behind or not. -/
  | failed (partly : Bool)
  deriving DecidableEq, Repr

/-- What can happen next: a call of the function with its outcome, or something from outside. -/
inductive Event (α : Type)
  /-- The context of the caller is cancelled. -/
  | cancel
  /-- The pid file of the task is written. -/
  | writePid
  | stat (ok : Bool)
  | makeRunDir (ok : Bool)
  | openLog (ok : Bool)
  | newContainer (ok : Bool)
  | newTask (ok : Bool)
  | clearPid
  | configure (r : Configured)
  | startTask (ok : Bool)
  /-- `setup`, which may be `nil` and then does not fail. -/
  | setup (ok : Bool)
  /-- The id is sent, or else the context has ended. -/
  | announce (sent : Bool)
  | register (cur : List (Option α))
  | advert (ev : AdvertEvent α)
  /-- The context has ended. -/
  | done
  | deleteNetwork
  /-- The next deferred call, and whether `network.Delete` succeeds with a cancelled context. -/
  | unwind (ok : Bool)

section Step

variable [DecidableEq α]

/-- One event. -/
def step (s : State α) : Event α → Option (State α)
  | .cancel => some { s with cancelled := true }
  | .writePid => if s.hasTask then some { s with pidFile := true } else none
  | .stat ok =>
    if s.pc = .stat then some (s.goto (if ok then .runDir else .unwinding)) else none
  | .makeRunDir ok =>
    if s.pc = .runDir then some (({ s with runDir := ok }.push .removeRunDir).goto .log) else none
  | .openLog ok =>
    if s.pc = .log then some (s.goto (if ok then .container else .unwinding)) else none
  | .newContainer ok =>
    if s.pc = .container ∧ (ok = true → s.alive = true) then
      some (if ok then (s.acquire .container).goto .task else s.goto .unwinding)
    else none
  | .newTask ok =>
    if s.pc = .task ∧ (ok = true → s.alive = true) then
      some (if ok then (s.acquire .task).goto .pid else s.goto .unwinding)
    else none
  | .clearPid =>
    if s.pc = .pid then
      some (((({ s with pidFile := false }.push .removePid).push .deleteContainer).push
        .deleteTask).goto .network)
    else none
  | .configure r =>
    if s.pc = .network then
      some (match r with
        | .ok => (s.acquire .network).goto .start
        | .failed partly => (if partly then s.acquire .network else s).goto .unwinding)
    else none
  | .startTask ok =>
    if s.pc = .start ∧ (ok = true → s.alive = true) then
      some (if ok then (s.push .deleteNetwork).goto .setup else s.goto .unwinding)
    else none
  | .setup ok =>
    if s.pc = .setup then some (s.goto (if ok then .announce else .unwinding)) else none
  | .announce sent =>
    if s.pc = .announce ∧ (sent = false → s.alive = false) then
      some (if sent then { s with started := true }.goto .register else s.goto .unwinding)
    else none
  | .register cur =>
    if s.pc = .register then
      some ((({ s with subscribed := true, mounts := cur.foldl mountAd s.mounts }.push
        .clearMounts).push .unregisterEvents).goto .loop)
    else none
  | .advert ev => if s.pc = .loop then some { s with mounts := applyEvent s.mounts ev } else none
  | .done =>
    if s.pc = .loop ∧ s.alive = false then some ({ s with background := true }.goto .leave)
    else none
  | .deleteNetwork =>
    if s.pc = .leave then some ({ s.release .network with removedCNI := true }.goto .unwinding)
    else none
  | .unwind ok =>
    match s.pc, s.defers with
    | .unwinding, d :: ds => some ({ s with defers := ds }.runDeferred ok d)
    | _, _ => none

end Step

/-! ### What should hold -/

/-- `bootContainer` has returned. -/
def State.Returned (s : State α) : Prop := s.pc = .unwinding ∧ s.defers = []

/-- **Everything is released.** -/
structure State.Clean (s : State α) : Prop where
  /-- What was acquired was released as often. -/
  once : ∀ r, s.released r = s.acquired r
  runDir : s.runDir = false
  pidFile : s.pidFile = false
  subscribed : s.subscribed = false
  mounts : s.mounts = []

/-- **A safe step**: one that does not keep anything from being released. -/
def Safe (s : State α) : Event α → Prop
  -- the container has no deferred call yet
  | .newTask ok => ok = true
  -- the network has no deferred call yet
  | .startTask ok => ok = true
  -- what is there in part has no deferred call, and with a context that is cancelled those for the
  -- task and the container fail
  | .configure r => r = .ok ∨ r = .failed false ∧ s.cancelled = false
  | .setup ok => ok = true ∨ s.cancelled = false
  | .announce sent => sent = true
  -- the calls for the task and the container are still to come
  | .cancel => ¬ (s.pc = .unwinding ∧ s.background = false ∧ .deleteContainer ∈ s.defers)
  | _ => True

/-! ### Releases that are owed -/

/-- The deferred call that releases a resource. -/
@[simp] def Resource.deferred : Resource → Deferred
  | .container => .deleteContainer
  | .task => .deleteTask
  | .network => .deleteNetwork

/-- The deferred calls that are in place at a point of the function. -/
@[simp] def Pc.defers : Pc → List Deferred
  | .stat | .runDir | .unwinding => []
  | .log | .container | .task | .pid => [.removeRunDir]
  | .network | .start => [.deleteTask, .deleteContainer, .removePid, .removeRunDir]
  | .setup | .announce | .register =>
    [.deleteNetwork, .deleteTask, .deleteContainer, .removePid, .removeRunDir]
  | .loop | .leave =>
    [.unregisterEvents, .clearMounts, .deleteNetwork, .deleteTask, .deleteContainer, .removePid,
      .removeRunDir]

/-- The deferred calls that were put in place before one. -/
def Deferred.below (d : Deferred) : List Deferred := (Pc.loop.defers.dropWhile (· ≠ d)).tail

/-- What is there at a point of the function and has no deferred call. -/
@[simp] def Pc.uncovered : Pc → List Resource
  | .task => [.container]
  | .pid => [.container, .task]
  | .start => [.network]
  | _ => []

namespace State

variable (s : State α) (r : Resource)

/-- The releases that are still to come. -/
def owed : ℕ :=
  (if r = .network ∧ s.removedCNI = true then 0 else s.defers.count r.deferred) +
    s.pc.uncovered.count r

/-- What was acquired, and was neither released nor will be. -/
def lost : ℤ := s.acquired r - s.released r - s.owed r

/-- The deletions of the task and the container are to come, and will fail. -/
def Doomed : Prop := s.pc = .unwinding ∧ s.alive = false ∧ .deleteContainer ∈ s.defers

/-- Nothing is lost. -/
structure Good : Prop where
  lost : ∀ r, s.lost r = 0
  notDoomed : ¬ s.Doomed

end State

/-- What holds along every run. -/
structure Inv (s : State α) : Prop where
  running : s.pc ≠ .unwinding → s.defers = s.pc.defers
  tails : s.defers ∈ Pc.loop.defers.tails
  background : s.background = true → s.pc = .leave ∨ s.pc = .unwinding
  leaving : s.pc = .leave → s.background = true
  removedCNI : s.removedCNI = true → s.pc = .unwinding
  lost : ∀ r, 0 ≤ s.lost r
  runDir : s.runDir = true → .removeRunDir ∈ s.defers
  pidFile : s.pidFile = true → .removePid ∈ s.defers ∨ s.hasTask
  subscribed : s.subscribed = true → .unregisterEvents ∈ s.defers
  mounts : s.mounts ≠ [] → .clearMounts ∈ s.defers

section Invariant

variable {s t : State α}

theorem lost_init (r : Resource) : (init : State α).lost r = 0 := by
  cases r <;> rfl

theorem inv_init : Inv (init : State α) where
  running _ := rfl
  tails := List.mem_tails _ _ |>.2 List.nil_suffix
  background h := by cases h
  leaving h := by cases h
  removedCNI h := by cases h
  lost r := Int.le_of_eq (lost_init r).symm
  runDir h := by cases h
  pidFile h := by cases h
  subscribed h := by cases h
  mounts h := absurd rfl h

theorem good_init : (init : State α).Good where
  lost := lost_init
  notDoomed h := by cases h.1

/-- The deferred calls run in their order, and those below one are left when it runs. -/
theorem Inv.below {d : Deferred} (h : Inv (s.push d)) : s.defers = d.below := by
  have hsuffix : d :: s.defers <:+ Pc.loop.defers := (List.mem_tails ..).1 h.tails
  cases d <;> simpa [Deferred.below, List.suffix_cons_iff] using hsuffix

/-- When the function has returned, nothing is lost exactly if everything is released. -/
theorem Inv.clean_iff_good (h : Inv s) (hret : s.Returned) : s.Clean ↔ s.Good := by
  obtain ⟨hpc, hdefers⟩ := hret
  have howed : ∀ r, s.owed r = 0 := by
    intro r
    simp [State.owed, hpc, hdefers]
  constructor
  · intro hclean
    refine ⟨fun r ↦ ?_, fun hdoomed ↦ ?_⟩
    · rw [State.lost, howed, hclean.once]
      omega
    · have hmem := hdoomed.2.2
      rw [hdefers] at hmem
      cases hmem
  · intro hgood
    -- with all deferred calls run nothing is owed, so nothing lost is all released
    have honce : ∀ r, s.released r = s.acquired r := by
      intro r
      have hlost := hgood.lost r
      rw [State.lost, howed] at hlost
      omega
    refine ⟨honce, ?_, ?_, ?_, ?_⟩
    · by_contra hdir
      have hmem := h.runDir (by simpa using hdir)
      simp [hdefers] at hmem
    · by_contra hpid
      rcases h.pidFile (by simpa using hpid) with hmem | htask
      · simp [hdefers] at hmem
      · exact absurd (honce .task) (Nat.ne_of_lt htask)
    · by_contra hsub
      have hmem := h.subscribed (by simpa using hsub)
      simp [hdefers] at hmem
    · by_contra hmounts
      have hmem := h.mounts hmounts
      simp [hdefers] at hmem

end Invariant

/-! ### What a step loses -/

section Loses

/-- The deferred call of a resource does not release it. -/
def State.Misses (s : State α) (ok : Bool) : Resource → Prop
  | .container => ¬ (s.alive = true ∧ ¬ s.hasTask)
  | .task => ¬ s.alive = true
  | .network => s.removedCNI = false ∧ ¬ (s.alive || ok) = true

instance (s : State α) (ok : Bool) : (r : Resource) → Decidable (s.Misses ok r)
  | .container => inferInstanceAs (Decidable (¬ (_ ∧ ¬ s.hasTask)))
  | .task => inferInstanceAs (Decidable (¬ _))
  | .network => inferInstanceAs (Decidable (_ ∧ ¬ _))

/-- A deferred call changes what it is about. -/
structure State.SameCourse (s t : State α) : Prop where
  pc : t.pc = s.pc
  cancelled : t.cancelled = s.cancelled
  background : t.background = s.background
  removedCNI : t.removedCNI = s.removedCNI
  started : t.started = s.started
  defers : t.defers = s.defers
  acquired : t.acquired = s.acquired

theorem sameCourse_runDeferred (s : State α) (ok : Bool) (d : Deferred) :
    s.SameCourse (s.runDeferred ok d) := by
  cases d <;> simp only [State.runDeferred]
  case deleteNetwork => split_ifs <;> exact ⟨rfl, rfl, rfl, rfl, rfl, rfl, rfl⟩
  case deleteTask | deleteContainer => split_ifs <;> exact ⟨rfl, rfl, rfl, rfl, rfl, rfl, rfl⟩
  all_goals exact ⟨rfl, rfl, rfl, rfl, rfl, rfl, rfl⟩

/-- What is still there after a deferred call was there before, and the call was not for it. -/
theorem files_runDeferred (s : State α) (ok : Bool) (d : Deferred) :
    ((s.runDeferred ok d).runDir = true → .removeRunDir ≠ d ∧ s.runDir = true) ∧
      ((s.runDeferred ok d).pidFile = true → .removePid ≠ d ∧ s.pidFile = true) ∧
      ((s.runDeferred ok d).subscribed = true → .unregisterEvents ≠ d ∧ s.subscribed = true) ∧
      ((s.runDeferred ok d).mounts ≠ [] → .clearMounts ≠ d ∧ s.mounts ≠ []) := by
  cases d <;> simp only [State.runDeferred]
  case deleteNetwork | deleteTask | deleteContainer => split_ifs <;> simp
  all_goals simp

theorem released_runDeferred (s : State α) (ok : Bool) (d : Deferred) (r : Resource) :
    (s.runDeferred ok d).released r = s.released r +
      if d = r.deferred ∧ ¬ s.Misses ok r ∧ ¬ (r = .network ∧ s.removedCNI = true) then 1
      else 0 := by
  cases d <;> cases r <;> simp only [State.runDeferred, State.Misses, Resource.deferred]
  all_goals split_ifs <;> simp_all

/-- A release is owed for a call that is not passed over. -/
theorem owed_push (s : State α) (d : Deferred) (r : Resource) :
    (s.push d).owed r = s.owed r +
      if d = r.deferred ∧ ¬ (r = .network ∧ s.removedCNI = true) then 1 else 0 := by
  simp only [State.owed, State.push, List.count_cons, beq_iff_eq]
  by_cases hcni : r = .network ∧ s.removedCNI = true
  · rw [if_pos hcni, if_pos hcni, if_neg fun h ↦ h.2 hcni]
    rfl
  · simp only [hcni, if_false, not_false_eq_true, and_true]
    omega

/-- **The account of a deferred call.** -/
theorem lost_runDeferred (s : State α) (ok : Bool) (d : Deferred) (r : Resource) :
    (s.runDeferred ok d).lost r =
      (s.push d).lost r + if d = r.deferred ∧ s.Misses ok r then 1 else 0 := by
  have hcourse := sameCourse_runDeferred s ok d
  have howed : (s.runDeferred ok d).owed r = s.owed r := by
    simp only [State.owed, hcourse.pc, hcourse.removedCNI, hcourse.defers]
  -- a call that is passed over does not miss anything
  have hnetwork : r = .network ∧ s.removedCNI = true → ¬ s.Misses ok r := by
    rintro ⟨rfl, hcni⟩ hmiss
    exact absurd (hcni.symm.trans hmiss.1) (by simp)
  rw [State.lost, State.lost, howed, owed_push, hcourse.acquired, released_runDeferred]
  show _ = (s.acquired r : ℤ) - s.released r - _ + _
  split_ifs <;> first | omega | tauto

/-- What is lost by an event: a resource that has no deferred call when the function returns, or one
whose deferred call fails. -/
def loses (s : State α) : Event α → Resource → ℕ
  | .newTask false, .container => 1
  | .startTask false, .network => 1
  | .configure (.failed true), .network => 1
  | .unwind ok, r => if s.defers.head? = some r.deferred ∧ s.Misses ok r then 1 else 0
  | _, _ => 0

variable [DecidableEq α] {s t : State α} {a : Event α}

/-- The last deferred call is taken from the list, and runs. -/
theorem unwind_cases {ok : Bool} (hstep : step s (.unwind ok) = some t) :
    ∃ (u : State α) (d : Deferred), u.pc = .unwinding ∧ s = u.push d ∧ t = u.runDeferred ok d := by
  simp only [step] at hstep
  split at hstep
  · next d ds hpc hd =>
    refine ⟨{ s with defers := ds }, d, hpc, ?_, (Option.some.inj hstep).symm⟩
    rw [State.push, ← hd]
  · cases hstep

omit [DecidableEq α] in
/-- While the function runs, its deferred calls are those of the point it has come to. -/
theorem Inv.at_pc (h : Inv s) {pc : Pc} (hpc : s.pc = pc) (hne : pc ≠ .unwinding) :
    s.defers = pc.defers ∧ s.removedCNI = false := by
  subst hpc
  refine ⟨h.running hne, ?_⟩
  by_contra hcni
  exact hne (h.removedCNI (by simpa using hcni))

/-- **The account of a step.** -/
theorem lost_step (h : Inv s) (hstep : step s a = some t) (r : Resource) :
    t.lost r = s.lost r + loses s a r := by
  cases a with
  | cancel =>
    cases hstep
    exact (Int.add_zero _).symm
  | writePid | advert ev =>
    obtain ⟨-, rfl⟩ := guarded_eq_some hstep
    exact (Int.add_zero _).symm
  | stat ok | openLog ok | setup ok =>
    obtain ⟨hpc, rfl⟩ := guarded_eq_some hstep
    cases ok <;> simp [State.lost, State.owed, hpc, loses]
  | announce sent =>
    obtain ⟨⟨hpc, -⟩, rfl⟩ := guarded_eq_some hstep
    cases sent <;> simp [State.lost, State.owed, hpc, loses]
  | done =>
    obtain ⟨⟨hpc, -⟩, rfl⟩ := guarded_eq_some hstep
    obtain ⟨-, hcni⟩ := h.at_pc hpc (by simp)
    simp [State.lost, State.owed, hpc, hcni, loses]
  | newContainer ok | newTask ok | startTask ok =>
    obtain ⟨⟨hpc, -⟩, rfl⟩ := guarded_eq_some hstep
    obtain ⟨hd, hcni⟩ := h.at_pc hpc (by simp)
    cases ok <;> cases r <;> simp [State.lost, State.owed, hpc, hd, hcni, loses] <;> omega
  | configure result =>
    obtain ⟨hpc, rfl⟩ := guarded_eq_some hstep
    obtain ⟨hd, hcni⟩ := h.at_pc hpc (by simp)
    rcases result with - | ⟨- | -⟩ <;> cases r <;>
      simp [State.lost, State.owed, hpc, hd, hcni, loses] <;> omega
  | makeRunDir ok | clearPid | register cur | deleteNetwork =>
    obtain ⟨hpc, rfl⟩ := guarded_eq_some hstep
    obtain ⟨hd, hcni⟩ := h.at_pc hpc (by simp)
    cases r <;> simp [State.lost, State.owed, hpc, hd, hcni, loses] <;> omega
  | unwind ok =>
    obtain ⟨u, d, -, rfl, rfl⟩ := unwind_cases hstep
    have hloses : loses (u.push d) (.unwind ok) r =
        if d = r.deferred ∧ u.Misses ok r then 1 else 0 := by
      have hmiss : (u.push d).Misses ok r ↔ u.Misses ok r := by cases r <;> rfl
      have hhead : (u.push d).defers.head? = some r.deferred ↔ d = r.deferred := by
        simp
      simp only [loses, hmiss, hhead]
    rw [lost_runDeferred, hloses]
    split_ifs <;> rfl

end Loses

/-! ### Along a run -/

section Run

variable {s t : State α}

theorem Pc.defers_mem_tails (pc : Pc) : pc.defers ∈ Pc.loop.defers.tails := by
  cases pc <;> decide

theorem acquired_le_acquire (s : State α) (r r' : Resource) :
    s.acquired r' ≤ (s.acquire r).acquired r' := by
  by_cases hr : r' = r
  · rw [hr]
    simp
  · simp [hr]

theorem hasTask_acquire (h : s.hasTask) (r : Resource) (pc : Pc) :
    ((s.acquire r).goto pc).hasTask :=
  Nat.lt_of_lt_of_le h (acquired_le_acquire s r .task)

/-- The function goes on, with the deferred calls of the next point. -/
theorem Inv.enter (h : Inv s) (hdefers : t.defers = t.pc.defers)
    (hsub : s.defers ⊆ t.defers) (hbackground : t.background = true ↔ t.pc = .leave)
    (hcni : t.removedCNI = false) (hlost : ∀ r, 0 ≤ t.lost r)
    (hrunDir : t.runDir = true → s.runDir = true ∨ .removeRunDir ∈ t.defers)
    (hpid : t.pidFile = true → s.pidFile = true) (htask : s.hasTask → t.hasTask)
    (hsubscribed : t.subscribed = true → s.subscribed = true ∨ .unregisterEvents ∈ t.defers)
    (hmounts : t.mounts ≠ [] → s.mounts ≠ [] ∨ .clearMounts ∈ t.defers) : Inv t where
  running _ := hdefers
  tails := hdefers ▸ Pc.defers_mem_tails _
  background hbg := .inl (hbackground.1 hbg)
  leaving := hbackground.2
  removedCNI htrue := absurd (hcni.symm.trans htrue) (by simp)
  lost := hlost
  runDir hdir := (hrunDir hdir).elim (fun hs ↦ hsub (h.runDir hs)) id
  pidFile hfile := (h.pidFile (hpid hfile)).imp (@hsub _) htask
  subscribed hs := (hsubscribed hs).elim (fun hs ↦ hsub (h.subscribed hs)) id
  mounts hm := (hmounts hm).elim (fun hm ↦ hsub (h.mounts hm)) id

/-- The function returns, with the deferred calls that are in place. -/
theorem Inv.leave (h : Inv s) {acquired : Resource → ℕ}
    (hlost : ∀ r, 0 ≤ { s with pc := .unwinding, acquired := acquired }.lost r)
    (htask : s.acquired .task ≤ acquired .task) :
    Inv { s with pc := .unwinding, acquired := acquired } where
  running hpc := absurd rfl hpc
  tails := h.tails
  background _ := .inr rfl
  leaving hpc := by cases hpc
  removedCNI _ := rfl
  lost := hlost
  runDir := h.runDir
  pidFile hpid := (h.pidFile hpid).imp_right fun hheld ↦ Nat.lt_of_lt_of_le hheld htask
  subscribed := h.subscribed
  mounts := h.mounts

/-- Up to the end of the loop, the context is that of the caller. -/
theorem Inv.front (h : Inv s) {pc : Pc} (hpc : s.pc = pc) (hleave : pc ≠ .leave)
    (hunwind : pc ≠ .unwinding) :
    s.background = false ∧ s.removedCNI = false ∧ s.defers = pc.defers := by
  obtain ⟨hd, hcni⟩ := h.at_pc hpc hunwind
  refine ⟨?_, hcni, hd⟩
  by_contra hbg
  rcases h.background (by simpa using hbg) with hpc' | hpc'
  · exact hleave (hpc.symm.trans hpc')
  · exact hunwind (hpc.symm.trans hpc')

/-- Where nothing is lost, no deferred call fails. -/
theorem State.Good.not_misses {u : State α} {d : Deferred} (hgood : (u.push d).Good)
    (h : Inv (u.push d)) (hpc : u.pc = .unwinding) {r : Resource} (hd : d = r.deferred)
    (ok : Bool) : ¬ u.Misses ok r := by
  have halive : .deleteContainer ∈ d :: u.defers → u.alive = true := fun hmem ↦ by
    by_contra hnot
    exact hgood.notDoomed ⟨hpc, Bool.eq_false_iff.2 hnot, hmem⟩
  subst hd
  cases r with
  | container =>
    have hdefers : u.defers = [.removePid, .removeRunDir] := h.below
    -- the call for the task was made before
    have htask := hgood.lost .task
    have howed : (u.push .deleteContainer).owed .task = 0 := by
      simp [State.owed, hdefers, hpc]
    rw [State.lost, Resource.deferred, howed] at htask
    refine fun hmiss ↦ hmiss ⟨halive List.mem_cons_self, fun hheld ↦ ?_⟩
    have hheld' : (u.push .deleteContainer).released .task <
      (u.push .deleteContainer).acquired .task := hheld
    omega
  | task =>
    have hdefers : u.defers = [.deleteContainer, .removePid, .removeRunDir] := h.below
    exact fun hmiss ↦ hmiss (halive (by simp [hdefers]))
  | network =>
    have hdefers : u.defers = [.deleteTask, .deleteContainer, .removePid, .removeRunDir] :=
      h.below
    exact fun hmiss ↦ hmiss.2 (by simp [halive (by simp [hdefers])])

/-- A deferred call runs, and what is below it is still in place. -/
theorem Inv.runDeferred {u : State α} {d : Deferred} (h : Inv (u.push d)) (hpc : u.pc = .unwinding)
    (ok : Bool) : Inv (u.runDeferred ok d) := by
  have hcourse := sameCourse_runDeferred u ok d
  obtain ⟨hdir, hpid, hsub, hmounts⟩ := files_runDeferred u ok d
  have hsuffix : d :: u.defers <:+ Pc.loop.defers := (List.mem_tails ..).1 h.tails
  have hbelow : ∀ {x}, x ≠ d → x ∈ (u.push d).defers → x ∈ (u.runDeferred ok d).defers := by
    intro x hne hx
    rw [hcourse.defers]
    exact (List.mem_cons.1 hx).resolve_left hne
  refine
    { running := fun hne ↦ absurd (hcourse.pc.trans hpc) hne
      tails := ?_
      background := fun _ ↦ .inr (hcourse.pc.trans hpc)
      leaving := fun hleave ↦ absurd ((hcourse.pc.trans hpc).symm.trans hleave) (by simp)
      removedCNI := fun _ ↦ hcourse.pc.trans hpc
      lost := fun r ↦ ?_
      runDir := fun hr ↦ hbelow (hdir hr).1 (h.runDir (hdir hr).2)
      pidFile := fun hp ↦ ?_
      subscribed := fun hs ↦ hbelow (hsub hs).1 (h.subscribed (hsub hs).2)
      mounts := fun hm ↦ hbelow (hmounts hm).1 (h.mounts (hmounts hm).2) }
  · rw [hcourse.defers]
    exact (List.mem_tails ..).2 ((List.suffix_cons ..).trans hsuffix)
  · have hlost := h.lost r
    rw [lost_runDeferred]
    split_ifs <;> omega
  · obtain ⟨hne, hfile⟩ := hpid hp
    rcases h.pidFile hfile with hmem | htask
    · exact .inl (hbelow hne hmem)
    · by_cases hd : d = .deleteTask
      · -- the pid file is removed after the task
        left
        rw [hcourse.defers]
        subst hd
        have hdefers : u.defers = [.deleteContainer, .removePid, .removeRunDir] := h.below
        simp [hdefers]
      · right
        have hreleased := released_runDeferred u ok d .task
        rw [if_neg fun hr ↦ hd hr.1] at hreleased
        rw [State.hasTask, hreleased, hcourse.acquired]
        exact htask

variable [DecidableEq α] {a : Event α}

/-- **Every step keeps the invariant.** -/
theorem inv_step (h : Inv s) (hstep : step s a = some t) : Inv t := by
  -- what is lost only grows
  have hlost : ∀ r, 0 ≤ t.lost r := by
    intro r
    have hs := h.lost r
    rw [lost_step h hstep]
    omega
  cases a with
  | cancel =>
    cases hstep
    exact { h with }
  | writePid =>
    obtain ⟨htask, rfl⟩ := guarded_eq_some hstep
    exact { h with pidFile := fun _ ↦ .inr htask }
  | stat ok | openLog ok | setup ok =>
    obtain ⟨hpc, rfl⟩ := guarded_eq_some hstep
    obtain ⟨hbg, hcni, hd⟩ := h.front hpc (by simp) (by simp)
    cases ok with
    | false => exact h.leave hlost (Nat.le_refl _)
    | true =>
      exact h.enter hd (by simp) (by simp [hbg]) hcni hlost .inl id id .inl .inl
  | newContainer ok | newTask ok =>
    obtain ⟨⟨hpc, -⟩, rfl⟩ := guarded_eq_some hstep
    obtain ⟨hbg, hcni, hd⟩ := h.front hpc (by simp) (by simp)
    cases ok with
    | false => exact h.leave hlost (Nat.le_refl _)
    | true =>
      show Inv ((s.acquire _).goto _)
      exact h.enter hd (fun _ hx ↦ hx) (by simp [hbg]) hcni hlost .inl id
        (fun hs ↦ hasTask_acquire hs _ _) .inl .inl
  | configure result =>
    obtain ⟨hpc, rfl⟩ := guarded_eq_some hstep
    obtain ⟨hbg, hcni, hd⟩ := h.front hpc (by simp) (by simp)
    rcases result with - | ⟨- | -⟩
    · show Inv ((s.acquire _).goto _)
      exact h.enter hd (fun _ hx ↦ hx) (by simp [hbg]) hcni hlost .inl id
        (fun hs ↦ hasTask_acquire hs _ _) .inl .inl
    · exact h.leave hlost (Nat.le_refl _)
    · exact h.leave hlost (acquired_le_acquire s .network _)
  | startTask ok =>
    obtain ⟨⟨hpc, -⟩, rfl⟩ := guarded_eq_some hstep
    obtain ⟨hbg, hcni, hd⟩ := h.front hpc (by simp) (by simp)
    cases ok with
    | false => exact h.leave hlost (Nat.le_refl _)
    | true =>
      exact h.enter (by simp [hd]) (List.subset_cons_self ..) (by simp [hbg]) hcni hlost .inl id id
        .inl .inl
  | announce sent =>
    obtain ⟨⟨hpc, -⟩, rfl⟩ := guarded_eq_some hstep
    obtain ⟨hbg, hcni, hd⟩ := h.front hpc (by simp) (by simp)
    cases sent with
    | false => exact h.leave hlost (Nat.le_refl _)
    | true =>
      exact h.enter hd (fun _ hx ↦ hx) (by simp [hbg]) hcni hlost
        .inl id id .inl .inl
  | makeRunDir ok =>
    obtain ⟨hpc, rfl⟩ := guarded_eq_some hstep
    obtain ⟨hbg, hcni, hd⟩ := h.front hpc (by simp) (by simp)
    exact h.enter (by simp [hd]) (List.subset_cons_self ..) (by simp [hbg]) hcni hlost
      (fun _ ↦ .inr List.mem_cons_self) id id .inl .inl
  | clearPid =>
    obtain ⟨hpc, rfl⟩ := guarded_eq_some hstep
    obtain ⟨hbg, hcni, hd⟩ := h.front hpc (by simp) (by simp)
    exact h.enter (by simp [hd]) (fun _ hx ↦ by simp [hx]) (by simp [hbg]) hcni hlost .inl
      (fun hpid ↦ by cases hpid) id .inl .inl
  | register cur =>
    obtain ⟨hpc, rfl⟩ := guarded_eq_some hstep
    obtain ⟨hbg, hcni, hd⟩ := h.front hpc (by simp) (by simp)
    exact h.enter (by simp [hd]) (fun _ hx ↦ by simp [hx]) (by simp [hbg]) hcni hlost .inl id id
      (fun _ ↦ .inr (by simp)) (fun _ ↦ .inr (by simp))
  | advert ev =>
    obtain ⟨hpc, rfl⟩ := guarded_eq_some hstep
    obtain ⟨hbg, hcni, hd⟩ := h.front hpc (by simp) (by simp)
    exact { h with mounts := fun _ ↦ by simp [hd] }
  | done =>
    obtain ⟨⟨hpc, -⟩, rfl⟩ := guarded_eq_some hstep
    obtain ⟨hbg, hcni, hd⟩ := h.front hpc (by simp) (by simp)
    exact h.enter hd (fun _ hx ↦ hx) (iff_of_true rfl rfl) hcni hlost .inl id id .inl
      .inl
  | deleteNetwork =>
    obtain ⟨hpc, rfl⟩ := guarded_eq_some hstep
    exact
      { h with
        running := fun hne ↦ absurd rfl hne
        background := fun _ ↦ .inr rfl
        leaving := fun hleave ↦ by cases hleave
        removedCNI := fun _ ↦ rfl
        lost := hlost
        pidFile := fun hpid ↦ (h.pidFile hpid).imp_right fun hs ↦ by
          simpa [State.hasTask] using hs }
  | unwind ok =>
    obtain ⟨u, d, hpc, rfl, rfl⟩ := unwind_cases hstep
    exact h.runDeferred hpc ok

/-- Nothing is lost after a step exactly if it loses nothing, and the deletions will not fail. -/
theorem good_iff_of_step (h : Inv s) (hgood : s.Good) (hstep : step s a = some t) :
    t.Good ↔ (∀ r, loses s a r = 0) ∧ ¬ t.Doomed := by
  have hlost : ∀ r, t.lost r = loses s a r := fun r ↦ by
    rw [lost_step h hstep, hgood.lost, Int.zero_add]
  constructor
  · exact fun ht ↦ ⟨fun r ↦ by have hr := ht.lost r; rw [hlost] at hr; omega, ht.notDoomed⟩
  · exact fun ht ↦ ⟨fun r ↦ by rw [hlost, ht.1 r]; rfl, ht.2⟩

/-- **A step, exactly.** -/
theorem good_step_iff (h : Inv s) (hgood : s.Good) (hstep : step s a = some t) :
    t.Good ↔ Safe s a := by
  rw [good_iff_of_step h hgood hstep]
  cases a with
  | cancel =>
    cases hstep
    simp [loses, Safe, State.Doomed, State.alive]
  | writePid | advert ev =>
    obtain ⟨-, rfl⟩ := guarded_eq_some hstep
    exact iff_of_true ⟨fun _ ↦ rfl, hgood.notDoomed⟩ trivial
  | stat ok | openLog ok =>
    obtain ⟨hpc, rfl⟩ := guarded_eq_some hstep
    obtain ⟨-, -, hd⟩ := h.front hpc (by simp) (by simp)
    refine iff_of_true ⟨fun _ ↦ rfl, fun hdoomed ↦ ?_⟩ trivial
    have hmem : .deleteContainer ∈ s.defers := hdoomed.2.2
    simp [hd] at hmem
  | newContainer ok =>
    obtain ⟨⟨hpc, -⟩, rfl⟩ := guarded_eq_some hstep
    obtain ⟨-, -, hd⟩ := h.front hpc (by simp) (by simp)
    refine iff_of_true ⟨fun _ ↦ rfl, fun hdoomed ↦ ?_⟩ trivial
    have hmem := hdoomed.2.2
    cases ok <;> simp [hd] at hmem
  | newTask ok =>
    obtain ⟨⟨hpc, -⟩, rfl⟩ := guarded_eq_some hstep
    cases ok with
    | false =>
      exact iff_of_false (fun hall ↦ absurd (hall.1 .container) (by simp [loses])) (by simp [Safe])
    | true => exact iff_of_true ⟨fun _ ↦ rfl, fun hdoomed ↦ by cases hdoomed.1⟩ rfl
  | startTask ok =>
    obtain ⟨⟨hpc, -⟩, rfl⟩ := guarded_eq_some hstep
    cases ok with
    | false =>
      exact iff_of_false (fun hall ↦ absurd (hall.1 .network) (by simp [loses])) (by simp [Safe])
    | true => exact iff_of_true ⟨fun _ ↦ rfl, fun hdoomed ↦ by cases hdoomed.1⟩ rfl
  | configure result =>
    obtain ⟨hpc, rfl⟩ := guarded_eq_some hstep
    obtain ⟨hbg, -, hd⟩ := h.front hpc (by simp) (by simp)
    rcases result with - | ⟨- | -⟩
    · exact iff_of_true ⟨fun _ ↦ rfl, fun hdoomed ↦ by cases hdoomed.1⟩ (.inl rfl)
    · simp [loses, Safe, State.Doomed, State.alive, hbg, hd]
    · exact iff_of_false (fun hall ↦ absurd (hall.1 .network) (by simp [loses])) (by simp [Safe])
  | setup ok =>
    obtain ⟨hpc, rfl⟩ := guarded_eq_some hstep
    obtain ⟨hbg, -, hd⟩ := h.front hpc (by simp) (by simp)
    cases ok with
    | false => simp [loses, Safe, State.Doomed, State.alive, hbg, hd]
    | true => exact iff_of_true ⟨fun _ ↦ rfl, fun hdoomed ↦ by cases hdoomed.1⟩ (.inl rfl)
  | announce sent =>
    obtain ⟨⟨hpc, hctx⟩, rfl⟩ := guarded_eq_some hstep
    obtain ⟨-, -, hd⟩ := h.front hpc (by simp) (by simp)
    cases sent with
    | false =>
      refine iff_of_false (fun hall ↦ hall.2 ⟨rfl, hctx rfl, ?_⟩) (by simp [Safe])
      show .deleteContainer ∈ s.defers
      simp [hd]
    | true => exact iff_of_true ⟨fun _ ↦ rfl, fun hdoomed ↦ by cases hdoomed.1⟩ rfl
  | makeRunDir ok | clearPid | register cur | done =>
    obtain ⟨-, rfl⟩ := guarded_eq_some hstep
    exact iff_of_true ⟨fun _ ↦ rfl, fun hdoomed ↦ by cases hdoomed.1⟩ trivial
  | deleteNetwork =>
    obtain ⟨hpc, rfl⟩ := guarded_eq_some hstep
    refine iff_of_true ⟨fun _ ↦ rfl, fun hdoomed ↦ ?_⟩ trivial
    have halive := hdoomed.2.1
    simp [State.alive, h.leaving hpc] at halive
  | unwind ok =>
    -- a deferred call can only fail where something was lost before
    obtain ⟨u, d, hpc, rfl, rfl⟩ := unwind_cases hstep
    refine iff_of_true ⟨fun r ↦ if_neg fun hmiss ↦ ?_, fun hdoomed ↦ ?_⟩ trivial
    · have hd : d = r.deferred := Option.some.inj hmiss.1
      have hmiss' : u.Misses ok r := by
        cases r <;> exact hmiss.2
      exact hgood.not_misses h hpc hd ok hmiss'
    · have hcourse := sameCourse_runDeferred u ok d
      refine hgood.notDoomed ⟨hpc, ?_, List.mem_cons_of_mem _ (hcourse.defers ▸ hdoomed.2.2)⟩
      have halive := hdoomed.2.1
      rwa [State.alive, hcourse.background, hcourse.cancelled] at halive

/-- **What is lost stays lost.** -/
theorem good_of_step (h : Inv s) (hstep : step s a = some t) (ht : t.Good) : s.Good := by
  have hloses : ∀ r, s.lost r = 0 ∧ loses s a r = 0 := by
    intro r
    have hs := h.lost r
    have hr := ht.lost r
    rw [lost_step h hstep] at hr
    omega
  refine ⟨fun r ↦ (hloses r).1, fun hdoomed ↦ ?_⟩
  obtain ⟨hpc, halive, hmem⟩ := hdoomed
  have hbg : s.background = false := by
    by_contra hbg
    simp [State.alive, hbg] at halive
  cases a with
  | cancel =>
    cases hstep
    exact ht.notDoomed ⟨hpc, by simp [State.alive, hbg], hmem⟩
  | writePid =>
    obtain ⟨-, rfl⟩ := guarded_eq_some hstep
    exact ht.notDoomed ⟨hpc, halive, hmem⟩
  | unwind ok =>
    obtain ⟨u, d, -, rfl, rfl⟩ := unwind_cases hstep
    have hcourse := sameCourse_runDeferred u ok d
    rcases List.mem_cons.1 hmem with rfl | hmem
    · -- the deletion of the container fails now
      have hzero := (hloses .container).2
      rw [loses, if_pos ⟨rfl, fun hok ↦ by rw [halive] at hok; cases hok.1⟩] at hzero
      cases hzero
    · refine ht.notDoomed ⟨hcourse.pc.trans hpc, ?_, hcourse.defers ▸ hmem⟩
      rw [State.alive, hcourse.background, hcourse.cancelled]
      exact halive
  | stat | makeRunDir | openLog | clearPid | configure | setup | register | advert
  | deleteNetwork =>
    obtain ⟨hpc', -⟩ := guarded_eq_some hstep
    exact absurd (hpc.symm.trans hpc') (by simp)
  | newContainer | newTask | startTask | announce | done =>
    obtain ⟨⟨hpc', -⟩, -⟩ := guarded_eq_some hstep
    exact absurd (hpc.symm.trans hpc') (by simp)

end Run

/-- **The release of resources, exactly.** Whenever `bootContainer` has returned, the container, the
task and the network that were acquired have been released once, and the run directory, the pid
file, the subscription and the mounts are gone, if and only if every step of it was safe. -/
theorem clean_iff [DecidableEq α] (events : List (Event α)) (t : State α)
    (h : Run step init events t) (hret : t.Returned) :
    t.Clean ↔ RunWhile step Safe init events t := by
  have hinv : Inv t := h.invariant (fun _ _ _ hs _ hstep ↦ inv_step hs hstep) inv_init
  rw [hinv.clean_iff_good hret]
  exact h.last_iff (fun _ _ _ hs hstep ↦ inv_step hs hstep)
    (fun _ _ _ hs hgood hstep ↦ good_step_iff hs hgood hstep)
    (fun _ _ _ hs hstep ht ↦ good_of_step hs hstep ht) inv_init good_init

/-- A boot up to the loop. -/
def bootEvents : List (Event String) :=
  [.stat true, .makeRunDir true, .openLog true, .newContainer true, .newTask true, .clearPid,
    .writePid, .configure .ok, .startTask true, .setup true, .announce true, .register [some "a"]]

/-- A container is booted, its context ends, and everything is released. -/
theorem clean_of_cancel :
    ∃ t : State String, Run step init (bootEvents ++ [.cancel, .done, .deleteNetwork] ++
        List.replicate 7 (.unwind true)) t ∧ t.Returned ∧ t.Clean := by
  obtain ⟨t, hret, hrun⟩ : ∃ t : State String, t.Returned ∧ RunWhile step Safe init
      (bootEvents ++ [.cancel, .done, .deleteNetwork] ++ List.replicate 7 (.unwind true)) t := by
    refine ⟨_, ⟨rfl, rfl⟩, .cons trivial rfl <| .cons trivial rfl <| .cons trivial rfl <|
      .cons trivial rfl <| .cons rfl rfl <| .cons trivial rfl <| .cons trivial rfl <|
      .cons (.inl rfl) rfl <| .cons rfl rfl <| .cons (.inl rfl) rfl <| .cons rfl rfl <|
      .cons trivial rfl <| .cons (fun h ↦ by cases h.1) rfl <| .cons trivial rfl <|
      .cons trivial rfl <| .cons trivial rfl <| .cons trivial rfl <| .cons trivial rfl <|
      .cons trivial rfl <| .cons trivial rfl <| .cons trivial rfl <| .cons trivial rfl <| .nil _⟩
  have hall := hrun.mono (D := fun _ _ ↦ True) fun _ _ _ ↦ trivial
  exact ⟨t, hall, hret, (clean_iff _ t hall hret).2 hrun⟩

/-- **A task that cannot be created leaves its container behind.** -/
theorem not_clean_of_newTask_failed :
    ∃ t : State String, Run step init [.stat true, .makeRunDir true, .openLog true,
        .newContainer true, .newTask false, .unwind true] t ∧ t.Returned ∧
      t.acquired .container = 1 ∧ t.released .container = 0 ∧ ¬ t.Clean := by
  refine ⟨_, .cons trivial rfl <| .cons trivial rfl <| .cons trivial rfl <| .cons trivial rfl <|
    .cons trivial rfl <| .cons trivial rfl <| .nil _, ⟨rfl, rfl⟩, rfl, rfl, fun hclean ↦ ?_⟩
  exact absurd (hclean.once .container) (by decide)

end Guest.Boot
