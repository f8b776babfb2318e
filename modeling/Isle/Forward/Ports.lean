import Isle.Foundation.Run
import Mathlib.Logic.Function.Basic

/-!
# Forwarding the ports of containers

The host and the port monitors of all containers as one system: `monitorPorts` and `processPorts` of
`guest/guest.go`, one instance for each container, and `StartPortForward`, `CancelPortForward` and
the accept loop of `forwardPort` of `vm/vm.go`.

A forward is known in three places that change at different times: the map `ports` of the
container's monitor, the table `listeners` of the host, and the listening sockets (`opened`). The
monitor reaches the host by calls, which can be lost, can be given up while the host is still at
work, and can be answered by an error.

* A monitor is a sequential program, so its state is where it is in a pass (`Pc`).
* A call has an identity, and the socket opened for it carries that identity. At most one socket is
  open on a port.
* The host's table is keyed by the port alone; an entry is not removed when its socket is closed.

`step_cases` says what each step can do, and `Calls` relates the calls, the monitors waiting for
them and the sockets opened for them.
-/

open Function (update update_self update_of_ne)

namespace Forward

namespace Ports

variable {Cid : Type*} [DecidableEq Cid]

/-! ### The state -/

/-- The life of a container. -/
inductive Life
  | created
  | running
  | stopped
  deriving DecidableEq, Repr

/-- Where a monitor is: between passes, in the first loop of `processPorts` with the ports still to
look at and those seen so far, in its second loop, or waiting for the answer to a call. -/
inductive Pc
  | idle
  | scan (todo cur : List Int64)
  | starting (n : ℕ) (p : Int64) (todo cur : List Int64)
  | sweep (cur : List Int64)
  | cancelling (n : ℕ) (cur : List Int64)
  deriving DecidableEq, Repr

/-- The two requests to the host. -/
inductive Request
  | start (port : Int32) (key : String)
  | cancel (port : Int32) (key : String)
  deriving DecidableEq, Repr

/-- How far the host is with a call. -/
inductive Stage
  | sent
  /-- `net.Listen` has returned a socket that is not in the table yet. -/
  | listening
  | replied (ok : Bool)
  /-- The call failed before the host saw it. -/
  | lost
  deriving DecidableEq, Repr

/-- A call: for which container, the request, and how far it is. -/
structure Call (Cid : Type*) where
  owner : Cid
  request : Request
  stage : Stage
  deriving DecidableEq, Repr

/-- A socket the host listens on: the call that opened it, for which container, and the key that its
connections are forwarded to. -/
structure Listener (Cid : Type*) where
  call : ℕ
  owner : Cid
  key : String
  deriving DecidableEq, Repr

/-- The containers with their monitors, the calls made so far, and the host. -/
structure System (Cid : Type*) where
  life : Cid → Life
  /-- The map `ports` of each monitor. -/
  ports : Cid → List Int64
  pc : Cid → Pc
  next : ℕ
  calls : ℕ → Option (Call Cid)
  /-- The sockets that are open. -/
  opened : Int32 → Option (Listener Cid)
  /-- The table `v.listeners`. -/
  listeners : Int32 → Option (Listener Cid)

/-- No container has started. -/
def System.start : System Cid :=
  ⟨fun _ ↦ .created, fun _ ↦ [], fun _ ↦ .idle, 0, fun _ ↦ none, fun _ ↦ none, fun _ ↦ none⟩

/-! ### The steps -/

/-- What happens next. -/
inductive Action (Cid : Type*)
  | boot (c : Cid)
  | stop (c : Cid)
  /-- A pass begins, with the ports found for IPv4 and IPv6. -/
  | tick (c : Cid) (v4 v6 : List Int64)
  /-- The next port of the first loop. -/
  | scan (c : Cid)
  /-- A port of the map that was not seen is forgotten and cancelled. -/
  | sweep (c : Cid) (p : Int64)
  /-- The pass ends. -/
  | rest (c : Cid)
  /-- The monitor gets the answer it waits for. -/
  | reply (c : Cid)
  /-- The monitor gets an error from the call it waits for. -/
  | giveUp (c : Cid)
  | lose (n : ℕ)
  /-- `net.Listen` succeeds. -/
  | listen (n : ℕ)
  /-- `net.Listen` fails. -/
  | refuse (n : ℕ)
  | record (n : ℕ)
  | cancel (n : ℕ)
  /-- `l.Accept` fails and `forwardPort` closes the socket. -/
  | acceptFail (q : Int32)
  deriving DecidableEq, Repr

namespace System

/-- The monitor of a container moves on. -/
def goto (s : System Cid) (c : Cid) (x : Pc) : System Cid :=
  { s with pc := update s.pc c x }

/-- The monitor of a container makes a call and waits. -/
def issue (s : System Cid) (c : Cid) (r : Request) (wait : ℕ → Pc) : System Cid :=
  { s with
    pc := update s.pc c (wait s.next)
    next := s.next + 1
    calls := update s.calls s.next (some ⟨c, r, .sent⟩) }

/-- A call is at another stage. -/
def setStage (s : System Cid) (n : ℕ) (call : Call Cid) (x : Stage) : System Cid :=
  { s with calls := update s.calls n (some { call with stage := x }) }

/-- A change to the map of a monitor. -/
def setPorts (s : System Cid) (c : Cid) (ps : List Int64) : System Cid :=
  { s with ports := update s.ports c ps }

/-- A socket is opened on a port, or the one there is closed. -/
def setOpened (s : System Cid) (q : Int32) (l : Option (Listener Cid)) : System Cid :=
  { s with opened := update s.opened q l }

/-- `l.Close()` for the entry of the table: it closes the socket on that port if that is the one of
the entry. -/
def closeEntry (s : System Cid) (q : Int32) : System Cid :=
  if s.listeners q = s.opened q then s.setOpened q none else s

end System

variable (target : Cid → String)

/-- The next port of the first loop of `processPorts`. The key is the IPv4 address of the container,
for the ports of both lists. -/
def scanStep (s : System Cid) (c : Cid) : Option (System Cid) :=
  match s.pc c with
  | .scan [] cur => some (s.goto c (.sweep cur))
  | .scan (p :: todo) cur =>
    if p ∈ s.ports c then some (s.goto c (.scan todo (p :: cur)))
    else some (s.issue c (.start p.toInt32 (target c)) fun n ↦ .starting n p todo (p :: cur))
  | _ => none

/-- A port of the second loop: it is deleted from the map, and then the call is made. -/
def sweepStep (s : System Cid) (c : Cid) (p : Int64) : Option (System Cid) :=
  match s.pc c with
  | .sweep cur =>
    if p ∈ s.ports c ∧ p ∉ cur then
      some ((s.setPorts c ((s.ports c).filter (· ≠ p))).issue c (.cancel p.toInt32 (target c))
        fun n ↦ .cancelling n cur)
    else none
  | _ => none

/-- The second loop is through with the map. -/
def restStep (s : System Cid) (c : Cid) : Option (System Cid) :=
  match s.pc c with
  | .sweep cur => if (s.ports c).all (· ∈ cur) then some (s.goto c .idle) else none
  | _ => none

/-- The answer to the call a monitor waits for. A port is put into the map when it was forwarded. -/
def replyStep (s : System Cid) (c : Cid) : Option (System Cid) :=
  match s.pc c with
  | .starting n p todo cur =>
    match (s.calls n).map Call.stage with
    | some (.replied true) =>
      some ((s.setPorts c ((s.ports c).insert p)).goto c (.scan todo cur))
    | some (.replied false) => some (s.goto c (.scan todo cur))
    | _ => none
  | .cancelling n cur =>
    match (s.calls n).map Call.stage with
    | some (.replied _) => some (s.goto c (.sweep cur))
    | _ => none
  | _ => none

/-- An error for the call a monitor waits for, whatever becomes of the call. -/
def giveUpStep (s : System Cid) (c : Cid) : Option (System Cid) :=
  match s.pc c with
  | .starting _ _ todo cur => some (s.goto c (.scan todo cur))
  | .cancelling _ cur => some (s.goto c (.sweep cur))
  | _ => none

/-- A call that fails before the host sees it. -/
def loseStep (s : System Cid) (n : ℕ) : Option (System Cid) :=
  match s.calls n with
  | some ⟨c, r, .sent⟩ => some (s.setStage n ⟨c, r, .sent⟩ .lost)
  | _ => none

/-- `StartPortForward`, up to a socket: it can be had only on a port on which none is open. -/
def listenStep (s : System Cid) (n : ℕ) : Option (System Cid) :=
  match s.calls n with
  | some ⟨c, .start q key, .sent⟩ =>
    if s.opened q = none then
      some ((s.setStage n ⟨c, .start q key, .sent⟩ .listening).setOpened q (some ⟨n, c, key⟩))
    else none
  | _ => none

/-- `StartPortForward` without a socket. -/
def refuseStep (s : System Cid) (n : ℕ) : Option (System Cid) :=
  match s.calls n with
  | some ⟨c, .start q key, .sent⟩ =>
    some (s.setStage n ⟨c, .start q key, .sent⟩ (.replied false))
  | _ => none

/-- The rest of `StartPortForward`: the socket is put into the table, and its accept loop starts. -/
def recordStep (s : System Cid) (n : ℕ) : Option (System Cid) :=
  match s.calls n with
  | some ⟨c, .start q key, .listening⟩ =>
    some { s.setStage n ⟨c, .start q key, .listening⟩ (.replied true) with
      listeners := update s.listeners q (some ⟨n, c, key⟩) }
  | _ => none

/-- `CancelPortForward`: the key of the request is not looked at. -/
def cancelStep (s : System Cid) (n : ℕ) : Option (System Cid) :=
  match s.calls n with
  | some ⟨c, .cancel q key, .sent⟩ =>
    some ((s.closeEntry q).setStage n ⟨c, .cancel q key, .sent⟩ (.replied true))
  | _ => none

/-- One step of the system. -/
def step (s : System Cid) : Action Cid → Option (System Cid)
  | .boot c =>
    if s.life c = .created then some { s with life := update s.life c .running } else none
  | .stop c =>
    if s.life c = .running then some { s with life := update s.life c .stopped } else none
  | .tick c v4 v6 =>
    if s.life c ≠ .created ∧ s.pc c = .idle then some (s.goto c (.scan (v4 ++ v6) [])) else none
  | .scan c => scanStep target s c
  | .sweep c p => sweepStep target s c p
  | .rest c => restStep s c
  | .reply c => replyStep s c
  | .giveUp c => giveUpStep s c
  | .lose n => loseStep s n
  | .listen n => listenStep s n
  | .refuse n => refuseStep s n
  | .record n => recordStep s n
  | .cancel n => cancelStep s n
  | .acceptFail q =>
    if s.opened q ≠ none ∧ s.listeners q = s.opened q then some (s.setOpened q none) else none

/-! ### What each step can do -/

/-- The steps, with what each of them needs and does. -/
inductive Step (target : Cid → String) (s : System Cid) : Action Cid → System Cid → Prop
  | boot {c} (h : s.life c = .created) :
      Step target s (.boot c) { s with life := update s.life c .running }
  | stop {c} (h : s.life c = .running) :
      Step target s (.stop c) { s with life := update s.life c .stopped }
  | tick {c v4 v6} (h : s.pc c = .idle) :
      Step target s (.tick c v4 v6) (s.goto c (.scan (v4 ++ v6) []))
  | scanned {c cur} (h : s.pc c = .scan [] cur) : Step target s (.scan c) (s.goto c (.sweep cur))
  | skip {c p todo cur} (h : s.pc c = .scan (p :: todo) cur) (hp : p ∈ s.ports c) :
      Step target s (.scan c) (s.goto c (.scan todo (p :: cur)))
  | start {c p todo cur} (h : s.pc c = .scan (p :: todo) cur) (hp : p ∉ s.ports c) :
      Step target s (.scan c)
        (s.issue c (.start p.toInt32 (target c)) fun n ↦ .starting n p todo (p :: cur))
  | sweep {c p cur} (h : s.pc c = .sweep cur) (hp : p ∈ s.ports c) (hcur : p ∉ cur) :
      Step target s (.sweep c p)
        ((s.setPorts c ((s.ports c).filter (· ≠ p))).issue c (.cancel p.toInt32 (target c))
          fun n ↦ .cancelling n cur)
  | rest {c cur} (h : s.pc c = .sweep cur) : Step target s (.rest c) (s.goto c .idle)
  | started {c n p todo cur call} (h : s.pc c = .starting n p todo cur)
      (hn : s.calls n = some call) (hstage : call.stage = .replied true) :
      Step target s (.reply c) ((s.setPorts c ((s.ports c).insert p)).goto c (.scan todo cur))
  | notStarted {c n p todo cur call} (h : s.pc c = .starting n p todo cur)
      (hn : s.calls n = some call) (hstage : call.stage = .replied false) :
      Step target s (.reply c) (s.goto c (.scan todo cur))
  | cancelled {c n cur} (h : s.pc c = .cancelling n cur) :
      Step target s (.reply c) (s.goto c (.sweep cur))
  | giveUpStart {c n p todo cur} (h : s.pc c = .starting n p todo cur) :
      Step target s (.giveUp c) (s.goto c (.scan todo cur))
  | giveUpCancel {c n cur} (h : s.pc c = .cancelling n cur) :
      Step target s (.giveUp c) (s.goto c (.sweep cur))
  | lose {n c r} (h : s.calls n = some ⟨c, r, .sent⟩) :
      Step target s (.lose n) (s.setStage n ⟨c, r, .sent⟩ .lost)
  | listen {n c q key} (h : s.calls n = some ⟨c, .start q key, .sent⟩) (hq : s.opened q = none) :
      Step target s (.listen n)
        ((s.setStage n ⟨c, .start q key, .sent⟩ .listening).setOpened q (some ⟨n, c, key⟩))
  | refuse {n c q key} (h : s.calls n = some ⟨c, .start q key, .sent⟩) :
      Step target s (.refuse n) (s.setStage n ⟨c, .start q key, .sent⟩ (.replied false))
  | record {n c q key} (h : s.calls n = some ⟨c, .start q key, .listening⟩) :
      Step target s (.record n)
        { s.setStage n ⟨c, .start q key, .listening⟩ (.replied true) with
          listeners := update s.listeners q (some ⟨n, c, key⟩) }
  | cancel {n c q key} (h : s.calls n = some ⟨c, .cancel q key, .sent⟩) :
      Step target s (.cancel n)
        ((s.closeEntry q).setStage n ⟨c, .cancel q key, .sent⟩ (.replied true))
  | acceptFail {q} (h : s.listeners q = s.opened q) :
      Step target s (.acceptFail q) (s.setOpened q none)

variable {target} {s t : System Cid} {a : Action Cid}

/-- What each step can do. -/
theorem step_cases (h : step target s a = some t) : Step target s a t := by
  cases a with
  | boot c =>
    obtain ⟨hc, rfl⟩ := guarded_eq_some h
    exact .boot hc
  | stop c =>
    obtain ⟨hc, rfl⟩ := guarded_eq_some h
    exact .stop hc
  | tick c v4 v6 =>
    obtain ⟨⟨-, hc⟩, rfl⟩ := guarded_eq_some h
    exact .tick hc
  | acceptFail q =>
    obtain ⟨⟨-, hq⟩, rfl⟩ := guarded_eq_some h
    exact .acceptFail hq
  | scan c =>
    simp only [step, scanStep] at h
    split at h
    · next cur hpc => cases h; exact .scanned hpc
    · next p todo cur hpc =>
      split at h
      · next hp => cases h; exact .skip hpc hp
      · next hp => cases h; exact .start hpc hp
    · exact absurd h (by simp)
  | sweep c p =>
    simp only [step, sweepStep] at h
    split at h
    · next cur hpc =>
      obtain ⟨⟨hp, hcur⟩, rfl⟩ := guarded_eq_some h
      exact .sweep hpc hp hcur
    · exact absurd h (by simp)
  | rest c =>
    simp only [step, restStep] at h
    split at h
    · next cur hpc =>
      obtain ⟨-, rfl⟩ := guarded_eq_some h
      exact .rest hpc
    · exact absurd h (by simp)
  | reply c =>
    simp only [step, replyStep] at h
    split at h
    · next n p todo cur hpc =>
      split at h
      · next hstage =>
        obtain ⟨call, hn, hstage⟩ := Option.map_eq_some_iff.1 hstage
        cases h
        exact .started hpc hn hstage
      · next hstage =>
        obtain ⟨call, hn, hstage⟩ := Option.map_eq_some_iff.1 hstage
        cases h
        exact .notStarted hpc hn hstage
      · exact absurd h (by simp)
    · next n cur hpc =>
      split at h
      · cases h; exact .cancelled hpc
      · exact absurd h (by simp)
    · exact absurd h (by simp)
  | giveUp c =>
    simp only [step, giveUpStep] at h
    split at h
    · next hpc => cases h; exact .giveUpStart hpc
    · next hpc => cases h; exact .giveUpCancel hpc
    · exact absurd h (by simp)
  | lose n =>
    simp only [step, loseStep] at h
    split at h
    · next hn => cases h; exact .lose hn
    · exact absurd h (by simp)
  | listen n =>
    simp only [step, listenStep] at h
    split at h
    · next hn =>
      obtain ⟨hq, rfl⟩ := guarded_eq_some h
      exact .listen hn hq
    · exact absurd h (by simp)
  | refuse n =>
    simp only [step, refuseStep] at h
    split at h
    · next hn => cases h; exact .refuse hn
    · exact absurd h (by simp)
  | record n =>
    simp only [step, recordStep] at h
    split at h
    · next hn => cases h; exact .record hn
    · exact absurd h (by simp)
  | cancel n =>
    simp only [step, cancelStep] at h
    split at h
    · next hn => cases h; exact .cancel hn
    · exact absurd h (by simp)

/-! ### Calls, monitors and sockets -/

/-- A call for which the host has opened a socket. -/
def Stage.opening : Stage → Bool
  | .listening | .replied true => true
  | _ => false

/-- The key of a request. -/
def Request.key : Request → String
  | .start _ key | .cancel _ key => key

/-- How calls, the monitors that wait for them and the sockets opened for them belong together. -/
structure Calls (target : Cid → String) (s : System Cid) : Prop where
  fresh : ∀ n, s.next ≤ n → s.calls n = none
  keyed : ∀ n call, s.calls n = some call → call.request.key = target call.owner
  /-- A monitor waits for a call of its own. -/
  starting : ∀ c n p todo cur, s.pc c = .starting n p todo cur →
    ∃ x, s.calls n = some ⟨c, .start p.toInt32 (target c), x⟩
  /-- A socket belongs to a call that opened it. -/
  opened : ∀ q l, s.opened q = some l →
    ∃ x, s.calls l.call = some ⟨l.owner, .start q l.key, x⟩ ∧ x.opening = true

omit [DecidableEq Cid] in
theorem calls_start : Calls target (System.start : System Cid) where
  fresh _ _ := rfl
  keyed _ _ h := absurd h (by simp [System.start])
  starting _ _ _ _ _ h := absurd h (by simp [System.start])
  opened _ _ h := absurd h (by simp [System.start])

namespace Calls

omit [DecidableEq Cid] in
theorem lt_next (h : Calls target s) {n : ℕ} {call : Call Cid} (hn : s.calls n = some call) :
    n < s.next := by
  by_contra hle
  rw [h.fresh n (Nat.not_lt.1 hle)] at hn
  exact absurd hn (by simp)

/-- A monitor moves on without waiting for a start. -/
theorem goto (h : Calls target s) (c : Cid) {x : Pc}
    (hx : ∀ n p todo cur, x ≠ .starting n p todo cur) : Calls target (s.goto c x) :=
  { h with
    starting := fun c' n p todo cur hpc ↦ by
      by_cases hc : c' = c
      · subst hc
        simp only [System.goto, update_self] at hpc
        exact absurd hpc (hx n p todo cur)
      · simp only [System.goto, update_of_ne hc] at hpc
        exact h.starting c' n p todo cur hpc }

/-- A monitor makes a call. -/
theorem issue (h : Calls target s) (c : Cid) {r : Request} {wait : ℕ → Pc}
    (hkey : r.key = target c)
    (hwait : ∀ n p todo cur, wait s.next = .starting n p todo cur →
      n = s.next ∧ r = .start p.toInt32 (target c)) :
    Calls target (s.issue c r wait) where
  fresh n hn := by
    have hne : n ≠ s.next := by simp [System.issue] at hn; omega
    simp only [System.issue, update_of_ne hne]
    exact h.fresh n (by simp [System.issue] at hn; omega)
  keyed n call hn := by
    by_cases hne : n = s.next
    · subst hne
      simp only [System.issue, update_self, Option.some.injEq] at hn
      subst hn
      exact hkey
    · simp only [System.issue, update_of_ne hne] at hn
      exact h.keyed n call hn
  starting c' n p todo cur hpc := by
    by_cases hc : c' = c
    · subst hc
      simp only [System.issue, update_self] at hpc
      obtain ⟨rfl, rfl⟩ := hwait n p todo cur hpc
      exact ⟨.sent, by simp [System.issue]⟩
    · simp only [System.issue, update_of_ne hc] at hpc
      obtain ⟨x, hx⟩ := h.starting c' n p todo cur hpc
      exact ⟨x, (update_of_ne (Nat.ne_of_lt (h.lt_next hx)) _ _).trans hx⟩
  opened q l hq := by
    obtain ⟨x, hx, hop⟩ := h.opened q l hq
    exact ⟨x, (update_of_ne (Nat.ne_of_lt (h.lt_next hx)) _ _).trans hx, hop⟩

omit [DecidableEq Cid] in
/-- The host gets on with a call; it does not take back a socket it has opened. -/
theorem setStage (h : Calls target s) {n : ℕ} {call : Call Cid} (hn : s.calls n = some call)
    {x : Stage} (hx : call.stage.opening = true → x.opening = true) :
    Calls target (s.setStage n call x) where
  fresh m hm := by
    have hne : m ≠ n := by have := h.lt_next hn; simp [System.setStage] at hm; omega
    simp only [System.setStage, update_of_ne hne]
    exact h.fresh m hm
  keyed m call' hm := by
    by_cases hne : m = n
    · subst hne
      simp only [System.setStage, update_self, Option.some.injEq] at hm
      subst hm
      exact h.keyed m call hn
    · simp only [System.setStage, update_of_ne hne] at hm
      exact h.keyed m call' hm
  starting c m p todo cur hpc := by
    obtain ⟨y, hy⟩ := h.starting c m p todo cur hpc
    by_cases hne : m = n
    · subst hne
      rw [hn] at hy
      cases hy
      exact ⟨x, by simp [System.setStage]⟩
    · exact ⟨y, (update_of_ne hne _ _).trans hy⟩
  opened q l hq := by
    obtain ⟨y, hy, hop⟩ := h.opened q l hq
    by_cases hne : l.call = n
    · rw [hne, hn] at hy
      cases hy
      exact ⟨x, by simp [System.setStage, hne], hx hop⟩
    · exact ⟨y, (update_of_ne hne _ _).trans hy, hop⟩

/-- The map of a monitor plays no part in it. -/
theorem setPorts (h : Calls target s) (c : Cid) (ps : List Int64) :
    Calls target (s.setPorts c ps) :=
  { h with }

omit [DecidableEq Cid] in
/-- A socket is opened for a call that has it. -/
theorem openFor (h : Calls target s) {n : ℕ} {c : Cid} {q : Int32} {key : String} {x : Stage}
    (hn : s.calls n = some ⟨c, .start q key, x⟩) (hx : x.opening = true) :
    Calls target (s.setOpened q (some ⟨n, c, key⟩)) :=
  { h with
    opened := fun q' l hq' ↦ by
      by_cases hne : q' = q
      · subst hne
        simp only [System.setOpened, update_self, Option.some.injEq] at hq'
        subst hq'
        exact ⟨x, hn, hx⟩
      · simp only [System.setOpened, update_of_ne hne] at hq'
        exact h.opened q' l hq' }

omit [DecidableEq Cid] in
theorem close (h : Calls target s) (q : Int32) : Calls target (s.setOpened q none) :=
  { h with
    opened := fun q' l hq' ↦ by
      by_cases hne : q' = q
      · subst hne
        simp [System.setOpened] at hq'
      · simp only [System.setOpened, update_of_ne hne] at hq'
        exact h.opened q' l hq' }

theorem closeEntry (h : Calls target s) (q : Int32) : Calls target (s.closeEntry q) := by
  unfold System.closeEntry
  split_ifs
  · exact h.close q
  · exact h

end Calls

@[simp] theorem calls_closeEntry (s : System Cid) (q : Int32) :
    (s.closeEntry q).calls = s.calls := by
  unfold System.closeEntry
  split_ifs <;> rfl

/-- **Every step keeps calls, monitors and sockets together.** -/
theorem calls_step (h : Calls target s) (hstep : step target s a = some t) : Calls target t := by
  cases step_cases hstep with
  | boot _ | stop _ => exact { h with }
  | tick _ | scanned _ | skip _ _ | rest _ | cancelled _ | giveUpStart _ | giveUpCancel _
  | notStarted _ _ _ => exact h.goto _ (by simp)
  | start hpc hp =>
    refine h.issue _ rfl fun n p todo cur hw ↦ ?_
    cases hw
    exact ⟨rfl, rfl⟩
  | sweep hpc hp hcur => exact (h.setPorts _ _).issue _ rfl (by simp)
  | started hpc hn hstage => exact (h.setPorts _ _).goto _ (by simp)
  | lose hn => exact h.setStage hn (by simp [Stage.opening])
  | listen hn hq =>
    refine (h.setStage hn (by simp [Stage.opening])).openFor (x := .listening) ?_ rfl
    simp [System.setStage]
  | refuse hn => exact h.setStage hn (by simp [Stage.opening])
  | record hn => exact { h.setStage hn (x := .replied true) (by simp [Stage.opening]) with }
  | cancel hn => exact (h.closeEntry _).setStage (by simpa using hn) (by simp [Stage.opening])
  | acceptFail hq => exact h.close _

end Ports

end Forward
