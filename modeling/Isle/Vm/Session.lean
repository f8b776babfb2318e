import Isle.Foundation.Run
import Mathlib.Data.List.Range

/-!
# The session between host and guest

The goroutine of `startListener` in `vm/vm.go` that takes the guest's connection to port 47, against
the loop of `main` in `cmd/isle-guest/main.go` that makes one. The guest connects, starts the
session at its end, and when the session ends it connects again, either in the loop or, as the
service is supervised, as a new process.

The host keeps what a reconnecting guest needs: it closes the previous connection and the previous
session, and puts the new session in `currentSession`. But it does so **once**. The goroutine
returns after the first connection, so that a later one is negotiated by the guest and stays in the
queue of the listener.

`follows_iff` says exactly when the host's session follows the guest: as long as the guest has
negotiated no connection but the first it made.
-/

namespace Vm

/-! ### The two ends -/

/-- Where the goroutine of the listener is. -/
inductive Host
  | accepting
  /-- The connection is `prevConn`, and the session is next. -/
  | accepted (c : ℕ)
  | done
  deriving DecidableEq, Repr

/-- Where the guest is. -/
inductive Guest
  | idle
  /-- Connected, with the session next. -/
  | dialled (c : ℕ)
  | running (c : ℕ)
  deriving DecidableEq, Repr

/-- Both ends of a running machine. The connections are numbered as they are made. -/
structure State where
  /-- How many connections were made. -/
  made : ℕ
  /-- The connections that were not accepted. -/
  backlog : List ℕ
  guest : Guest
  /-- The connections on which the guest has started a session, the latest first. -/
  served : List ℕ
  host : Host
  prevConn : Option ℕ
  /-- The connection of `currentSession`. -/
  currentSession : Option ℕ
  accepted : List ℕ
  /-- The connections on which the host could not start a session. -/
  refused : List ℕ
  closedConns : List ℕ
  closedSessions : List ℕ
  deriving DecidableEq, Repr

/-- Nobody has called anybody. -/
def init : State where
  made := 0
  backlog := []
  guest := .idle
  served := []
  host := .accepting
  prevConn := none
  currentSession := none
  accepted := []
  refused := []
  closedConns := []
  closedSessions := []

/-- What can happen next. -/
inductive Action
  /-- `vsock.Dial` of the guest. -/
  | dial
  /-- `yamux.Server` of the guest. -/
  | serve (ok : Bool)
  /-- The guest's session ends. -/
  | hangUp
  /-- `AcceptVirtioSocketConnection` of the host returns. -/
  | accept
  /-- `yamux.Client` of the host, up to the end of the goroutine. -/
  | client (ok : Bool)
  deriving DecidableEq, Repr

/-- The guest makes a connection. -/
def State.dial (s : State) : State :=
  { s with made := s.made + 1, backlog := s.backlog ++ [s.made], guest := .dialled s.made }

/-- `handleConn` of the guest, as far as the session. -/
def State.serve (s : State) (c : ℕ) (ok : Bool) : State :=
  if ok then { s with served := c :: s.served, guest := .running c } else { s with guest := .idle }

/-- The goroutine has a connection. -/
def State.accept (s : State) (c : ℕ) (rest : List ℕ) : State :=
  { s with
    backlog := rest
    host := .accepted c
    accepted := c :: s.accepted
    closedConns := s.prevConn.toList ++ s.closedConns
    prevConn := some c }

/-- The goroutine has a session or, on an error, none; it enters it all the same and returns. -/
def State.client (s : State) (c : ℕ) (ok : Bool) : State :=
  { s with
    host := .done
    refused := if ok then s.refused else c :: s.refused
    closedSessions := s.currentSession.toList ++ s.closedSessions
    currentSession := if ok then some c else none }

/-- One step of the guest or the host. -/
def step (s : State) : Action → Option State
  | .dial => if s.guest = .idle then some s.dial else none
  | .serve ok =>
    match s.guest with
    | .dialled c => some (s.serve c ok)
    | .idle | .running _ => none
  | .hangUp =>
    match s.guest with
    | .running _ => some { s with guest := .idle }
    | .idle | .dialled _ => none
  | .accept =>
    match s.host, s.backlog with
    | .accepting, c :: rest => some (s.accept c rest)
    | _, _ => none
  | .client ok =>
    match s.host with
    | .accepted c => some (s.client c ok)
    | .accepting | .done => none

namespace State

/-- The connections that were negotiated: the guest has a session, and the host has not failed to
start one. The latest is the first. -/
def negotiated (s : State) : List ℕ := s.served.filter fun c ↦ c ∉ s.refused

/-- The host has nothing to do. -/
def AtRest (s : State) : Prop := s.host = .done ∨ s.host = .accepting ∧ s.backlog = []

/-- **The host's session follows the guest**: it is the one over the latest connection that was
negotiated, and every other connection that was accepted is closed, and so is its session. -/
def Follows (s : State) : Prop :=
  ∀ c ∈ s.negotiated.head?, s.currentSession = some c ∧
    ∀ c' ∈ s.accepted, c' ≠ c → c' ∈ s.closedConns ∧ (c' ∈ s.refused ∨ c' ∈ s.closedSessions)

end State

/-! ### What a step does -/

variable {s t : State} {a : Action}

/-- What each step can do. -/
theorem step_cases (h : step s a = some t) :
    (s.guest = .idle ∧ t = s.dial) ∨
      (∃ c ok, s.guest = .dialled c ∧ t = s.serve c ok) ∨
      (∃ c, s.guest = .running c ∧ t = { s with guest := .idle }) ∨
      (∃ c rest, s.host = .accepting ∧ s.backlog = c :: rest ∧ t = s.accept c rest) ∨
      ∃ c ok, s.host = .accepted c ∧ t = s.client c ok := by
  cases a with
  | dial =>
    obtain ⟨hguest, rfl⟩ := guarded_eq_some h
    exact .inl ⟨hguest, rfl⟩
  | serve ok =>
    simp only [step] at h
    split at h <;> cases h
    next c hguest => exact .inr (.inl ⟨c, ok, hguest, rfl⟩)
  | hangUp =>
    simp only [step] at h
    split at h <;> cases h
    next c hguest => exact .inr (.inr (.inl ⟨c, hguest, rfl⟩))
  | accept =>
    simp only [step] at h
    split at h <;> cases h
    next c rest hhost hbacklog => exact .inr (.inr (.inr (.inl ⟨c, rest, hhost, hbacklog, rfl⟩)))
  | client ok =>
    simp only [step] at h
    split at h <;> cases h
    next c hhost => exact .inr (.inr (.inr (.inr ⟨c, ok, hhost, rfl⟩)))

/-- The host has come as far as the first connection. -/
def State.HostAt (s : State) : Prop :=
  match s.host with
  | .accepting => s.backlog = List.range s.made ∧ s.accepted = [] ∧ s.currentSession = none ∧
      s.refused = []
  | .accepted c => c = 0 ∧ s.accepted = [0] ∧ s.refused = []
  | .done => s.accepted = [0] ∧
      (s.currentSession = some 0 ∧ s.refused = [] ∨ s.currentSession = none ∧ s.refused = [0])

/-- Every step keeps it. -/
theorem hostAt_step (hs : s.HostAt) (h : step s a = some t) : t.HostAt := by
  obtain ⟨-, rfl⟩ | ⟨c, ok, -, rfl⟩ | ⟨c, -, rfl⟩ | ⟨c, rest, hhost, hbacklog, rfl⟩ |
    ⟨c, ok, hhost, rfl⟩ := step_cases h
  · unfold State.HostAt at hs ⊢
    rcases hhost : s.host with - | c | -
    · rw [hhost] at hs
      simp only [State.dial, hhost]
      refine ⟨?_, hs.2⟩
      rw [hs.1, List.range_succ]
    · simp only [State.dial, hhost]
      rwa [hhost] at hs
    · simp only [State.dial, hhost]
      rwa [hhost] at hs
  · rcases ok with - | - <;> exact hs
  · exact hs
  · rw [State.HostAt, hhost] at hs
    obtain ⟨hrange, haccepted, -, hrefused⟩ := hs
    -- The first connection in the queue is the first that was made.
    have hc : c = 0 := by
      have hhead := congrArg List.head? (hrange.symm.trans hbacklog)
      rw [List.head?_range, List.head?_cons] at hhead
      split_ifs at hhead
      exact (Option.some.inj hhead).symm
    exact ⟨hc, by simp [State.accept, haccepted, hc], hrefused⟩
  · rw [State.HostAt, hhost] at hs
    obtain ⟨rfl, haccepted, hrefused⟩ := hs
    rcases ok with - | -
    · exact ⟨haccepted, .inr ⟨rfl, by simp [State.client, hrefused]⟩⟩
    · exact ⟨haccepted, .inl ⟨rfl, by simp [State.client, hrefused]⟩⟩

/-- The guest serves its connections in the order in which they are made. -/
structure State.GuestAt (s : State) : Prop where
  lt_made : ∀ c ∈ s.served, c < s.made
  descending : s.served.Pairwise (· > ·)
  dialled : ∀ c, s.guest = .dialled c → c < s.made ∧ ∀ d ∈ s.served, d < c

theorem guestAt_step (hs : s.GuestAt) (h : step s a = some t) : t.GuestAt := by
  obtain ⟨-, rfl⟩ | ⟨c, ok, hguest, rfl⟩ | ⟨c, -, rfl⟩ | ⟨c, rest, -, -, rfl⟩ |
    ⟨c, ok, -, rfl⟩ := step_cases h
  · refine ⟨fun c hc ↦ Nat.lt_succ_of_lt (hs.lt_made c hc), hs.descending, fun c hc ↦ ?_⟩
    obtain rfl : s.made = c := Guest.dialled.inj hc
    exact ⟨Nat.lt_succ_self _, hs.lt_made⟩
  · obtain ⟨hlt, hbelow⟩ := hs.dialled c hguest
    rcases ok with - | -
    · exact ⟨hs.lt_made, hs.descending, fun _ h ↦ nomatch h⟩
    · refine ⟨List.forall_mem_cons.2 ⟨hlt, hs.lt_made⟩, hs.descending.cons hbelow, ?_⟩
      exact fun _ h ↦ nomatch h
  · exact ⟨hs.lt_made, hs.descending, fun _ h ↦ nomatch h⟩
  · exact ⟨hs.lt_made, hs.descending, hs.dialled⟩
  · exact ⟨hs.lt_made, hs.descending, hs.dialled⟩

/-! ### Whole runs -/

/-- The latest connection that was negotiated was made after the others. -/
theorem State.GuestAt.le_head (hs : s.GuestAt) {c d : ℕ} (hd : d ∈ s.negotiated.head?)
    (hc : c ∈ s.negotiated) : c ≤ d := by
  have hdesc : s.negotiated.Pairwise (· > ·) := hs.descending.filter _
  obtain ⟨rest, hrest⟩ := List.head?_eq_some_iff.1 hd
  rw [hrest] at hdesc hc
  rcases List.mem_cons.1 hc with rfl | hc
  · exact Nat.le_refl c
  · exact Nat.le_of_lt (List.rel_of_pairwise_cons hdesc hc)

/-- After the first connection, the session follows the guest as long as that one is the latest. -/
theorem follows_iff_of_done (hhost : s.HostAt) (hguest : s.GuestAt) (hdone : s.host = .done) :
    s.Follows ↔ ∀ c ∈ s.negotiated, c = 0 := by
  rw [State.HostAt, hdone] at hhost
  obtain ⟨haccepted, hsession⟩ := hhost
  constructor
  · intro hfollows c hc
    obtain ⟨d, hd⟩ : ∃ d, s.negotiated.head? = some d :=
      Option.ne_none_iff_exists'.1 fun hnil ↦ by simp [List.head?_eq_none_iff.1 hnil] at hc
    have hcurrent := (hfollows d hd).1
    rcases hsession with ⟨hzero, -⟩ | ⟨hnone, -⟩
    · obtain rfl : 0 = d := Option.some.inj (hzero.symm.trans hcurrent)
      exact Nat.le_zero.1 (hguest.le_head hd hc)
    · exact absurd (hnone.symm.trans hcurrent) (by simp)
  · intro hfirst c hc
    have hmem : c ∈ s.negotiated := List.mem_of_mem_head? hc
    obtain rfl := hfirst c hmem
    rcases hsession with ⟨hzero, -⟩ | ⟨-, hrefused⟩
    · refine ⟨hzero, fun c' hc' hne ↦ ?_⟩
      rw [haccepted] at hc'
      exact absurd (List.mem_singleton.1 hc') hne
    · have hnot := (List.mem_filter.1 hmem).2
      simp [hrefused] at hnot

/-- While the host waits for a connection, none was made. -/
theorem not_mem_negotiated_of_waiting (hhost : s.HostAt) (hguest : s.GuestAt)
    (hwait : s.host = .accepting) (hempty : s.backlog = []) (c : ℕ) : c ∉ s.negotiated := by
  intro hc
  rw [State.HostAt, hwait] at hhost
  have hmade : s.made = 0 := List.range_eq_nil.1 (hhost.1.symm.trans hempty)
  have hlt := hguest.lt_made c (List.mem_of_mem_filter hc)
  rw [hmade] at hlt
  exact absurd hlt (Nat.not_lt_zero c)

/-- **When the host's session follows the guest.** In every run of a machine, whenever the host has
nothing to do, its session follows the guest exactly when the guest has negotiated no connection but
the first. -/
theorem follows_iff {as : List Action} {s : State} (h : Run step init as s) (hrest : s.AtRest) :
    s.Follows ↔ ∀ c ∈ s.negotiated, c = 0 := by
  have hhost : s.HostAt :=
    h.invariant (fun _ _ _ hs _ hstep ↦ hostAt_step hs hstep) ⟨rfl, rfl, rfl, rfl⟩
  have hguest : s.GuestAt :=
    h.invariant (fun _ _ _ hs _ hstep ↦ guestAt_step hs hstep)
      ⟨by simp [init], List.Pairwise.nil, fun _ h ↦ nomatch h⟩
  obtain hdone | ⟨hwait, hempty⟩ := hrest
  · exact follows_iff_of_done hhost hguest hdone
  · have hnone := not_mem_negotiated_of_waiting hhost hguest hwait hempty
    refine iff_of_true (fun c hc ↦ absurd (List.mem_of_mem_head? hc) (hnone c)) fun c hc ↦ ?_
    exact absurd hc (hnone c)

/-- The guest connects once. -/
theorem follows_firstConnection :
    ∃ s, Run step init [.dial, .accept, .serve true, .client true] s ∧ s.negotiated = [0] ∧
      s.Follows := by
  obtain ⟨s, hrun, hdone, hneg⟩ : ∃ s, Run step init [.dial, .accept, .serve true, .client true] s ∧
      s.host = .done ∧ s.negotiated = [0] :=
    ⟨_, run_iff_foldlM.2 rfl, rfl, by decide⟩
  refine ⟨s, hrun, hneg, (follows_iff hrun (.inl hdone)).2 fun c hc ↦ ?_⟩
  rw [hneg] at hc
  exact List.mem_singleton.1 hc

/-- **A guest that connects again.** The session of the host is the one over the first connection,
which the guest has left, and stays open. -/
theorem exists_stale_session :
    ∃ s, Run step init
        [.dial, .accept, .serve true, .client true, .hangUp, .dial, .serve true] s ∧ s.AtRest ∧
      s.negotiated = [1, 0] ∧ s.currentSession = some 0 ∧ s.closedSessions = [] ∧ ¬s.Follows := by
  refine ⟨_, run_iff_foldlM.2 rfl, .inl rfl, by decide, rfl, rfl, fun h ↦ ?_⟩
  exact absurd (h 1 (by decide)).1 (by decide)

end Vm
