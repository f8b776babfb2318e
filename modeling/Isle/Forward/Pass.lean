import Isle.Foundation.Reconcile
import Isle.Forward.Ports
import Isle.Go.Maps
import Mathlib.Data.Finset.Dedup

/-!
# One pass of a port monitor

`processPorts` of `guest/guest.go` as a function: the map of the ports that are forwarded is
reconciled with the ports on which the container listens. What the host answers is left open, so
that any call may succeed or fail.

The calls for the ports of both lists are made with the same key: the loop goes through pairs of a
list and a target, and **its body uses the target of the container**, not that of the pair.

`processPorts_reconciles` is what a pass does, and `run_processPorts` says that a pass of the system
in `Isle.Forward.Ports`, which takes it in steps, is this function, with the host of that system.
-/

namespace Forward.Ports

/-- The request for a port. -/
def requestOf (target : String) : Ask Int64 → Request
  | .start p => .start p.toInt32 target
  | .stop p => .cancel p.toInt32 target

section Pass

variable {σ : Type*} (rpc : σ → Request → Bool × σ) (order : MapOrder Int64)
variable (target target6 : String)

/-- A call of the host for a port: whether it succeeds, and the host after it. -/
def hostCall (host : σ) (q : Ask Int64) : Bool × σ := rpc host (requestOf target q)

/-- The first loop of `processPorts`. -/
def scanPorts (v4 v6 : List Int64) (ports : Finset Int64) (host : σ) : Reconciler Int64 σ :=
  [(v4, target), (v6, target6)].foldl (fun s ps ↦ s.scanAll (hostCall rpc target) ps.1)
    (.begin ports host)

/-- `processPorts`, with the ports that were gathered for IPv4 and IPv6. -/
def processPorts (v4 v6 : List Int64) (ports : Finset Int64) (host : σ) : Reconciler Int64 σ :=
  let s := scanPorts rpc target target6 v4 v6 ports host
  s.sweepAll (hostCall rpc target) (order.keys s.held)

variable {rpc order target target6} {v4 v6 : List Int64} {ports : Finset Int64} {host : σ}

theorem scanPorts_eq : scanPorts rpc target target6 v4 v6 ports host =
    (Reconciler.begin ports host).scanAll (hostCall rpc target) (v4 ++ v6) := by
  simp [scanPorts, Reconciler.scanAll]

/-- **One pass of a monitor.** Afterwards the map has the ports that are listed and that were in it
before or for which a start has succeeded; starts are made for listed ports that are not in the map,
and not again after one has succeeded; and a cancel is made once for each port of the map that is
not listed, and for no other. -/
theorem processPorts_reconciles :
    Reconciles ports (v4 ++ v6) (processPorts rpc order target target6 v4 v6 ports host) := by
  have hkeys := order.mem_keys (scanPorts rpc target target6 v4 v6 ports host).held
  have hnodup := order.nodup_keys (scanPorts rpc target target6 v4 v6 ports host).held
  rw [processPorts]
  rw [scanPorts_eq] at hkeys hnodup ⊢
  exact reconciles _ ports (v4 ++ v6) host hnodup hkeys

end Pass

/-! ### A pass of the system -/

/-- The host, as it is found by a call: the number of the next call, the sockets that are open, and
the table. -/
structure Host (Cid : Type*) where
  next : ℕ
  opened : Int32 → Option (Listener Cid)
  listeners : Int32 → Option (Listener Cid)

/-- The host as the system has it. -/
def System.host {Cid : Type*} (s : System Cid) : Host Cid := ⟨s.next, s.opened, s.listeners⟩

variable {Cid : Type*} [DecidableEq Cid]

/-- `StartPortForward` and `CancelPortForward`, for a call of a container that nothing comes in
between. -/
def Host.rpc (c : Cid) (h : Host Cid) : Request → Bool × Host Cid
  | .start q key =>
    if h.opened q = none then
      (true, ⟨h.next + 1, Function.update h.opened q (some ⟨h.next, c, key⟩),
        Function.update h.listeners q (some ⟨h.next, c, key⟩)⟩)
    else (false, { h with next := h.next + 1 })
  | .cancel q _ =>
    (true, { h with
      next := h.next + 1
      opened := if h.listeners q = h.opened q then Function.update h.opened q none else h.opened })

/-- The map of a monitor and the host are those of a pass. -/
structure AtPass (c : Cid) (r : Reconciler Int64 (Host Cid)) (s : System Cid) : Prop where
  ports : ∀ p, p ∈ s.ports c ↔ p ∈ r.held
  host : s.host = r.env

section Simulation

variable {c : Cid} {s : System Cid} {p : Int64} {todo cur : List Int64}

/-- A start with nothing in between: the port gets into the map if the host grants it. -/
theorem exists_run_start (target : Cid → String) (hpc : s.pc c = .scan (p :: todo) cur)
    (hp : p ∉ s.ports c) :
    ∃ as t, Run (step target) s as t ∧ t.pc c = .scan todo (p :: cur) ∧
      t.host = (s.host.rpc c (.start p.toInt32 (target c))).2 ∧
      t.ports c = if (s.host.rpc c (.start p.toInt32 (target c))).1 then (s.ports c).insert p
        else s.ports c := by
  by_cases hopen : s.opened p.toInt32 = none
  · refine ⟨[.scan c, .listen s.next, .record s.next, .reply c], ?_⟩
    simp [run_iff_foldlM, step, scanStep, listenStep, recordStep, replyStep, hpc, hp, hopen,
      System.issue, System.setStage, System.setOpened, System.setPorts, System.goto, System.host,
      Host.rpc]
  · refine ⟨[.scan c, .refuse s.next, .reply c], ?_⟩
    simp [run_iff_foldlM, step, scanStep, refuseStep, replyStep, hpc, hp, hopen, System.issue,
      System.setStage, System.goto, System.host, Host.rpc]

/-- A cancel with nothing in between: the port is taken out of the map first. -/
theorem exists_run_cancel (target : Cid → String) (hpc : s.pc c = .sweep cur) (hp : p ∈ s.ports c)
    (hcur : p ∉ cur) :
    ∃ as t, Run (step target) s as t ∧ t.pc c = .sweep cur ∧
      t.host = (s.host.rpc c (.cancel p.toInt32 (target c))).2 ∧
      t.ports c = (s.ports c).filter (· ≠ p) := by
  refine ⟨[.sweep c p, .cancel s.next, .reply c], ?_⟩
  by_cases hentry : s.listeners p.toInt32 = s.opened p.toInt32
  all_goals
    simp [run_iff_foldlM, step, sweepStep, cancelStep, replyStep, hpc, hp, hcur, hentry,
      System.closeEntry, System.issue, System.setStage, System.setOpened, System.setPorts,
      System.goto, System.host, Host.rpc]

variable {r : Reconciler Int64 (Host Cid)}

/-- **A port of the first loop.** -/
theorem AtPass.scan (target : Cid → String) (h : AtPass c r s)
    (hpc : s.pc c = .scan (p :: todo) cur) :
    ∃ as t, Run (step target) s as t ∧ t.pc c = .scan todo (p :: cur) ∧
      AtPass c (r.scan (hostCall (Host.rpc c) (target c)) p) t := by
  by_cases hp : p ∈ s.ports c
  · have hscan : step target s (.scan c) = some (s.goto c (.scan todo (p :: cur))) := by
      simp [step, scanStep, hpc, hp]
    refine ⟨[.scan c], _, .cons trivial hscan (.nil _), Function.update_self .., ?_⟩
    rw [Reconciler.scan, if_pos ((h.ports p).1 hp)]
    exact ⟨h.ports, h.host⟩
  · obtain ⟨as, t, hrun, hpct, hhost, hports⟩ := exists_run_start target hpc hp
    refine ⟨as, t, hrun, hpct, ?_⟩
    have hserve : hostCall (Host.rpc c) (target c) r.env (.start p) =
        s.host.rpc c (.start p.toInt32 (target c)) := by
      rw [← h.host]
      rfl
    rw [Reconciler.scan, if_neg fun hmem ↦ hp ((h.ports p).2 hmem), Reconciler.ask, hserve]
    split_ifs at hports ⊢
    · refine ⟨fun x ↦ ?_, hhost⟩
      rw [hports, List.mem_insert_iff, Finset.mem_insert, h.ports]
    · refine ⟨fun x ↦ ?_, hhost⟩
      rw [hports]
      exact h.ports x

/-- The first loop. -/
theorem AtPass.scanAll (target : Cid → String) (h : AtPass c r s) (hpc : s.pc c = .scan todo cur) :
    ∃ as t, Run (step target) s as t ∧ t.pc c = .scan [] (todo.reverse ++ cur) ∧
      AtPass c (r.scanAll (hostCall (Host.rpc c) (target c)) todo) t := by
  induction todo generalizing r s cur with
  | nil => exact ⟨[], s, .nil s, hpc, h⟩
  | cons p todo ih =>
    obtain ⟨as, t, hrun, hpct, ht⟩ := h.scan target hpc
    obtain ⟨bs, u, hrun', hpcu, hu⟩ := ih ht hpct
    refine ⟨as ++ bs, u, hrun.append hrun', ?_, hu⟩
    rw [hpcu, List.reverse_cons, List.append_assoc, List.singleton_append]

/-- **A port of the second loop.** -/
theorem AtPass.sweep (target : Cid → String) (h : AtPass c r s) (hpc : s.pc c = .sweep cur)
    (hcur : ∀ x, x ∈ cur ↔ x ∈ r.seen) (hp : p ∈ r.held) :
    ∃ as t, Run (step target) s as t ∧ t.pc c = .sweep cur ∧
      AtPass c (r.sweep (hostCall (Host.rpc c) (target c)) p) t := by
  by_cases hseen : p ∈ r.seen
  · refine ⟨[], s, .nil s, hpc, ?_⟩
    rwa [Reconciler.sweep, if_pos hseen]
  · obtain ⟨as, t, hrun, hpct, hhost, hports⟩ :=
      exists_run_cancel target hpc ((h.ports p).2 hp) fun hx ↦ hseen ((hcur p).1 hx)
    refine ⟨as, t, hrun, hpct, ?_⟩
    rw [h.host] at hhost
    rw [Reconciler.sweep, if_neg hseen]
    refine ⟨fun x ↦ ?_, hhost⟩
    simp [hports, h.ports, and_comm]

/-- The second loop. -/
theorem AtPass.sweepAll (target : Cid → String) {keys : List Int64} (h : AtPass c r s)
    (hpc : s.pc c = .sweep cur) (hcur : ∀ x, x ∈ cur ↔ x ∈ r.seen) (hnodup : keys.Nodup)
    (hkeys : ∀ x ∈ keys, x ∈ r.held) :
    ∃ as t, Run (step target) s as t ∧ t.pc c = .sweep cur ∧
      AtPass c (r.sweepAll (hostCall (Host.rpc c) (target c)) keys) t := by
  induction keys generalizing r s with
  | nil => exact ⟨[], s, .nil s, hpc, h⟩
  | cons p keys ih =>
    obtain ⟨as, t, hrun, hpct, ht⟩ := h.sweep target hpc hcur
      (hkeys p List.mem_cons_self)
    have hswept := (swept_self r).sweep (hostCall (Host.rpc c) (target c)) p
    obtain ⟨hp, hnodup⟩ := List.nodup_cons.1 hnodup
    obtain ⟨bs, u, hrun', hpcu, hu⟩ := ih ht hpct (by rwa [hswept.seen_eq]) hnodup fun x hx ↦ by
      refine (hswept.held_iff x).2 ⟨hkeys x (List.mem_cons_of_mem _ hx), .inr ?_⟩
      rw [List.nil_append, List.mem_singleton]
      rintro rfl
      exact hp hx
    exact ⟨as ++ bs, u, hrun.append hrun', hpcu, hu⟩

/-- **A pass of the system is `processPorts`**: a monitor that is between passes gets to the same
map and leaves the same host. -/
theorem run_processPorts (target : Cid → String) (order : MapOrder Int64) (target6 : String)
    (v4 v6 : List Int64) (hlife : s.life c ≠ .created) (hidle : s.pc c = .idle) :
    ∃ as t, Run (step target) s as t ∧ t.pc c = .idle ∧
      AtPass c
        (processPorts (Host.rpc c) order (target c) target6 v4 v6 (s.ports c).toFinset s.host)
        t := by
  have htick : step target s (.tick c v4 v6) = some (s.goto c (.scan (v4 ++ v6) [])) := by
    simp [step, hlife, hidle]
  have hbegin : AtPass c (.begin (s.ports c).toFinset s.host) (s.goto c (.scan (v4 ++ v6) [])) :=
    ⟨fun p ↦ List.mem_toFinset.symm, rfl⟩
  obtain ⟨as, t, hscan, hpct, ht⟩ := hbegin.scanAll target (Function.update_self ..)
  rw [List.append_nil] at hpct
  have hscanned : step target t (.scan c) = some (t.goto c (.sweep (v4 ++ v6).reverse)) := by
    simp [step, scanStep, hpct]
  have hseen := ((scanned_begin (s.ports c).toFinset s.host).scanAll
    (hostCall (Host.rpc c) (target c)) (v4 ++ v6)).seen_iff
  rw [processPorts, scanPorts_eq]
  obtain ⟨bs, u, hsweep, hpcu, hu⟩ := AtPass.sweepAll target
    (⟨ht.ports, ht.host⟩ : AtPass c _ (t.goto c (.sweep (v4 ++ v6).reverse)))
    (Function.update_self ..) (fun x ↦ by rw [hseen, List.mem_reverse, List.nil_append])
    (order.nodup_keys _) fun x hx ↦ (order.mem_keys _ x).1 hx
  -- what is left in the map was seen in the first loop
  have hall : ∀ p ∈ u.ports c, p ∈ (v4 ++ v6).reverse := by
    intro p hp
    obtain ⟨hheld, hleft⟩ := (((swept_self _).sweepAll _ _).held_iff p).1 ((hu.ports p).1 hp)
    rcases hleft with hp | hp
    · rwa [hseen, List.nil_append, ← List.mem_reverse] at hp
    · rw [List.nil_append, order.mem_keys] at hp
      exact absurd hheld hp
  have hrest : step target u (.rest c) = some (u.goto c .idle) := by
    simp only [step, restStep, hpcu]
    exact if_pos (List.all_eq_true.2 fun p hp ↦ decide_eq_true (hall p hp))
  refine ⟨.tick c v4 v6 :: (as ++ (.scan c :: (bs ++ [.rest c]))), u.goto c .idle, ?_,
    Function.update_self .., hu.ports, hu.host⟩
  exact .cons trivial htick <| hscan.append <| .cons trivial hscanned <|
    hsweep.append <| .cons trivial hrest <| .nil _

end Simulation

end Forward.Ports
