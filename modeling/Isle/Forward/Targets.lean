import Isle.Forward.Pass

/-!
# Where forwarded ports lead

The passes of the monitor of one container, with the host that answers its calls. A connection to a
forwarded port is passed on to the key of the socket: the IPv4 or the IPv6 address of the container.
`processPorts` makes every call with the IPv4 address, so a port on which the container listens for
IPv6 alone is forwarded to an address where nobody listens.

`valid_throughout_iff`: the forwards are valid after every pass exactly if in none of them a port is
listed for IPv6 alone. What the map does not remember, the family a port was started with, plays no
part: there is only one.
-/

namespace Forward.Ports

variable {Cid : Type*} [DecidableEq Cid]

/-! ### Sockets of the ports in the map -/

/-- Each port of the map has a socket of its own, which is in the table and leads to the key. -/
structure Forwards (key : String) (r : Reconciler Int64 (Host Cid)) : Prop where
  socket : ∀ p ∈ r.held, ∃ l, r.env.opened p.toInt32 = some l ∧
    r.env.listeners p.toInt32 = some l ∧ l.key = key
  injective : ∀ p ∈ r.held, ∀ q ∈ r.held, p.toInt32 = q.toInt32 → p = q

section Forwards

variable {c : Cid} {target : String} {r : Reconciler Int64 (Host Cid)}

/-- A start keeps the sockets of the ports in the map: it is refused on a port that is taken. -/
theorem Forwards.scan (h : Forwards target r) (p : Int64) :
    Forwards target (r.scan (hostCall (Host.rpc c) target) p) := by
  unfold Reconciler.scan
  split_ifs with hp hok
  · exact ⟨h.socket, h.injective⟩
  · have hnone : r.env.opened p.toInt32 = none := by
      by_contra hopen
      simp [hostCall, requestOf, Host.rpc, hopen] at hok
    -- no port of the map has the socket that was free
    have hne : ∀ q ∈ r.held, q.toInt32 ≠ p.toInt32 := by
      intro q hq heq
      obtain ⟨l, hl, -⟩ := h.socket q hq
      rw [heq, hnone] at hl
      cases hl
    have henv : (hostCall (Host.rpc c) target r.env (.start p)).2 =
        ⟨r.env.next + 1, Function.update r.env.opened p.toInt32 (some ⟨r.env.next, c, target⟩),
          Function.update r.env.listeners p.toInt32 (some ⟨r.env.next, c, target⟩)⟩ := by
      simp [hostCall, requestOf, Host.rpc, hnone]
    simp only [Reconciler.ask, henv]
    refine ⟨fun q hq ↦ ?_, fun q hq q' hq' heq ↦ ?_⟩
    · rcases Finset.mem_insert.1 hq with rfl | hq
      · exact ⟨⟨r.env.next, c, target⟩, Function.update_self .., Function.update_self .., rfl⟩
      · obtain ⟨l, hl, hl', hkey⟩ := h.socket q hq
        exact ⟨l, (Function.update_of_ne (hne q hq) _ _).trans hl,
          (Function.update_of_ne (hne q hq) _ _).trans hl', hkey⟩
    · rcases Finset.mem_insert.1 hq with rfl | hold
      · rcases Finset.mem_insert.1 hq' with rfl | hold'
        · rfl
        · exact absurd heq.symm (hne q' hold')
      · rcases Finset.mem_insert.1 hq' with rfl | hold'
        · exact absurd heq (hne q hold)
        · exact h.injective q hold q' hold' heq
  · have henv : (hostCall (Host.rpc c) target r.env (.start p)).2 =
        { r.env with next := r.env.next + 1 } := by
      have hopen : r.env.opened p.toInt32 ≠ none := fun hnone ↦ hok (by
        simp [hostCall, requestOf, Host.rpc, hnone])
      simp [hostCall, requestOf, Host.rpc, hopen]
    simp only [Reconciler.ask, henv]
    exact ⟨h.socket, h.injective⟩

/-- A cancel closes the socket of its own port. -/
theorem Forwards.sweep (h : Forwards target r) {p : Int64} (hp : p ∈ r.held) :
    Forwards target (r.sweep (hostCall (Host.rpc c) target) p) := by
  unfold Reconciler.sweep
  split_ifs with hseen
  · exact h
  · refine ⟨fun q hq ↦ ?_, fun q hq q' hq' ↦ ?_⟩
    · obtain ⟨hne, hq⟩ := Finset.mem_erase.1 hq
      have hport : q.toInt32 ≠ p.toInt32 := fun heq ↦ hne (h.injective q hq p hp heq)
      obtain ⟨l, hl, hl', hkey⟩ := h.socket q hq
      refine ⟨l, ?_, hl', hkey⟩
      show (if _ then Function.update r.env.opened p.toInt32 none else r.env.opened) q.toInt32 = _
      split_ifs
      · rw [Function.update_of_ne hport, hl]
      · exact hl
    · exact h.injective q (Finset.mem_of_mem_erase hq) q' (Finset.mem_of_mem_erase hq')

theorem Forwards.scanAll (h : Forwards target r) (ps : List Int64) :
    Forwards target (r.scanAll (hostCall (Host.rpc c) target) ps) := by
  induction ps generalizing r with
  | nil => exact h
  | cons p ps ih => exact ih (h.scan p)

theorem Forwards.sweepAll {keys : List Int64} (h : Forwards target r) (hnodup : keys.Nodup)
    (hkeys : ∀ p ∈ keys, p ∈ r.held) :
    Forwards target (r.sweepAll (hostCall (Host.rpc c) target) keys) := by
  induction keys generalizing r with
  | nil => exact h
  | cons p keys ih =>
    obtain ⟨hp, hnodup⟩ := List.nodup_cons.1 hnodup
    have hswept := (swept_self r).sweep (hostCall (Host.rpc c) target) p
    refine ih (h.sweep (hkeys p List.mem_cons_self)) hnodup fun x hx ↦ ?_
    refine (hswept.held_iff x).2 ⟨hkeys x (List.mem_cons_of_mem _ hx), .inr ?_⟩
    rw [List.nil_append, List.mem_singleton]
    rintro rfl
    exact hp hx

end Forwards

/-! ### The passes of a monitor -/

/-- The monitor of a container between two passes: its map, the host, and the ports on which the
container listened when they were last gathered. -/
structure Monitor (Cid : Type*) where
  ports : Finset Int64
  host : Host Cid
  v4 : List Int64
  v6 : List Int64

/-- Before the first pass nothing is in the map. -/
def Monitor.start (host : Host Cid) : Monitor Cid := ⟨∅, host, [], []⟩

/-- A pass: the order in which the map is walked, and the ports that were gathered. -/
structure Pass where
  order : MapOrder Int64
  v4 : List Int64
  v6 : List Int64

section Monitor

variable (c : Cid) (target target6 : String)

/-- `processPorts`, for a pass of the monitor of `c`. -/
def Monitor.process (s : Monitor Cid) (a : Pass) : Reconciler Int64 (Host Cid) :=
  processPorts (Host.rpc c) a.order target target6 a.v4 a.v6 s.ports s.host

/-- A pass in which every call succeeds. -/
def passStep (s : Monitor Cid) (a : Pass) : Option (Monitor Cid) :=
  let r := s.process c target target6 a
  if r.log.all Asked.ok then some ⟨r.held, r.env, a.v4, a.v6⟩ else none

/-- **Every port of the map is forwarded to an address on which the container listens on it.** -/
def Monitor.Valid (s : Monitor Cid) : Prop :=
  ∀ p ∈ s.ports, ∃ l, s.host.opened p.toInt32 = some l ∧
    (l.key = target ∧ p ∈ s.v4 ∨ l.key = target6 ∧ p ∈ s.v6)

/-- No port is listed for IPv6 alone, unless the two addresses are the same. -/
def OnIPv4 (a : Pass) : Prop := target = target6 ∨ ∀ p ∈ a.v6, p ∈ a.v4

variable {c target target6} {s t : Monitor Cid} {a : Pass}

theorem forwards_process (h : Forwards target (.begin s.ports s.host)) :
    Forwards target (s.process c target target6 a) := by
  rw [Monitor.process, processPorts]
  have hscan : Forwards target
      (scanPorts (Host.rpc c) target target6 a.v4 a.v6 s.ports s.host) := by
    rw [scanPorts_eq]
    exact h.scanAll (a.v4 ++ a.v6)
  exact hscan.sweepAll (a.order.nodup_keys _) fun p ↦ (a.order.mem_keys _ p).1

/-- After a pass in which every call succeeds, the map has the ports that are listed. -/
theorem mem_ports_of_passStep (h : passStep c target target6 s a = some t) (p : Int64) :
    p ∈ t.ports ↔ p ∈ a.v4 ∨ p ∈ a.v6 := by
  obtain ⟨hok, rfl⟩ := guarded_eq_some h
  have hkeys := a.order.mem_keys
    (scanPorts (Host.rpc c) target target6 a.v4 a.v6 s.ports s.host).held
  show p ∈ (s.process c target target6 a).held ↔ _
  rw [Monitor.process, processPorts] at hok ⊢
  rw [scanPorts_eq] at hkeys hok ⊢
  rw [held_iff_of_granted _ s.ports (a.v4 ++ a.v6) s.host hkeys (List.all_eq_true.1 hok),
    List.mem_append]

theorem forwards_of_passStep (h : passStep c target target6 s a = some t)
    (hs : Forwards target (.begin s.ports s.host)) : Forwards target (.begin t.ports t.host) := by
  obtain ⟨-, rfl⟩ := guarded_eq_some h
  have hr : Forwards target (s.process c target target6 a) := forwards_process hs
  exact ⟨hr.socket, hr.injective⟩

/-- **A pass, exactly.** The forwards are valid after it if and only if no port is listed for IPv6
alone. -/
theorem valid_iff_of_passStep (h : passStep c target target6 s a = some t)
    (hs : Forwards target (.begin s.ports s.host)) :
    t.Valid target target6 ↔ OnIPv4 target target6 a := by
  have hports := mem_ports_of_passStep h
  have hsocket := (forwards_of_passStep h hs).socket
  obtain ⟨-, rfl⟩ := guarded_eq_some h
  constructor
  · intro hvalid
    refine or_iff_not_imp_left.2 fun hne p hp ↦ ?_
    have hmem := (hports p).2 (.inr hp)
    obtain ⟨l, hl, hkey⟩ := hvalid p hmem
    obtain ⟨l', hl', -, hkey'⟩ := hsocket p hmem
    obtain rfl : l = l' := Option.some.inj (hl.symm.trans hl')
    rcases hkey with ⟨-, hv4⟩ | ⟨hkey6, -⟩
    · exact hv4
    · exact absurd (hkey'.symm.trans hkey6) hne
  · intro hfamily p hp
    obtain ⟨l, hl, -, hkey⟩ := hsocket p hp
    refine ⟨l, hl, ?_⟩
    rcases (hports p).1 hp with hv4 | hv6
    · exact .inl ⟨hkey, hv4⟩
    · rcases hfamily with heq | hall
      · exact .inr ⟨hkey.trans heq, hv6⟩
      · exact .inl ⟨hkey, hall p hv6⟩

end Monitor

/-- **Validity of the forwards, exactly.** In passes whose calls all succeed, every port of the map
is forwarded to an address on which the container listens on it, after every pass, if and only if
in every pass each port listed for IPv6 is listed for IPv4 too. -/
theorem valid_throughout_iff (c : Cid) (target target6 : String) (host : Host Cid)
    (passes : List Pass) (t : Monitor Cid)
    (h : Run (passStep c target target6) (.start host) passes t) :
    Throughout (passStep c target target6) (Monitor.Valid target target6) (.start host) passes ↔
      RunWhile (passStep c target target6) (fun _ a ↦ OnIPv4 target target6 a) (.start host) passes
        t := by
  have hstart : Forwards target (.begin (Monitor.start host).ports (Monitor.start host).host) :=
    ⟨fun p hp ↦ absurd hp (Finset.notMem_empty p), fun p hp ↦ absurd hp (Finset.notMem_empty p)⟩
  exact RunWhile.throughout_iff (J := fun s ↦ Forwards target (.begin s.ports s.host))
    (fun s a t hs hstep ↦ forwards_of_passStep hstep hs)
    (fun s a t hs _ hstep ↦ valid_iff_of_passStep hstep hs) h hstart
    fun p hp ↦ absurd hp (Finset.notMem_empty p)

/-! ### A container that listens on port 8080 -/

section OnePort

/-- A host on which nothing is forwarded. -/
def Host.empty : Host ℕ := ⟨0, fun _ ↦ none, fun _ ↦ none⟩

/-- A first pass in which one port is listed, for one family or for both. -/
noncomputable def onePort (v4 v6 : List Int64) : Pass := ⟨.some, v4, v6⟩

/-- The monitor after the first pass: the port is in the map, and its socket leads to IPv4. -/
def afterOnePort (v4 v6 : List Int64) : Monitor ℕ :=
  ⟨{8080}, ⟨1, Function.update (fun _ ↦ none) (8080 : Int64).toInt32 (some ⟨0, 0, "172.22.1.2"⟩),
    Function.update (fun _ ↦ none) (8080 : Int64).toInt32 (some ⟨0, 0, "172.22.1.2"⟩)⟩, v4, v6⟩

theorem passStep_onePort {v4 v6 : List Int64} (hports : v4 ++ v6 = [8080]) :
    passStep 0 "172.22.1.2" "fd47:cafe::2" (.start .empty) (onePort v4 v6) =
      some (afterOnePort v4 v6) := by
  have hscan : scanPorts (Host.rpc 0) "172.22.1.2" "fd47:cafe::2" v4 v6 ∅ Host.empty =
      ⟨{8080}, {8080}, [⟨.start 8080, true⟩], (afterOnePort v4 v6).host⟩ := by
    rw [scanPorts_eq, hports]
    rfl
  have hprocess : (Monitor.start .empty).process 0 "172.22.1.2" "fd47:cafe::2" (onePort v4 v6) =
      ⟨{8080}, {8080}, [⟨.start 8080, true⟩], (afterOnePort v4 v6).host⟩ := by
    show Reconciler.sweepAll _ (scanPorts _ _ _ v4 v6 ∅ Host.empty)
      (MapOrder.some.keys (scanPorts _ _ _ v4 v6 ∅ Host.empty).held) = _
    rw [hscan]
    exact sweepAll_eq_self _ fun p hp ↦ (MapOrder.some.mem_keys _ p).1 hp
  rw [passStep, hprocess]
  rfl

/-- A port on which the container listens for IPv4 is forwarded rightly. -/
theorem valid_of_ipv4 :
    ∃ t, Run (passStep 0 "172.22.1.2" "fd47:cafe::2") (.start .empty) [onePort [8080] []] t ∧
      Throughout (passStep 0 "172.22.1.2" "fd47:cafe::2")
        (Monitor.Valid "172.22.1.2" "fd47:cafe::2") (.start .empty) [onePort [8080] []] := by
  have hstep := @passStep_onePort [8080] [] rfl
  refine ⟨_, .cons trivial hstep (.nil _), ?_⟩
  refine (valid_throughout_iff 0 _ _ .empty _ _ (.cons trivial hstep (.nil _))).2 ?_
  exact .cons (.inr fun p hp ↦ absurd hp List.not_mem_nil) hstep (.nil _)

/-- **A port on which the container listens for IPv6 alone is forwarded to its IPv4 address**, where
nobody listens. -/
theorem not_valid_of_ipv6_alone :
    ∃ t, Run (passStep 0 "172.22.1.2" "fd47:cafe::2") (.start .empty) [onePort [] [8080]] t ∧
      ¬ t.Valid "172.22.1.2" "fd47:cafe::2" := by
  have hstep := @passStep_onePort [] [8080] rfl
  refine ⟨_, .cons trivial hstep (.nil _), fun hvalid ↦ ?_⟩
  obtain ⟨l, hl, ⟨-, hv4⟩ | ⟨hkey, -⟩⟩ := hvalid 8080 (Finset.mem_singleton_self _)
  · exact absurd hv4 List.not_mem_nil
  · have hsocket : (afterOnePort [] [8080]).host.opened (8080 : Int64).toInt32 =
        some ⟨0, 0, "172.22.1.2"⟩ := by simp [afterOnePort]
    obtain rfl := Option.some.inj (hsocket.symm.trans hl)
    exact absurd hkey (by decide)

end OnePort

end Forward.Ports
