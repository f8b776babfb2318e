import Isle.Guest.Addresses

/-!
# Which addresses are handed out

The IPv4 addresses that a sequence of calls of `allocIP` returns, from the state that `Init` sets
up. The search skips the gateway, which is in `usedIps`, and never lands on `.0`, as `firstIP` sets
the last byte to one. But the address `.255` **is in the network**, so that `Contains` does not make
the search wrap there: it is handed out as every other address, at the 254th call. (`lastIP` of
`guest/network.go` would leave it out. It is not called.)

`usable_iff` says that the first 253 calls are all that is safe.
-/

namespace Guest

/-! ### Sequences of calls -/

/-- The answers to calls of `allocIP` that all succeed, and the networking state after them. -/
def allocIPs : Ipam → List String → Except IpError (List (List NetworkConfig) × Ipam)
  | g, [] => .ok ([], g)
  | g, mac :: macs =>
    match allocIP g mac with
    | .error e => .error e
    | .ok (networks, g') =>
      match allocIPs g' macs with
      | .error e => .error e
      | .ok (answers, g'') => .ok (networks :: answers, g'')

variable {g g' : Ipam} {macs : List String} {answers : List (List NetworkConfig)} {k : ℕ}

theorem allocIPs_cons_eq_ok {g'' : Ipam} {mac : String}
    (h : allocIPs g (mac :: macs) = .ok (answers, g'')) :
    ∃ networks g' rest, allocIP g mac = .ok (networks, g') ∧
      allocIPs g' macs = .ok (rest, g'') ∧ answers = networks :: rest := by
  rw [allocIPs] at h
  split at h
  · cases h
  · next networks g' halloc =>
    split at h
    · cases h
    · next rest g₂ hrest =>
      cases h
      exact ⟨networks, g', rest, halloc, hrest, rfl⟩

/-- A call that succeeds has a hardware address that parses. -/
theorem isSome_parseMAC_of_allocIP (h : Standing g k) {mac : String} {networks : List NetworkConfig}
    (halloc : allocIP g mac = .ok (networks, g')) : ∃ hw, parseMAC mac = some hw := by
  rcases hmac : parseMAC mac with - | hw
  · rw [allocIP_of_parseMAC_eq_none h hmac] at halloc
    cases halloc
  · exact ⟨hw, rfl⟩

/-- **The addresses of a sequence of calls** go round the host addresses. -/
theorem ipv4Of_allocIPs (h : Standing g k) (hcalls : allocIPs g macs = .ok (answers, g')) :
    answers.map (fun a ↦ ipv4Of (.ok a)) =
      (List.range' k macs.length).map fun i ↦ some (hostIP (2 + i % 254)) := by
  induction macs generalizing g k answers with
  | nil =>
    cases hcalls
    rfl
  | cons mac macs ih =>
    obtain ⟨networks, g₁, rest, halloc, hrest, rfl⟩ := allocIPs_cons_eq_ok hcalls
    obtain ⟨hw, hmac⟩ := isSome_parseMAC_of_allocIP h halloc
    obtain ⟨ipv6, g₂, halloc', h'⟩ := allocIP_of_standing h hmac
    rw [halloc'] at halloc
    cases halloc
    rw [List.map_cons, ih h' hrest, List.length_cons, List.range'_succ, List.map_cons]
    rfl

/-- Calls with hardware addresses that parse all succeed. -/
theorem exists_allocIPs (h : Standing g k) (hmacs : ∀ mac ∈ macs, (parseMAC mac).isSome) :
    ∃ answers g', allocIPs g macs = .ok (answers, g') := by
  induction macs generalizing g k with
  | nil => exact ⟨[], g, rfl⟩
  | cons mac macs ih =>
    obtain ⟨hw, hmac⟩ := Option.isSome_iff_exists.1 (hmacs mac List.mem_cons_self)
    obtain ⟨ipv6, g₁, halloc, h'⟩ := allocIP_of_standing h hmac
    obtain ⟨answers, g₂, hrest⟩ := ih h' fun m hm ↦ hmacs m (List.mem_cons_of_mem _ hm)
    refine ⟨[⟨⟨hostIP (2 + k % 254), 24⟩, g.gw4⟩, ipv6] :: answers, g₂, ?_⟩
    rw [allocIPs, halloc]
    simp only [hrest]

/-! ### Usable addresses -/

/-- **A usable address** of a network with a gateway. -/
structure Usable (n : IPNet) (gw ip : IP) : Prop where
  mem : n.contains ip = true
  ne_network : ip ≠ n.network.ip
  ne_broadcast : ip ≠ broadcastIP n.ones n.ip
  ne_gateway : ip ≠ gw

/-- Of the addresses of the search, only the last is not usable. -/
theorem usable_hostIP_iff {y : ℕ} (h₁ : 2 ≤ y) (h₂ : y ≤ 255) :
    Usable ⟨gateway4, 24⟩ gateway4 (hostIP y) ↔ y ≠ 255 := by
  have hne : ∀ z ≤ 255, z ≠ y → hostIP y ≠ hostIP z := fun z hz hzy heq ↦
    hzy ((hostIP_inj h₂ hz).1 heq).symm
  have hbroadcast : broadcastIP 24 gateway4 = hostIP 255 := by decide
  constructor
  · rintro husable rfl
    exact husable.ne_broadcast hbroadcast.symm
  · intro hlast
    refine ⟨contains_hostOf [172, 22, 1] 1 y, ?_, ?_, hne 1 (by omega) (by omega)⟩
    · exact hne 0 (by omega) (by omega)
    · rw [hbroadcast]
      exact hne 255 le_rfl (Ne.symm hlast)

/-- Every answer has an IPv4 address, and it is usable. -/
def AllUsable (n : IPNet) (gw : IP) (answers : List (List NetworkConfig)) : Prop :=
  ∀ answer ∈ answers, ∃ ip, ipv4Of (.ok answer) = some ip ∧ Usable n gw ip

/-- The first 253 addresses are usable, and the next is the broadcast address. -/
theorem allUsable_iff_of_standing (h : Standing g 0)
    (hcalls : allocIPs g macs = .ok (answers, g')) :
    AllUsable ⟨gateway4, 24⟩ gateway4 answers ↔ macs.length ≤ 253 := by
  have haddresses := ipv4Of_allocIPs h hcalls
  -- the statement is about the list of the addresses
  have hmap : AllUsable ⟨gateway4, 24⟩ gateway4 answers ↔
      ∀ o ∈ answers.map (fun a ↦ ipv4Of (.ok a)),
        ∃ ip, o = some ip ∧ Usable ⟨gateway4, 24⟩ gateway4 ip := by
    simp [AllUsable]
  have husable : ∀ i, Usable ⟨gateway4, 24⟩ gateway4 (hostIP (2 + i % 254)) ↔ i % 254 ≠ 253 := by
    intro i
    have := Nat.mod_lt i (show 254 > 0 by omega)
    rw [usable_hostIP_iff (by omega) (by omega)]
    omega
  rw [hmap, haddresses]
  simp only [List.mem_map, List.mem_range'_1]
  constructor
  · intro hall
    by_contra hlen
    obtain ⟨ip, hip, hu⟩ := hall _ ⟨253, by omega, rfl⟩
    cases hip
    exact (husable 253).1 hu rfl
  · rintro hlen o ⟨i, hi, rfl⟩
    exact ⟨_, rfl, (husable i).2 (by omega)⟩

section Usable

variable {B : Bolt} {J : Json String}

/-- **Which sequences of calls hand out usable addresses only**: from the state that `Init` sets up,
those of at most 253 calls. -/
theorem usable_iff {db db' : B.Db} {b : Boot} {g g' : Ipam} (hinit : init B J db b = (.ok g, db'))
    {macs : List String} {answers : List (List NetworkConfig)}
    (hcalls : allocIPs g macs = .ok (answers, g')) :
    AllUsable g.lastUsedIP g.gw4 answers ↔ macs.length ≤ 253 := by
  obtain ⟨cluster, subnet, -, -, rfl⟩ := ipamOf_of_init hinit
  exact allUsable_iff_of_standing (standing_ipamOf cluster subnet) hcalls

end Usable

/-- Two containers booted by a guest on a new machine have usable addresses. -/
theorem usable_two_macs :
    ∃ g db answers g', init Bolt.mem jsonString Bolt.mem.empty sampleBoot = (.ok g, db) ∧
      allocIPs g [macOf 2, macOf 3] = .ok (answers, g') ∧
      AllUsable g.lastUsedIP g.gw4 answers := by
  obtain ⟨answers, g', hcalls⟩ := exists_allocIPs (standing_ipamOf [1, 2, 3, 4, 5] [0xab, 0x12])
    (show ∀ mac ∈ [macOf 2, macOf 3], (parseMAC mac).isSome by simp [parseMAC_macOf])
  refine ⟨_, _, answers, g', rfl, hcalls, ?_⟩
  exact (usable_iff (show init Bolt.mem jsonString Bolt.mem.empty sampleBoot = _ from rfl) hcalls).2
    (by simp)

/-- **The 254th container gets the broadcast address.** -/
theorem not_usable_of_254_macs :
    ∃ g db answers g', init Bolt.mem jsonString Bolt.mem.empty sampleBoot = (.ok g, db) ∧
      allocIPs g ((List.range 254).map fun k ↦ macOf (UInt8.ofNat k)) = .ok (answers, g') ∧
      ¬ AllUsable g.lastUsedIP g.gw4 answers := by
  have hstanding := standing_ipamOf [1, 2, 3, 4, 5] [0xab, 0x12]
  obtain ⟨answers, g', hcalls⟩ := exists_allocIPs hstanding
    (show ∀ mac ∈ (List.range 254).map fun k ↦ macOf (UInt8.ofNat k), (parseMAC mac).isSome by
      simp [parseMAC_macOf])
  refine ⟨_, _, answers, g', rfl, hcalls, fun husable ↦ ?_⟩
  have hlen := (allUsable_iff_of_standing hstanding hcalls).1 husable
  rw [List.length_map, List.length_range] at hlen
  omega

end Guest
