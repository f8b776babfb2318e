import Isle.Guest.Usable

/-!
# IPv6 addresses

Where the bytes of an IPv6 address come from. `Init` puts the five bytes of the cluster id and the
two of the subnet id behind `fd`, which makes the eight bytes of a network with prefix length 64;
`allocIP` puts the six bytes of a hardware address behind those, and leaves the last two zero. The
three parts do not overlap, so that different ids give disjoint networks and different hardware
addresses different addresses; and the gateway, which `firstIP` ends in a one, is none of them.

`ipv6_separate` has all of it.
-/

namespace Guest

/-! ### The network of a guest -/

/-- The bytes of a guest's network. -/
def networkBytes (cluster subnet : List UInt8) : IP := 0xfd :: (cluster ++ subnet)

section Bytes

variable {cluster subnet cluster' subnet' : List UInt8}

theorem networkBytes_inj (hc : cluster.length = 5) (hc' : cluster'.length = 5)
    (h : networkBytes cluster subnet = networkBytes cluster' subnet') :
    cluster = cluster' ∧ subnet = subnet' :=
  List.append_inj (List.cons.inj h).2 (hc.trans hc'.symm)

variable (hc : cluster.length = 5) (hs : subnet.length = 2)
include hc hs

theorem length_networkBytes : (networkBytes cluster subnet).length = 8 := by
  simp [networkBytes, hc, hs]

/-- **The network `Init` derives**: the two copies go to different bytes. -/
theorem v6net_ipamOf :
    (ipamOf cluster subnet).v6net = ⟨networkBytes cluster subnet ++ List.replicate 8 0, 64⟩ := by
  have hcluster : copyAt (0xfd :: List.replicate 15 0) 1 cluster =
      [0xfd] ++ cluster ++ List.replicate 10 0 :=
    copyAt_middle (x := [0xfd]) (y := List.replicate 5 0) (z := List.replicate 10 0) hc
  have hsubnet : copyAt ([0xfd] ++ cluster ++ List.replicate 10 0) 6 subnet =
      ([0xfd] ++ cluster) ++ subnet ++ List.replicate 8 0 := by
    have hlen : ([0xfd] ++ cluster).length = 6 := by simp [hc]
    rw [show List.replicate 10 (0 : UInt8) = List.replicate 2 0 ++ List.replicate 8 0 from rfl,
      ← List.append_assoc, ← hlen]
    exact copyAt_middle hs
  show (⟨copyAt (copyAt _ 1 cluster) 6 subnet, 64⟩ : IPNet) = _
  rw [hcluster, hsubnet]
  simp [networkBytes]

theorem network_v6net :
    (ipamOf cluster subnet).v6net.network = (ipamOf cluster subnet).v6net := by
  have hmask := maskIP_eight_mul 8 (networkBytes cluster subnet ++ List.replicate 8 0)
  rw [List.take_left' (length_networkBytes hc hs), List.length_append,
    length_networkBytes hc hs] at hmask
  rw [v6net_ipamOf hc hs, IPNet.network]
  exact congrArg (fun ip ↦ (⟨ip, 64⟩ : IPNet)) hmask

/-- The addresses of the network are those that begin with its bytes. -/
theorem contains_v6net_iff {ip : IP} :
    (ipamOf cluster subnet).v6net.contains ip = true ↔
      ip.length = 16 ∧ ip.take 8 = networkBytes cluster subnet := by
  have hlen : (networkBytes cluster subnet ++ List.replicate 8 0).length = 16 := by
    rw [List.length_append, length_networkBytes hc hs]
    rfl
  rw [v6net_ipamOf hc hs, show (64 : ℕ) = 8 * 8 from rfl, contains_eight_mul, hlen,
    List.take_left' (length_networkBytes hc hs)]

theorem gw6_ipamOf :
    (ipamOf cluster subnet).gw6 = networkBytes cluster subnet ++ List.replicate 7 0 ++ [1] := by
  show firstIP (ipamOf cluster subnet).v6net.network = _
  rw [network_v6net hc hs, v6net_ipamOf hc hs, firstIP]
  simp [show List.replicate 8 (0 : UInt8) = List.replicate 7 0 ++ [0] from rfl]

end Bytes

/-! ### The address of a hardware address -/

/-- The IPv6 address of an answer: `allocIP` lists it second. -/
def ipv6Of (networks : List NetworkConfig) : Option IP :=
  networks[1]?.map fun n ↦ n.address.ip

/-- In some state of a guest, `allocIP` gives the hardware address that IPv6 address. -/
def Assigns (g : Ipam) (hw : List UInt8) (ip : IP) : Prop :=
  ∃ macs answers g₁ mac networks g₂, allocIPs g macs = .ok (answers, g₁) ∧
    parseMAC mac = some hw ∧ allocIP g₁ mac = .ok (networks, g₂) ∧ ipv6Of networks = some ip

/-- Calls leave the fields for IPv6 as they are. -/
theorem v6_allocIPs {g g' : Ipam} {macs : List String} {answers : List (List NetworkConfig)}
    (h : allocIPs g macs = .ok (answers, g')) : g'.v6net = g.v6net ∧ g'.gw6 = g.gw6 := by
  induction macs generalizing g answers with
  | nil =>
    cases h
    exact ⟨rfl, rfl⟩
  | cons mac macs ih =>
    obtain ⟨networks, g₁, rest, halloc, hrest, rfl⟩ := allocIPs_cons_eq_ok h
    obtain ⟨ip, hw, -, -, rfl⟩ := allocIP_eq_ok halloc
    have hsame := ih hrest
    exact hsame

section Assigns

variable {cluster subnet hw : List UInt8} {ip : IP} (hc : cluster.length = 5)
  (hs : subnet.length = 2) (hlen : hw.length = 6)
include hc hs hlen

/-- **The address `allocIP` derives**: the bytes of the network, the hardware address, two zeros. -/
theorem Assigns.eq (h : Assigns (ipamOf cluster subnet) hw ip) :
    ip = networkBytes cluster subnet ++ hw ++ [0, 0] := by
  obtain ⟨macs, answers, g₁, mac, networks, g₂, hcalls, hmac, halloc, hip⟩ := h
  obtain ⟨ip4, hw', hmac', rfl, -⟩ := allocIP_eq_ok halloc
  rw [hmac] at hmac'
  cases hmac'
  rw [(v6_allocIPs hcalls).1, network_v6net hc hs, v6net_ipamOf hc hs] at hip
  have hcopy : copyAt (networkBytes cluster subnet ++ List.replicate 8 0) (64 / 8) hw =
      networkBytes cluster subnet ++ hw ++ [0, 0] := by
    rw [show 64 / 8 = (networkBytes cluster subnet).length from (length_networkBytes hc hs).symm,
      show List.replicate 8 (0 : UInt8) = List.replicate 6 0 ++ [0, 0] from rfl,
      ← List.append_assoc]
    exact copyAt_middle hlen
  exact (Option.some.inj hip).symm.trans hcopy

theorem Assigns.contains (h : Assigns (ipamOf cluster subnet) hw ip) :
    (ipamOf cluster subnet).v6net.contains ip = true := by
  rw [contains_v6net_iff hc hs, h.eq hc hs hlen]
  refine ⟨?_, ?_⟩
  · simp [length_networkBytes hc hs, hlen]
  · rw [List.append_assoc, List.take_left' (length_networkBytes hc hs)]

/-- The gateway ends in a one, and an address that is assigned in a zero. -/
theorem Assigns.ne_gw6 (h : Assigns (ipamOf cluster subnet) hw ip) :
    ip ≠ (ipamOf cluster subnet).gw6 := by
  intro heq
  rw [gw6_ipamOf hc hs, h.eq hc hs hlen] at heq
  have hlast := congrArg List.getLast? heq
  simp at hlast

end Assigns

/-! ### Separation -/

/-- A start of the guest with the two ids leaves the networking state. -/
structure Derives (B : Bolt) (J : Json String) (cluster subnet : List UInt8) (g : Ipam) : Prop where
  cluster_length : cluster.length = 5
  subnet_length : subnet.length = 2
  start : ∃ db b db', clusterOf b = some cluster ∧ subnetOf B J db b = (.ok subnet, db') ∧
    init B J db b = (.ok g, db')

variable {B : Bolt} {J : Json String} {cluster subnet cluster' subnet' : List UInt8} {g g' : Ipam}

theorem Derives.eq (h : Derives B J cluster subnet g) : g = ipamOf cluster subnet := by
  obtain ⟨db, b, db', hcluster, hsubnet, hinit⟩ := h.start
  obtain ⟨c, s, hc, hs, rfl⟩ := ipamOf_of_init hinit
  rw [hcluster] at hc
  rw [hsubnet] at hs
  cases hc
  cases hs
  rfl

/-- The addresses that begin with `fd`. -/
def uniqueLocal : IPNet := ⟨0xfd :: List.replicate 15 0, 8⟩

/-- **IPv6 addressing is injective.** Guests with different ids have disjoint networks of unique
local addresses, and in one guest different hardware addresses get different addresses of its
network, none of which is the gateway. -/
theorem ipv6_separate (h : Derives B J cluster subnet g) (h' : Derives B J cluster' subnet' g') :
    ((cluster, subnet) ≠ (cluster', subnet') →
      ∀ ip, g.v6net.contains ip = true → g'.v6net.contains ip = false) ∧
    (∀ ip, g.v6net.contains ip = true → uniqueLocal.contains ip = true) ∧
    ∀ hw hw' ip ip', hw.length = 6 → hw'.length = 6 → Assigns g hw ip → Assigns g hw' ip' →
      (hw ≠ hw' → ip ≠ ip') ∧ g.v6net.contains ip = true ∧ ip ≠ g.gw6 := by
  obtain rfl := h.eq
  obtain rfl := h'.eq
  have hc := h.cluster_length
  have hs := h.subnet_length
  refine ⟨fun hne ip hip ↦ ?_, fun ip hip ↦ ?_, fun hw hw' ip ip' hlen hlen' ha ha' ↦
    ⟨fun hne heq ↦ ?_, ha.contains hc hs hlen, ha.ne_gw6 hc hs hlen⟩⟩
  · -- an address in both begins with the bytes of both
    rw [Bool.eq_false_iff]
    intro hip'
    have hbytes := ((contains_v6net_iff hc hs).1 hip).2
    have hbytes' := ((contains_v6net_iff h'.cluster_length h'.subnet_length).1 hip').2
    obtain ⟨rfl, rfl⟩ := networkBytes_inj hc h'.cluster_length (hbytes.symm.trans hbytes')
    exact hne rfl
  · obtain ⟨hlen, hbytes⟩ := (contains_v6net_iff hc hs).1 hip
    rw [uniqueLocal, show (8 : ℕ) = 8 * 1 from rfl, contains_eight_mul]
    refine ⟨by rw [hlen]; rfl, ?_⟩
    have htake : ip.take 1 = (ip.take 8).take 1 := by rw [List.take_take]; rfl
    rw [htake, hbytes]
    rfl
  · rw [ha.eq hc hs hlen, ha'.eq hc hs hlen'] at heq
    exact hne (List.append_cancel_left (List.append_cancel_right heq))

/-- A start with given ids. -/
def bootOf (cluster subnet : List UInt8) : Boot :=
  { sampleBoot with clusterId := String.ofList (hexEncode cluster), subnetId := some subnet }

/-- Any two ids are those of a start. -/
theorem derives_bootOf (hc : cluster.length = 5) (hs : subnet.length = 2) :
    Derives Bolt.mem jsonString cluster subnet (ipamOf cluster subnet) := by
  have hcluster : clusterOf (bootOf cluster subnet) = some cluster := by
    have hne : (bootOf cluster subnet).clusterId ≠ "" := by
      intro hempty
      have hchars := congrArg String.toList hempty
      rw [bootOf, String.toList_ofList] at hchars
      have hlen := congrArg List.length hchars
      simp [hexEncode, List.length_flatMap, hc] at hlen
    rw [clusterOf, if_neg hne, bootOf, String.toList_ofList, hexDecode_hexEncode]
  obtain ⟨db, hsubnet⟩ : ∃ db, subnetOf Bolt.mem jsonString Bolt.mem.empty
      (bootOf cluster subnet) = (.ok subnet, db) := ⟨_, rfl⟩
  refine ⟨hc, hs, Bolt.mem.empty, bootOf cluster subnet, db, hcluster, hsubnet, ?_⟩
  rw [init, hcluster, hsubnet]
  rfl

/-- A guest assigns an address to the first hardware address that it is asked for. -/
theorem assigns_macOf (b : UInt8) : ∃ ip, Assigns (ipamOf [1, 2, 3, 4, 5] [0xab, 0x12])
    [2, 66, 172, 22, 1, b] ip := by
  obtain ⟨ipv6, g, halloc, -⟩ := allocIP_of_standing (standing_ipamOf [1, 2, 3, 4, 5] [0xab, 0x12])
    (parseMAC_macOf b)
  exact ⟨ipv6.address.ip, [], [], _, macOf b, _, g, rfl, parseMAC_macOf b, halloc, rfl⟩

/-- Two guests of different clusters, and two containers of the first. -/
theorem ipv6_separate_two_clusters :
    (∃ ip ip', Assigns (ipamOf [1, 2, 3, 4, 5] [0xab, 0x12]) [2, 66, 172, 22, 1, 2] ip ∧
      Assigns (ipamOf [1, 2, 3, 4, 5] [0xab, 0x12]) [2, 66, 172, 22, 1, 3] ip' ∧ ip ≠ ip') ∧
    ∀ ip, (ipamOf [1, 2, 3, 4, 5] [0xab, 0x12]).v6net.contains ip = true →
      (ipamOf [1, 2, 3, 4, 6] [0xab, 0x12]).v6net.contains ip = false := by
  obtain ⟨hdisjoint, -, hassigned⟩ := ipv6_separate
    (derives_bootOf (show [1, 2, 3, 4, 5].length = 5 from rfl)
      (show [0xab, 0x12].length = 2 from rfl))
    (derives_bootOf (show [1, 2, 3, 4, 6].length = 5 from rfl)
      (show [0xab, 0x12].length = 2 from rfl))
  obtain ⟨ip, hip⟩ := assigns_macOf 2
  obtain ⟨ip', hip'⟩ := assigns_macOf 3
  exact ⟨⟨ip, ip', hip, hip', (hassigned _ _ ip ip' rfl rfl hip hip').1 (by decide)⟩,
    hdisjoint (by decide)⟩

end Guest
