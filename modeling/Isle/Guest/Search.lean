import Isle.Guest.Network

/-!
# What the search for an address finds

`allocIP` of `guest/network.go` on any network with a prefix of three bytes, with any addresses in
use. The order of the search is cyclic: the last byte goes up to `255` and on to `1`. It comes back
to the address it started from after 254 others, which is when it gives up (`searchIP_eq`).

`allocIP` in `Isle.Guest.Network` is a function that gives no state where it fails. Here it is the
method, `allocIPCall`, which has a state in either case, so that what a failed call leaves behind is
something to prove (`run_allocIPCall`).
-/

namespace Guest

/-- `allocIP` as a method on the networking fields. -/
def allocIPCall (mac : String) : EStateM IpError Ipam (List NetworkConfig) := do
  let g ← get
  let start := g.lastUsedIP
  match searchIP start.ones start.ip g.usedIps (searchFuel start) start.ip start.network.ip with
  | .searching => throw .searching
  | .exhausted => throw .exhausted
  | .found nextIP =>
    let ipv4 : NetworkConfig := ⟨⟨nextIP, start.ones⟩, g.gw4⟩
    let cidr6 := g.v6net.network
    match parseMAC mac with
    | none => throw .mac
    | some hw =>
      let ipv6 : NetworkConfig := ⟨⟨copyAt cidr6.ip (cidr6.ones / 8) hw, cidr6.ones⟩, g.gw6⟩
      modify fun g ↦ { g with lastUsedIP := ⟨nextIP, start.ones⟩ }
      return [ipv4, ipv6]

/-- The method is the function, and where that fails the fields are as they were. -/
theorem run_allocIPCall (g : Ipam) (mac : String) :
    (allocIPCall mac).run g = match allocIP g mac with
      | .ok (networks, g') => .ok networks g'
      | .error e => .error e g := by
  rcases hsearch : searchIP g.lastUsedIP.ones g.lastUsedIP.ip g.usedIps (searchFuel g.lastUsedIP)
    g.lastUsedIP.ip g.lastUsedIP.network.ip with ip | - | -
  · rcases hmac : parseMAC mac with - | hw
    · simp only [allocIPCall, allocIP, EStateM.run_bind, EStateM.run_get, hsearch, hmac]
      rfl
    · simp only [allocIPCall, allocIP, EStateM.run_bind, EStateM.run_get, hsearch, hmac]
      rfl
  · simp only [allocIPCall, allocIP, EStateM.run_bind, EStateM.run_get, hsearch]
    rfl
  · simp only [allocIPCall, allocIP, EStateM.run_bind, EStateM.run_get, hsearch]
    rfl

/-! ### Networks with a prefix of three bytes -/

section Slash24

variable {g : Ipam} {a b c : UInt8} {x : ℕ}

/-- The addresses of the network, other than one of them, are those that come after it. -/
theorem forall_octetAfter_iff {P : ℕ → Prop} (h₁ : 1 ≤ x) (h₂ : x ≤ 255) :
    (∀ i, 1 ≤ i → i ≤ 254 → P (octetAfter x i)) ↔ ∀ y, 1 ≤ y → y ≤ 255 → y ≠ x → P y := by
  constructor
  · intro h y hy₁ hy₂ hne
    -- `y` is as many steps after `x` as their difference, round the network
    have hy : octetAfter x ((y + 255 - x) % 255) = y := by
      unfold octetAfter
      omega
    rw [← hy]
    exact h _ (by omega) (by omega)
  · intro h i hi₁ hi₂
    refine h _ (octetAfter_bounds x i).1 (octetAfter_bounds x i).2 fun heq ↦ ?_
    have := (octetAfter_eq_self_iff h₁ h₂ hi₁ (by omega)).1 heq
    omega

/-- The step at which the search of `allocIP` ends, if it finds an address. -/
def stepOf (g : Ipam) (p : IP) (x : ℕ) : Option ℕ :=
  (List.range' 1 254).find? fun i ↦ unusedIP p g.usedIps (octetAfter x i)

/-- The search of `allocIP` with any fuel for all the addresses. -/
theorem searchIP_lastUsedIP (hlast : g.lastUsedIP = ⟨hostOf [a, b, c] x, 24⟩) (h₁ : 1 ≤ x)
    (h₂ : x ≤ 255) {fuel : ℕ} (hfuel : 255 ≤ fuel) :
    searchIP g.lastUsedIP.ones g.lastUsedIP.ip g.usedIps fuel g.lastUsedIP.ip
        g.lastUsedIP.network.ip =
      match stepOf g [a, b, c] x with
      | some i => .found (hostOf [a, b, c] (octetAfter x i))
      | none => .exhausted := by
  have hnetwork : g.lastUsedIP.network.ip = hostOf [a, b, c] 0 := by
    rw [hlast]
    exact maskIP_hostOf [a, b, c] x
  rw [hnetwork, hlast]
  exact searchIP_eq (p := [a, b, c]) (by simp) h₁ h₂ hfuel 0

theorem stepOf_eq_none_iff (h₁ : 1 ≤ x) (h₂ : x ≤ 255) :
    stepOf g [a, b, c] x = none ↔
      ∀ y, 1 ≤ y → y ≤ 255 → y ≠ x → ⟨hostOf [a, b, c] y, 24⟩ ∈ g.usedIps := by
  rw [← forall_octetAfter_iff h₁ h₂, stepOf, List.find?_range'_eq_none]
  constructor
  · intro h i hi₁ hi₂
    simpa [unusedIP] using h i hi₁ (by omega)
  · intro h i hi₁ hi₂
    simpa [unusedIP] using h i hi₁ (by omega)

theorem stepOf_eq_some_iff {i : ℕ} :
    stepOf g [a, b, c] x = some i ↔
      (1 ≤ i ∧ i ≤ 254) ∧ ⟨hostOf [a, b, c] (octetAfter x i), 24⟩ ∉ g.usedIps ∧
        ∀ j, 1 ≤ j → j < i → ⟨hostOf [a, b, c] (octetAfter x j), 24⟩ ∈ g.usedIps := by
  rw [stepOf, List.find?_range'_eq_some]
  simp only [unusedIP, List.mem_range'_1, List.length_cons, List.length_nil]
  constructor
  · rintro ⟨hfree, hi, hbefore⟩
    refine ⟨by omega, by simpa using hfree, fun j hj₁ hj₂ ↦ ?_⟩
    simpa using hbefore j hj₁ hj₂
  · rintro ⟨hi, hfree, hbefore⟩
    refine ⟨by simpa using hfree, by omega, fun j hj₁ hj₂ ↦ ?_⟩
    simpa using hbefore j hj₁ hj₂

theorem searchFuel_lastUsedIP (hlast : g.lastUsedIP = ⟨hostOf [a, b, c] x, 24⟩) :
    255 ≤ searchFuel g.lastUsedIP := by
  rw [hlast]
  exact (show 255 ≤ 257 by omega)

/-- A call for which every other address is in use. -/
theorem run_allocIPCall_of_none (hlast : g.lastUsedIP = ⟨hostOf [a, b, c] x, 24⟩) (h₁ : 1 ≤ x)
    (h₂ : x ≤ 255) (hstep : stepOf g [a, b, c] x = none) (mac : String) :
    (allocIPCall mac).run g = .error .exhausted g := by
  have hsearch := searchIP_lastUsedIP hlast h₁ h₂ (searchFuel_lastUsedIP hlast)
  rw [run_allocIPCall, allocIP, hsearch, hstep]

/-- A call for which an address is found: only the hardware address can fail. -/
theorem run_allocIPCall_of_some (hlast : g.lastUsedIP = ⟨hostOf [a, b, c] x, 24⟩) (h₁ : 1 ≤ x)
    (h₂ : x ≤ 255) {i : ℕ} (hstep : stepOf g [a, b, c] x = some i) (mac : String) :
    (parseMAC mac = none ∧ (allocIPCall mac).run g = .error .mac g) ∨
      ∃ ipv6, (allocIPCall mac).run g =
        .ok [⟨⟨hostOf [a, b, c] (octetAfter x i), 24⟩, g.gw4⟩, ipv6]
          { g with lastUsedIP := ⟨hostOf [a, b, c] (octetAfter x i), 24⟩ } := by
  have hsearch := searchIP_lastUsedIP hlast h₁ h₂ (searchFuel_lastUsedIP hlast)
  have hones : g.lastUsedIP.ones = 24 := by rw [hlast]
  rw [run_allocIPCall, allocIP, hsearch, hstep]
  rcases parseMAC mac with - | hw
  · exact .inl ⟨rfl, rfl⟩
  · refine .inr ⟨⟨⟨copyAt g.v6net.network.ip (g.v6net.network.ones / 8) hw, g.v6net.network.ones⟩,
      g.gw6⟩, ?_⟩
    simp only [hones]

/-- **A complete search** from the last byte `x` in the network with the bytes `p`. -/
structure Complete (g : Ipam) (p : IP) (x : ℕ) (mac : String) : Prop where
  /-- The loop ends. -/
  ends : ∀ fuel, 255 ≤ fuel → searchIP g.lastUsedIP.ones g.lastUsedIP.ip g.usedIps fuel
    g.lastUsedIP.ip g.lastUsedIP.network.ip ≠ .searching
  /-- What is returned is the first address in the cyclic order that is not in use. -/
  first : ∀ networks g', (allocIPCall mac).run g = .ok networks g' →
    ∃ i, (1 ≤ i ∧ i ≤ 254) ∧
      (networks.head?.map NetworkConfig.address = some ⟨hostOf p (octetAfter x i), 24⟩) ∧
      ⟨hostOf p (octetAfter x i), 24⟩ ∉ g.usedIps ∧
      ∀ j, 1 ≤ j → j < i → ⟨hostOf p (octetAfter x j), 24⟩ ∈ g.usedIps
  /-- The network is exhausted exactly when every other address is in use. -/
  exhausted : (∃ g', (allocIPCall mac).run g = .error .exhausted g') ↔
    ∀ y, 1 ≤ y → y ≤ 255 → y ≠ x → ⟨hostOf p y, 24⟩ ∈ g.usedIps
  /-- Otherwise a hardware address that parses is given an address. -/
  answered : (parseMAC mac).isSome →
    (∃ y, 1 ≤ y ∧ y ≤ 255 ∧ y ≠ x ∧ ⟨hostOf p y, 24⟩ ∉ g.usedIps) →
      ∃ networks g', (allocIPCall mac).run g = .ok networks g'
  /-- A call that fails changes nothing. -/
  unchanged : ∀ e g', (allocIPCall mac).run g = .error e g' →
    g'.lastUsedIP = g.lastUsedIP ∧ g'.usedIps = g.usedIps

/-- **The search terminates and is complete**, in every network with a prefix of three bytes, from
every address of it but the first, with any addresses in use. -/
theorem allocIP_complete (hlast : g.lastUsedIP = ⟨hostOf [a, b, c] x, 24⟩) (h₁ : 1 ≤ x)
    (h₂ : x ≤ 255) (mac : String) : Complete g [a, b, c] x mac := by
  have hends : ∀ fuel, 255 ≤ fuel → searchIP g.lastUsedIP.ones g.lastUsedIP.ip g.usedIps fuel
      g.lastUsedIP.ip g.lastUsedIP.network.ip ≠ .searching := by
    intro fuel hfuel
    rw [searchIP_lastUsedIP hlast h₁ h₂ hfuel]
    rcases stepOf g [a, b, c] x with - | i <;> simp
  -- by the first step at which an address is free, if there is one
  rcases hstep : stepOf g [a, b, c] x with - | i
  · have hall := (stepOf_eq_none_iff h₁ h₂).1 hstep
    have hrun := run_allocIPCall_of_none hlast h₁ h₂ hstep mac
    refine ⟨hends, fun networks g' hok ↦ ?_, ⟨fun _ ↦ hall, fun _ ↦ ⟨g, hrun⟩⟩, ?_,
      fun e g' herr ↦ ?_⟩
    · rw [hrun] at hok
      cases hok
    · rintro - ⟨y, hy₁, hy₂, hne, hfree⟩
      exact absurd (hall y hy₁ hy₂ hne) hfree
    · rw [hrun] at herr
      cases herr
      exact ⟨rfl, rfl⟩
  · have hfirst := stepOf_eq_some_iff.1 hstep
    have hnot : ¬ ∀ y, 1 ≤ y → y ≤ 255 → y ≠ x → ⟨hostOf [a, b, c] y, 24⟩ ∈ g.usedIps := by
      rw [← stepOf_eq_none_iff h₁ h₂, hstep]
      simp
    rcases run_allocIPCall_of_some hlast h₁ h₂ hstep mac with ⟨hmac, hrun⟩ | ⟨ipv6, hrun⟩
    · refine ⟨hends, fun networks g' hok ↦ ?_, ⟨?_, fun hall ↦ absurd hall hnot⟩, ?_,
        fun e g' herr ↦ ?_⟩
      · rw [hrun] at hok
        cases hok
      · rintro ⟨g', herr⟩
        rw [hrun] at herr
        cases herr
      · intro hsome
        simp [hmac] at hsome
      · rw [hrun] at herr
        cases herr
        exact ⟨rfl, rfl⟩
    · refine ⟨hends, fun networks g' hok ↦ ?_, ⟨?_, fun hall ↦ absurd hall hnot⟩,
        fun _ _ ↦ ⟨_, _, hrun⟩, fun e g' herr ↦ ?_⟩
      · rw [hrun] at hok
        cases hok
        exact ⟨i, hfirst.1, rfl, hfirst.2⟩
      · rintro ⟨g', herr⟩
        rw [hrun] at herr
        cases herr
      · rw [hrun] at herr
        cases herr

end Slash24

/-- From the state of `Init`, and with a hardware address that does not parse. -/
theorem allocIP_complete_init :
    (ipamOf [1, 2, 3, 4, 5] [0xab, 0x12]).lastUsedIP = ⟨hostOf [172, 22, 1] 1, 24⟩ ∧
      Complete (ipamOf [1, 2, 3, 4, 5] [0xab, 0x12]) [172, 22, 1] 1 "02:42:ac:16:01" :=
  ⟨rfl, allocIP_complete rfl (by omega) (by omega) _⟩

end Guest
