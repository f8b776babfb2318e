import Isle.Go.Net
import Isle.Guest.Vars

/-!
# Address allocation

`Guest.Init`'s network set-up (`guest/guest.go`) and `IPForMac`, `allocIP`, `firstIP` of
`guest/network.go`. A container's IPv4 address comes from a search that starts after the last
address handed out, wraps at the end of the network and skips the addresses in `usedIps`; its IPv6
address is the guest's /64 with the hardware address in it. `IPForMac` first asks the `ips` bucket
of the database for an earlier allocation.

Three facts about the source decide everything below, and each is a lemma:

* `allocIP` moves `lastUsedIP` and **never adds to** `usedIps` (`allocIP_eq_ok`);
* nothing **writes the `ips` bucket**, so the lookup always misses (`World.Ready`);
* the search therefore runs round the 254 host addresses `.2` … `.255` in order
  (`allocIP_of_standing`), and hands `.2` out again at the 255th allocation.

The search loop is `searchIP`, with fuel; `searchIP_eq` says where it ends, in any network with one
host byte.
-/

namespace Guest

/-! ### The data -/

/-- `network.NetworkConfig`. -/
structure NetworkConfig where
  /-- Address and prefix length. -/
  address : IPNet
  /-- The gateway of the network. -/
  gateway : IP
  deriving DecidableEq, Repr

/-- A record of the `ips` bucket. -/
structure IPInfo where
  /-- Whether the record is that of a gateway. -/
  gateway : Bool
  /-- The IPv4 address in CIDR notation; empty for no record. -/
  ipv4 : String
  /-- The IPv6 address in CIDR notation. -/
  ipv6 : String
  deriving DecidableEq, Repr

/-- How the records of the `ips` bucket are read: their CBOR form, and the addresses in them. -/
structure IpsFormat where
  /-- `cbor.Unmarshal` into an `IPInfo`. -/
  unmarshal : List UInt8 → Option IPInfo
  /-- `net.ParseCIDR`, keeping the host bits. -/
  parseCIDR : String → Option IPNet

/-- The networking fields of `Guest`. -/
structure Ipam where
  /-- The IPv4 gateway. -/
  gw4 : IP
  /-- The IPv6 gateway. -/
  gw6 : IP
  /-- The guest's IPv6 network. -/
  v6net : IPNet
  /-- The keys of `usedIps`. -/
  usedIps : List IPNet
  /-- The address handed out last. -/
  lastUsedIP : IPNet
  deriving DecidableEq, Repr

/-- What `IPForMac` can return instead of addresses. -/
inductive IpError
  | bolt (e : BoltError)
  | cbor
  | cidr
  | exhausted
  | mac
  /-- The search is still going on when the fuel is spent. -/
  | searching
  deriving DecidableEq, Repr

/-! ### The search -/

/-- `firstIP`: the address with its last byte set to one. -/
def firstIP (n : IPNet) : IP :=
  n.ip.dropLast ++ [1]

/-- How the search loop of `allocIP` ends. -/
inductive Search
  | found (ip : IP)
  | exhausted
  | searching
  deriving DecidableEq, Repr

/-- The loop of `allocIP`. `cur` is `nextIP` before the round and `net` is `curNet.IP`, which the
loop overwrites with the address it tries. -/
def searchIP (ones : ℕ) (start : IP) (used : List IPNet) : ℕ → IP → IP → Search
  | 0, _, _ => .searching
  | fuel + 1, cur, net =>
    let next := nextIP cur
    let ip := if IPNet.contains ⟨net, ones⟩ next then next else firstIP ⟨net, ones⟩
    if ip = start then .exhausted
    else if ⟨ip, ones⟩ ∈ used then searchIP ones start used fuel ip ip
    else .found ip

/-- Rounds enough to try every address of a network. -/
def searchFuel (n : IPNet) : ℕ :=
  2 ^ (8 * n.ip.length - n.ones) + 1

/-- `allocIP`: the addresses for a hardware address, and the networking state after handing them
out. -/
def allocIP (g : Ipam) (mac : String) : Except IpError (List NetworkConfig × Ipam) :=
  match searchIP g.lastUsedIP.ones g.lastUsedIP.ip g.usedIps (searchFuel g.lastUsedIP)
      g.lastUsedIP.ip g.lastUsedIP.network.ip with
  | .searching => .error .searching
  | .exhausted => .error .exhausted
  | .found ip =>
    match parseMAC mac with
    | none => .error .mac
    | some hw =>
      let ipv4 : NetworkConfig := ⟨⟨ip, g.lastUsedIP.ones⟩, g.gw4⟩
      let cidr6 := g.v6net.network
      let ipv6 : NetworkConfig := ⟨⟨copyAt cidr6.ip (cidr6.ones / 8) hw, cidr6.ones⟩, g.gw6⟩
      .ok ([ipv4, ipv6], { g with lastUsedIP := ⟨ip, g.lastUsedIP.ones⟩ })

/-! ### The lookup -/

/-- The bucket of earlier allocations. -/
def ipsBucket : String := "ips"

variable (B : Bolt) (F : IpsFormat)

/-- The first half of `IPForMac`: the addresses recorded for a hardware address, if there are
any. -/
def lookupIP (g : Ipam) (db : B.Db) (mac : String) :
    Except IpError (Option (List NetworkConfig)) :=
  match B.view db fun tx ↦ .ok (tx.get ipsBucket mac) with
  | .error e => .error (.bolt e)
  | .ok none => .ok none
  | .ok (some val) =>
    match F.unmarshal val with
    | none => .error .cbor
    | some info =>
      if info.ipv4 = "" then .ok none
      else
        match F.parseCIDR info.ipv4, F.parseCIDR info.ipv6 with
        | some ip4, some ip6 => .ok (some [⟨ip4, g.gw4⟩, ⟨ip6, g.gw6⟩])
        | _, _ => .error .cidr

/-- `IPForMac`: the recorded addresses, or new ones. -/
def ipForMac (g : Ipam) (db : B.Db) (mac : String) : Except IpError (List NetworkConfig × Ipam) :=
  match lookupIP B F g db mac with
  | .error e => .error e
  | .ok (some networks) => .ok (networks, g)
  | .ok none => allocIP g mac

/-! ### `Init` -/

/-- What a start of the guest finds: its configuration, its random bytes, and how the calls that may
fail turn out. -/
structure Boot where
  /-- The cluster id from the kernel command line. -/
  clusterId : String
  /-- The random bytes for a temporary cluster id. -/
  uniqueId : List UInt8
  /-- The random bytes for a new subnet id, if they can be read. -/
  subnetId : Option (List UInt8)
  /-- Whether the database opens. -/
  opened : Bool
  /-- How the commit of the new subnet id turns out. -/
  commit : Option BoltError
  /-- Whether the containerd client connects. -/
  client : Bool

/-- What `Init` can return instead of `nil`. -/
inductive InitError
  | openDB
  | hex
  | rand
  | setVar (e : VarError)
  | containerd
  deriving DecidableEq, Repr

/-- `strings.TrimSpace`. -/
def trimSpace (cs : List Char) : List Char :=
  ((cs.dropWhile Char.isWhitespace).reverse.dropWhile Char.isWhitespace).reverse

/-- The IPv4 gateway, and the address `lastUsedIP` starts from. -/
def gateway4 : IP := [172, 22, 1, 1]

/-- The state of the networking fields at the end of `Init`, for given cluster and subnet ids. -/
def ipamOf (cluster subnet : List UInt8) : Ipam :=
  let clusterAddr := copyAt (0xfd :: List.replicate 15 0) 1 cluster
  let v6net : IPNet := ⟨copyAt clusterAddr 6 subnet, 64⟩
  { gw4 := gateway4
    gw6 := firstIP v6net.network
    v6net := v6net
    usedIps := [⟨gateway4, 24⟩]
    lastUsedIP := ⟨gateway4, 24⟩ }

variable (J : Json String)

/-- The subnet id `Init` uses: the stored one, or a new one that it stores. The database is returned
with it. -/
def subnetOf (db : B.Db) (b : Boot) : Except InitError (List UInt8) × B.Db :=
  match getVar B J db "subnet-id" with
  | .ok subnet =>
    match hexDecode (trimSpace subnet.toList) with
    | some data => (.ok data, db)
    | none => (.error .hex, db)
  | .error _ =>
    match b.subnetId with
    | none => (.error .rand, db)
    | some data =>
      match setVar B J db "subnet-id" (String.ofList (hexEncode data)) b.commit with
      | .ok db' => (.ok data, db')
      | .error e => (.error (.setVar e), db)

/-- The cluster id `Init` uses: the configured one, or a temporary one. -/
def clusterOf (b : Boot) : Option (List UInt8) :=
  hexDecode (if b.clusterId = "" then hexEncode b.uniqueId else b.clusterId.toList)

/-- `Init`, as far as it concerns networking and the database. -/
def init (db : B.Db) (b : Boot) : Except InitError Ipam × B.Db :=
  if b.opened then
    match clusterOf b with
    | none => (.error .hex, db)
    | some cluster =>
      match subnetOf B J db b with
      | (.error e, db') => (.error e, db')
      | (.ok subnet, db') =>
        if b.client then (.ok (ipamOf cluster subnet), db') else (.error .containerd, db')
  else (.error .openDB, db)

/-! ### One guest over many starts -/

/-- An event in the life of a guest machine: a start of the guest on the machine's database, or a
call of `IPForMac`. -/
inductive IpEvent
  | start (b : Boot)
  | call (mac : String)

/-- The machine between events: the guest that is up, if one is, its database, and every successful
answer so far, the latest first. -/
structure World where
  /-- The guest process, after a start that succeeded. -/
  guest : Option Ipam
  /-- The database on the data disk. -/
  db : B.Db
  /-- The hardware addresses that were given addresses, with those addresses. -/
  handed : List (String × List NetworkConfig)

namespace World

/-- A machine with a new data disk, before the first start. -/
def fresh : World B :=
  { guest := none, db := B.empty, handed := [] }

/-- One event. A start that fails leaves no guest; a call needs one. -/
def step (w : World B) : IpEvent → World B
  | .start b =>
    match init B J w.db b with
    | (.ok g, db) => { w with guest := some g, db := db }
    | (.error _, db) => { w with guest := none, db := db }
  | .call mac =>
    match w.guest with
    | none => w
    | some g =>
      match ipForMac B F g w.db mac with
      | .ok (networks, g') =>
        { w with guest := some g', handed := (mac, networks) :: w.handed }
      | .error _ => w

/-- A sequence of events. -/
def run (w : World B) (es : List IpEvent) : World B :=
  es.foldl (step B F J) w

end World

/-! ### What `allocIP` does to the networking state -/

variable {g : Ipam} {mac : String} {x k : ℕ}

/-- What `allocIP` returns where it succeeds, and what it changes: `lastUsedIP` and nothing else. -/
theorem allocIP_eq_ok {g' : Ipam} {networks : List NetworkConfig}
    (h : allocIP g mac = .ok (networks, g')) :
    ∃ ip hw, parseMAC mac = some hw ∧
      networks = [⟨⟨ip, g.lastUsedIP.ones⟩, g.gw4⟩,
        ⟨⟨copyAt g.v6net.network.ip (g.v6net.network.ones / 8) hw, g.v6net.network.ones⟩, g.gw6⟩] ∧
      g' = { g with lastUsedIP := ⟨ip, g.lastUsedIP.ones⟩ } := by
  unfold allocIP at h
  split at h
  · cases h
  · cases h
  · next ip hsearch =>
    split at h
    · cases h
    · next hw hmac =>
      cases h
      exact ⟨ip, hw, hmac, rfl, rfl⟩

/-- A host address of the guest's IPv4 network. -/
def hostIP (x : ℕ) : IP := [172, 22, 1, UInt8.ofNat x]

/-- The last byte of `lastUsedIP` after `k` allocations. -/
def lastOctet : ℕ → ℕ
  | 0 => 1
  | k + 1 => 2 + k % 254

/-- The networking state of a guest that has handed out `k` addresses since its start. -/
structure Standing (g : Ipam) (k : ℕ) : Prop where
  /-- Only the gateway is ever in use. -/
  used : g.usedIps = [⟨gateway4, 24⟩]
  /-- The search starts after the `k`-th address. -/
  last : g.lastUsedIP = ⟨hostIP (lastOctet k), 24⟩

theorem standing_ipamOf (cluster subnet : List UInt8) : Standing (ipamOf cluster subnet) 0 :=
  ⟨rfl, rfl⟩

theorem lastOctet_bounds (k : ℕ) : 1 ≤ lastOctet k ∧ lastOctet k ≤ 255 := by
  cases k with
  | zero => simp [lastOctet]
  | succ k =>
    have := Nat.mod_lt k (show 254 > 0 by omega)
    simp only [lastOctet]
    omega

theorem lastOctet_succ (k : ℕ) :
    lastOctet (k + 1) = if lastOctet k = 255 then 2 else lastOctet k + 1 := by
  cases k with
  | zero => rfl
  | succ k =>
    by_cases h : 2 + k % 254 = 255
    · simp only [lastOctet, h, if_true]
      omega
    · simp only [lastOctet, h, if_false]
      omega

/-! ### The search, round by round -/

/-- The last byte `i` steps after another in the cyclic order of `1` … `255`. -/
def octetAfter (x i : ℕ) : ℕ := (x - 1 + i) % 255 + 1

theorem octetAfter_bounds (x i : ℕ) : 1 ≤ octetAfter x i ∧ octetAfter x i ≤ 255 := by
  have := Nat.mod_lt (x - 1 + i) (show 255 > 0 by omega)
  unfold octetAfter
  omega

theorem octetAfter_zero (h₁ : 1 ≤ x) (h₂ : x ≤ 255) : octetAfter x 0 = x := by
  unfold octetAfter
  omega

theorem octetAfter_succ (x i : ℕ) :
    octetAfter x (i + 1) = if octetAfter x i = 255 then 1 else octetAfter x i + 1 := by
  unfold octetAfter
  split <;> omega

/-- The order comes back to a byte after 255 steps and not before. -/
theorem octetAfter_eq_self_iff {i : ℕ} (h₁ : 1 ≤ x) (h₂ : x ≤ 255) (hi₁ : 1 ≤ i) (hi₂ : i ≤ 255) :
    octetAfter x i = x ↔ i = 255 := by
  unfold octetAfter
  omega

section Round

variable {p : IP} {used : List IPNet} {x : ℕ}

/-- The address with a last byte is not in use. -/
def unusedIP (p : IP) (used : List IPNet) (y : ℕ) : Bool := ⟨hostOf p y, 8 * p.length⟩ ∉ used

/-- **One round.** The address tried is the next one in the cyclic order, whatever address of the
network `curNet.IP` is. -/
theorem searchIP_succ (hp : p ≠ []) (hx : x ≤ 255) (fuel i n : ℕ) :
    searchIP (8 * p.length) (hostOf p x) used (fuel + 1) (hostOf p (octetAfter x i)) (hostOf p n) =
      if octetAfter x (i + 1) = x then .exhausted
      else if unusedIP p used (octetAfter x (i + 1)) then .found (hostOf p (octetAfter x (i + 1)))
      else searchIP (8 * p.length) (hostOf p x) used fuel (hostOf p (octetAfter x (i + 1)))
        (hostOf p (octetAfter x (i + 1))) := by
  have htried : (if IPNet.contains ⟨hostOf p n, 8 * p.length⟩ (nextIP (hostOf p (octetAfter x i)))
      then nextIP (hostOf p (octetAfter x i)) else firstIP ⟨hostOf p n, 8 * p.length⟩) =
        hostOf p (octetAfter x (i + 1)) := by
    have hbound := (octetAfter_bounds x i).2
    rw [octetAfter_succ]
    by_cases hlast : octetAfter x i = 255
    · -- the successor is outside the network, and `firstIP` is in it
      rw [hlast, not_contains_nextIP hp]
      simp [firstIP, hostOf]
    · rw [nextIP_hostOf (by omega), contains_hostOf, if_pos rfl, if_neg hlast]
  rw [searchIP]
  simp only [htried, hostOf_inj (octetAfter_bounds x (i + 1)).2 hx]
  by_cases hused : (⟨hostOf p (octetAfter x (i + 1)), 8 * p.length⟩ : IPNet) ∈ used
  · simp [unusedIP, hused]
  · simp [unusedIP, hused]

/-- **The search is complete.** With fuel for all the addresses, it ends at the first in the cyclic
order after the start that is not in use, and finds none if there is none but the start. -/
theorem searchIP_eq (hp : p ≠ []) (hx₁ : 1 ≤ x) (hx₂ : x ≤ 255) {fuel : ℕ} (hfuel : 255 ≤ fuel)
    (n : ℕ) :
    searchIP (8 * p.length) (hostOf p x) used fuel (hostOf p x) (hostOf p n) =
      match (List.range' 1 254).find? fun i ↦ unusedIP p used (octetAfter x i) with
      | some i => .found (hostOf p (octetAfter x i))
      | none => .exhausted := by
  -- the induction is on the number of addresses that were not tried
  have hrounds : ∀ k i fuel n, i + k = 254 → k < fuel →
      searchIP (8 * p.length) (hostOf p x) used fuel (hostOf p (octetAfter x i)) (hostOf p n) =
        match (List.range' (i + 1) k).find? fun i ↦ unusedIP p used (octetAfter x i) with
        | some i => .found (hostOf p (octetAfter x i))
        | none => .exhausted := by
    intro k
    induction k with
    | zero =>
      intro i fuel n hi hk
      obtain ⟨fuel, rfl⟩ := Nat.exists_eq_add_of_lt hk
      have hself : octetAfter x (i + 1) = x :=
        (octetAfter_eq_self_iff hx₁ hx₂ (by omega) (by omega)).2 (by omega)
      rw [Nat.zero_add, searchIP_succ hp hx₂, if_pos hself]
      rfl
    | succ k ih =>
      intro i fuel n hi hk
      obtain ⟨fuel, rfl⟩ : ∃ m, fuel = m + 1 := ⟨fuel - 1, by omega⟩
      have hself : octetAfter x (i + 1) ≠ x := by
        rw [Ne, octetAfter_eq_self_iff hx₁ hx₂ (by omega) (by omega)]
        omega
      rw [searchIP_succ hp hx₂, if_neg hself, List.range'_succ, List.find?_cons]
      rcases hunused : unusedIP p used (octetAfter x (i + 1)) with - | -
      · simpa using ih (i + 1) fuel (octetAfter x (i + 1)) (by omega) (by omega)
      · simp
  have h := hrounds 254 0 fuel n (by omega) (by omega)
  rwa [octetAfter_zero hx₁ hx₂] at h

end Round

/-! ### The search of a guest -/

theorem hostIP_inj {y : ℕ} (hx : x ≤ 255) (hy : y ≤ 255) : hostIP x = hostIP y ↔ x = y :=
  hostOf_inj (p := [172, 22, 1]) hx hy

/-- The only address that is ever in use is the gateway. -/
theorem unusedIP_gateway {y : ℕ} (hy : y ≤ 255) :
    unusedIP [172, 22, 1] [⟨gateway4, 24⟩] y = decide (y ≠ 1) := by
  have hiff : hostOf [172, 22, 1] y = gateway4 ↔ y = 1 := hostIP_inj hy (show 1 ≤ 255 by omega)
  simp [unusedIP, hiff]

/-- **The search from every state the guest reaches**: the next host address, and `.2` after
`.255`, whose own successor is outside the network and whose wrap lands on the gateway. -/
theorem searchIP_of_standing (h : Standing g k) :
    searchIP g.lastUsedIP.ones g.lastUsedIP.ip g.usedIps (searchFuel g.lastUsedIP)
      g.lastUsedIP.ip g.lastUsedIP.network.ip = .found (hostIP (lastOctet (k + 1))) := by
  obtain ⟨h₁, h₂⟩ := lastOctet_bounds k
  have hnext : (List.range' 1 254).find?
      (fun i ↦ unusedIP [172, 22, 1] [⟨gateway4, 24⟩] (octetAfter (lastOctet k) i)) =
        some (if lastOctet k = 255 then 2 else 1) := by
    rw [show List.range' 1 254 = 1 :: 2 :: List.range' 3 252 from rfl, List.find?_cons,
      List.find?_cons, unusedIP_gateway (octetAfter_bounds _ _).2,
      unusedIP_gateway (octetAfter_bounds _ _).2, octetAfter_succ _ 1, octetAfter_succ _ 0,
      octetAfter_zero h₁ h₂]
    by_cases hlast : lastOctet k = 255
    · simp [hlast]
    · have hne : lastOctet k ≠ 0 := by omega
      simp [hlast, hne]
  have hnetwork : (⟨hostIP (lastOctet k), 24⟩ : IPNet).network.ip = hostOf [172, 22, 1] 0 :=
    maskIP_hostOf [172, 22, 1] (lastOctet k)
  rw [h.used, h.last, lastOctet_succ, hnetwork]
  refine (searchIP_eq (p := [172, 22, 1]) (by simp) h₁ h₂ (show 255 ≤ 257 by omega) 0).trans ?_
  rw [hnext]
  by_cases hlast : lastOctet k = 255
  · rw [if_pos hlast, if_pos hlast, hlast]
    rfl
  · rw [if_neg hlast, if_neg hlast]
    have hsucc := octetAfter_succ (lastOctet k) 0
    rw [octetAfter_zero h₁ h₂, if_neg hlast] at hsucc
    exact congrArg (fun y ↦ Search.found (hostIP y)) hsucc

/-- **What one allocation hands out**: the `k`-th address after `.2`, round the network. -/
theorem allocIP_of_standing (h : Standing g k) {hw : List UInt8} (hmac : parseMAC mac = some hw) :
    ∃ ipv6 g', allocIP g mac = .ok ([⟨⟨hostIP (2 + k % 254), 24⟩, g.gw4⟩, ipv6], g') ∧
      Standing g' (k + 1) := by
  have hones : g.lastUsedIP.ones = 24 := by rw [h.last]
  refine ⟨⟨⟨copyAt g.v6net.network.ip (g.v6net.network.ones / 8) hw, g.v6net.network.ones⟩, g.gw6⟩,
    { g with lastUsedIP := ⟨hostIP (2 + k % 254), 24⟩ }, ?_, h.used, rfl⟩
  rw [allocIP, searchIP_of_standing h]
  simp only [hmac, hones]
  rfl

/-- A hardware address that does not parse is refused, and nothing changes. -/
theorem allocIP_of_parseMAC_eq_none (h : Standing g k) (hmac : parseMAC mac = none) :
    allocIP g mac = .error .mac := by
  rw [allocIP, searchIP_of_standing h]
  simp only [hmac]

end Guest
