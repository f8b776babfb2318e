import Mathlib.Data.List.Induction
import Mathlib.Data.List.Infix
import Isle.Guest.Network

/-!
# Uniqueness and stability of addresses

What the answers of `IPForMac` are over whole sequences of calls, from the state that `Init` sets up
and across restarts of the guest on one database.

* **Uniqueness** is a property of the calls made to one guest: two hardware addresses are never
  given the same IPv4 address. The answers go round the 254 host addresses, so it holds exactly for
  the sequences in which no two different hardware addresses are a multiple of 254 allocations
  apart (`addressesUnique_iff`).
* **Stability** is a property of the whole life of the machine: a hardware address keeps its
  addresses, and the `ips` bucket records them. No call records anything, so it holds exactly for
  the event sequences in which nothing is ever handed out (`addressesStable_iff`).

Both rest on one invariant of the machine, `World.Ready`: the database has no `ips` bucket, and the
guest that is up has handed out some number of addresses.
-/

namespace Guest

variable (B : Bolt) (F : IpsFormat) (J : Json String)

/-! ### The machine has no `ips` bucket -/

section Ready

variable {B J}

variable {db : B.Db} {b : Boot}

theorem ips_of_subnetOf : B.bucket (subnetOf B J db b).2 ipsBucket = B.bucket db ipsBucket := by
  rw [subnetOf, getVar_eq_txNotWritable]
  rcases b.subnetId with - | data
  · rfl
  · rcases hset : setVar B J db "subnet-id" (String.ofList (hexEncode data)) b.commit with e | db'
    · simp [hset]
    · simpa [hset] using bucket_of_setVar_of_ne hset (by decide)

/-- `Init` writes the subnet id and no allocation. -/
theorem ips_of_init (db : B.Db) (b : Boot) :
    B.bucket (init B J db b).2 ipsBucket = B.bucket db ipsBucket := by
  have hsub : B.bucket (subnetOf B J db b).2 ipsBucket = B.bucket db ipsBucket := ips_of_subnetOf
  unfold init
  split
  · split
    · rfl
    · split
      · rename_i e db' heq
        rwa [heq] at hsub
      · rename_i subnet db' heq
        rw [heq] at hsub
        split <;> exact hsub
  · rfl

/-- The networking state after a start that succeeds is that of the two ids. -/
theorem ipamOf_of_init {db' : B.Db} {g : Ipam} (h : init B J db b = (.ok g, db')) :
    ∃ cluster subnet, clusterOf b = some cluster ∧ subnetOf B J db b = (.ok subnet, db') ∧
      g = ipamOf cluster subnet := by
  unfold init at h
  split at h
  · split at h
    · cases h
    · next cluster hcluster =>
      split at h
      · cases h
      · next subnet db₁ hsubnet =>
        split at h
        · cases h
          exact ⟨cluster, subnet, hcluster, hsubnet, rfl⟩
        · cases h
  · cases h

/-- A start that succeeds leaves a guest that has handed out nothing. -/
theorem standing_of_init {db' : B.Db} {g : Ipam} (h : init B J db b = (.ok g, db')) :
    Standing g 0 := by
  obtain ⟨cluster, subnet, -, -, rfl⟩ := ipamOf_of_init h
  exact standing_ipamOf cluster subnet

/-- With no `ips` bucket, `IPForMac` always allocates. -/
theorem ipForMac_of_ips_eq_none (hdb : B.bucket db ipsBucket = none) (g : Ipam) (mac : String) :
    ipForMac B F g db mac = allocIP g mac := by
  simp [ipForMac, lookupIP, Bolt.view, Bolt.Tx.get, hdb]

end Ready

/-- **The invariant of the machine.** Its database has no `ips` bucket, and the guest that is up has
handed out some number of addresses since its start. -/
structure World.Ready (w : World B) : Prop where
  /-- No allocation is recorded. -/
  ips : B.bucket w.db ipsBucket = none
  /-- The networking state is that of a number of allocations. -/
  guest : ∀ g, w.guest = some g → ∃ k, Standing g k

namespace World

variable {B}

theorem ready_fresh : (fresh B).Ready :=
  ⟨B.bucket_empty _, by simp [fresh]⟩

variable {w : World B}

/-- The machine after a call with a hardware address that parses: something was handed out. -/
theorem step_call_of_parseMAC (h : w.Ready) {g : Ipam} (hg : w.guest = some g) {mac : String}
    {hw : List UInt8} (hmac : parseMAC mac = some hw) :
    ∃ networks g' k, step B F J w (.call mac) =
      { w with guest := some g', handed := (mac, networks) :: w.handed } ∧ Standing g' k := by
  obtain ⟨k, hk⟩ := h.guest g hg
  obtain ⟨ipv6, g', halloc, hk'⟩ := allocIP_of_standing hk hmac
  refine ⟨[⟨⟨hostIP (2 + k % 254), 24⟩, g.gw4⟩, ipv6], g', k + 1, ?_, hk'⟩
  simp only [step, hg, ipForMac_of_ips_eq_none F h.ips, halloc]

/-- The machine after a call that hands out nothing: no guest is up, or the hardware address does
not parse. -/
theorem step_call_eq_self (h : w.Ready) {mac : String}
    (hmac : w.guest.isSome → parseMAC mac = none) : step B F J w (.call mac) = w := by
  rcases hg : w.guest with - | g
  · simp only [step, hg]
  · obtain ⟨k, hk⟩ := h.guest g hg
    have hnone : parseMAC mac = none := hmac (by simp [hg])
    simp only [step, hg, ipForMac_of_ips_eq_none F h.ips, allocIP_of_parseMAC_eq_none hk hnone]

/-- Every event keeps it. -/
theorem ready_step (h : w.Ready) (e : IpEvent) : (step B F J w e).Ready := by
  cases e with
  | start b =>
    have hips := ips_of_init (J := J) w.db b
    rcases hinit : init B J w.db b with ⟨e | g, db'⟩
    · simp only [step, hinit]
      rw [hinit] at hips
      exact ⟨hips.trans h.ips, by simp⟩
    · simp only [step, hinit]
      rw [hinit] at hips
      refine ⟨hips.trans h.ips, fun g' hg' ↦ ?_⟩
      cases hg'
      exact ⟨0, standing_of_init hinit⟩
  | call mac =>
    by_cases hcall : w.guest.isSome → parseMAC mac = none
    · rw [step_call_eq_self F J h hcall]
      exact h
    · rw [Classical.not_imp] at hcall
      obtain ⟨hsome, hmac⟩ := hcall
      obtain ⟨g, hg⟩ := Option.isSome_iff_exists.1 hsome
      obtain ⟨hw, hmac⟩ := Option.ne_none_iff_exists'.1 hmac
      obtain ⟨networks, g', k, hstep, hk⟩ := step_call_of_parseMAC F J h hg hmac
      rw [hstep]
      refine ⟨h.ips, fun g'' hg'' ↦ ?_⟩
      cases hg''
      exact ⟨k, hk⟩

theorem ready_run (h : w.Ready) (es : List IpEvent) : (run B F J w es).Ready := by
  induction es generalizing w with
  | nil => exact h
  | cons e es ih => exact ih (ready_step F J h e)

end World

/-! ### Uniqueness -/

/-- The answers of `IPForMac` to a sequence of calls on one guest. -/
def ipForMacs (db : B.Db) : Ipam → List String → List (Except IpError (List NetworkConfig))
  | _, [] => []
  | g, mac :: macs =>
    match ipForMac B F g db mac with
    | .ok (networks, g') => .ok networks :: ipForMacs db g' macs
    | .error e => .error e :: ipForMacs db g macs

/-- The IPv4 address of an answer: `allocIP` lists it first. -/
def ipv4Of : Except IpError (List NetworkConfig) → Option IP
  | .ok (ipv4 :: _) => some ipv4.address.ip
  | _ => none

/-- **Uniqueness of the answers to a sequence of calls**: no address is given to two different
hardware addresses. A call that is answered with an error gives none. -/
def AddressesUnique (macs : List String) (answers : List (Except IpError (List NetworkConfig))) :
    Prop :=
  ∀ (i j : ℕ) (m m' : String) (ip : IP), i < j → macs[i]? = some m → macs[j]? = some m' →
    m ≠ m' → answers[i]?.bind ipv4Of = some ip → answers[j]?.bind ipv4Of ≠ some ip

/-- How many of the first `i` calls have a hardware address that parses. -/
def validBefore (macs : List String) (i : ℕ) : ℕ :=
  (macs.take i).countP fun m ↦ (parseMAC m).isSome

/-- The calls that parse are numbered in order; no two of them with different hardware addresses
have numbers that agree modulo the 254 host addresses. -/
def WrapFree (macs : List String) : Prop :=
  ∀ (i j : ℕ) (m m' : String), i < j → macs[i]? = some m → macs[j]? = some m' →
    (parseMAC m).isSome → (parseMAC m').isSome → m ≠ m' →
      validBefore macs i % 254 ≠ validBefore macs j % 254

section Unique

variable {B}

/-- **The `i`-th answer**, in a guest that has handed out `k` addresses before the first call. -/
theorem ipv4Of_ipForMacs {db : B.Db} (hdb : B.bucket db ipsBucket = none) {g : Ipam} {k : ℕ}
    (h : Standing g k) {macs : List String} {i : ℕ} {m : String} (hi : macs[i]? = some m) :
    (ipForMacs B F db g macs)[i]?.bind ipv4Of =
      if (parseMAC m).isSome then some (hostIP (2 + (k + validBefore macs i) % 254)) else none := by
  induction macs generalizing g k i with
  | nil => simp at hi
  | cons mac macs ih =>
    rw [ipForMacs, ipForMac_of_ips_eq_none F hdb]
    rcases hmac : parseMAC mac with - | hw
    · -- the call is refused, and the guest stands where it stood
      rw [allocIP_of_parseMAC_eq_none h hmac]
      rcases i with - | i
      · cases hi
        simp [ipv4Of, hmac]
      · simp only [List.getElem?_cons_succ] at hi ⊢
        simpa [validBefore, List.countP_cons, hmac] using ih h hi
    · obtain ⟨ipv6, g', halloc, h'⟩ := allocIP_of_standing h hmac
      rw [halloc]
      rcases i with - | i
      · cases hi
        simp [ipv4Of, hmac, validBefore]
      · simp only [List.getElem?_cons_succ] at hi ⊢
        have hcount : validBefore (mac :: macs) (i + 1) = validBefore macs i + 1 := by
          simp [validBefore, hmac]
        have hk : k + 1 + validBefore macs i = k + (validBefore macs i + 1) := by omega
        rw [ih h' hi, hcount, hk]

/-- Two host addresses of the search are equal exactly when their numbers agree modulo 254. -/
theorem hostIP_mod_inj {a b : ℕ} :
    hostIP (2 + a % 254) = hostIP (2 + b % 254) ↔ a % 254 = b % 254 := by
  have ha := Nat.mod_lt a (show 254 > 0 by omega)
  have hb := Nat.mod_lt b (show 254 > 0 by omega)
  rw [hostIP_inj (by omega) (by omega)]
  omega

/-- No two get one address until the search comes round. -/
theorem addressesUnique_iff_wrapFree {db : B.Db} (hdb : B.bucket db ipsBucket = none) {g : Ipam}
    (h : Standing g 0) (macs : List String) :
    AddressesUnique macs (ipForMacs B F db g macs) ↔ WrapFree macs := by
  constructor
  · intro huniq i j m m' hij hi hj hm hm' hne hmod
    have hai := ipv4Of_ipForMacs F hdb h hi
    have haj := ipv4Of_ipForMacs F hdb h hj
    rw [if_pos hm, Nat.zero_add] at hai
    rw [if_pos hm', Nat.zero_add, ← hostIP_mod_inj.2 hmod] at haj
    exact huniq i j m m' _ hij hi hj hne hai haj
  · intro hwrap i j m m' ip hij hi hj hne hai haj
    rw [ipv4Of_ipForMacs F hdb h hi] at hai
    rw [ipv4Of_ipForMacs F hdb h hj] at haj
    by_cases hm : (parseMAC m).isSome
    · by_cases hm' : (parseMAC m').isSome
      · rw [if_pos hm, Nat.zero_add] at hai
        rw [if_pos hm', Nat.zero_add] at haj
        have heq := Option.some.inj (hai.trans haj.symm)
        exact hwrap i j m m' hij hi hj hm hm' hne (hostIP_mod_inj.1 heq)
      · rw [if_neg hm'] at haj
        cases haj
    · rw [if_neg hm] at hai
      cases hai

/-- A guest that answers at most 254 calls repeats no address. -/
theorem wrapFree_of_length_le {macs : List String} (h : macs.length ≤ 254) : WrapFree macs := by
  intro i j m m' hij hi hj hm _ _ hmod
  have hj' : j < macs.length := (List.getElem?_eq_some_iff.1 hj).1
  -- the `i`-th call itself is counted before the `j`-th
  have hsucc : validBefore macs (i + 1) = validBefore macs i + 1 := by
    simp [validBefore, List.take_add_one, hi, hm]
  have hle : validBefore macs (i + 1) ≤ validBefore macs j :=
    List.Sublist.countP_le (List.take_sublist_take_left (by omega))
  have hbound : validBefore macs j ≤ j :=
    Nat.le_trans List.countP_le_length (List.length_take_le j macs)
  omega

end Unique

variable {B}

/-- **Uniqueness, exactly.** For a guest started at any point in the life of a machine and any
sequence of calls to it, no address goes to two hardware addresses if and only if no two different
hardware addresses are a multiple of 254 allocations apart. -/
theorem addressesUnique_iff (es : List IpEvent) (b : Boot) {g : Ipam} {db : B.Db}
    (hinit : init B J (World.run B F J (World.fresh B) es).db b = (.ok g, db))
    (macs : List String) : AddressesUnique macs (ipForMacs B F db g macs) ↔ WrapFree macs := by
  have hready := World.ready_run F J (World.ready_fresh (B := B)) es
  have hips := ips_of_init (J := J) (World.run B F J (World.fresh B) es).db b
  rw [hinit] at hips
  exact addressesUnique_iff_wrapFree F (hips.trans hready.ips) (standing_of_init hinit) macs

/-- The hardware address `02:42:ac:16:01:xx`. -/
def macOf (b : UInt8) : String :=
  String.ofList ['0', '2', ':', '4', '2', ':', 'a', 'c', ':', '1', '6', ':', '0', '1', ':',
    hexChar (b.toNat / 16), hexChar (b.toNat % 16)]

theorem parseMAC_macOf (b : UInt8) : parseMAC (macOf b) = some [2, 66, 172, 22, 1, b] := by
  have hb := b.toNat_lt
  have hhi := hexDigit_hexChar (b.toNat / 16) (by omega)
  have hlo := hexDigit_hexChar (b.toNat % 16) (by omega)
  simp only [parseMAC, macOf, String.toList_ofList]
  simp [IsMACLength, macPairs, xtoi2, hhi, hlo, byte_of_digits]
  rfl

/-- A start that succeeds. -/
def sampleBoot : Boot :=
  { clusterId := "0102030405"
    uniqueId := [1, 2, 3, 4, 5]
    subnetId := some [0xab, 0x12]
    opened := true
    commit := none
    client := true }

/-- A format none of whose records is read, for a bucket that is not there. -/
def noRecords : IpsFormat :=
  { unmarshal := fun _ ↦ none, parseCIDR := fun _ ↦ none }

/-- Two containers booted by a guest on a new machine have different addresses. -/
theorem addressesUnique_two_macs :
    ∃ g db, init Bolt.mem jsonString
        (World.run Bolt.mem noRecords jsonString (World.fresh Bolt.mem) []).db sampleBoot =
          (.ok g, db) ∧
      AddressesUnique [macOf 2, macOf 3] (ipForMacs Bolt.mem noRecords db g [macOf 2, macOf 3]) :=
  ⟨_, _, rfl, (addressesUnique_iff noRecords jsonString [] sampleBoot rfl _).2
    (wrapFree_of_length_le (by simp))⟩

/-- **255 containers are too many**: the last of 255 different hardware addresses is given the
address of the first. -/
theorem not_addressesUnique_of_255_macs :
    ∃ g db, init Bolt.mem jsonString Bolt.mem.empty sampleBoot = (.ok g, db) ∧
      ¬ AddressesUnique ((List.range 255).map fun k ↦ macOf (UInt8.ofNat k))
        (ipForMacs Bolt.mem noRecords db g
          ((List.range 255).map fun k ↦ macOf (UInt8.ofNat k))) := by
  refine ⟨_, _, rfl, fun huniq ↦ ?_⟩
  have hwrap := (addressesUnique_iff_wrapFree (B := Bolt.mem) noRecords
    (by simp [Bolt.mem, Function.update, ipsBucket, configBucket]) (standing_ipamOf _ _) _).1 huniq
  have hvalid : ∀ i, validBefore ((List.range 255).map fun k ↦ macOf (UInt8.ofNat k)) i =
      min i 255 := by
    intro i
    rw [validBefore, List.countP_eq_length.2]
    · simp
    · intro m hm
      obtain ⟨k, -, rfl⟩ := List.mem_map.1 (List.mem_of_mem_take hm)
      simp [parseMAC_macOf]
  refine hwrap 0 254 (macOf 0) (macOf 254) (by omega) rfl (by simp) (by simp [parseMAC_macOf])
    (by simp [parseMAC_macOf]) ?_ (by simp [hvalid])
  intro heq
  have hparse := parseMAC_macOf 0
  rw [heq, parseMAC_macOf] at hparse
  cases hparse

/-! ### Stability -/

/-- The record of the `ips` bucket for a hardware address is that of the given addresses. -/
def RecordAgrees (db : B.Db) (mac : String) (networks : List NetworkConfig) : Prop :=
  ∃ val info, (B.bucket db ipsBucket).bind (· mac) = some val ∧ F.unmarshal val = some info ∧
    networks.map (fun n ↦ some n.address) = [F.parseCIDR info.ipv4, F.parseCIDR info.ipv6]

/-- **Stability of the answers in the life of a machine**: a hardware address is always given the
same addresses, and the `ips` bucket has them. -/
structure AddressesStable (w : World B) : Prop where
  /-- Two answers to one hardware address are equal. -/
  same : ∀ mac networks networks', (mac, networks) ∈ w.handed → (mac, networks') ∈ w.handed →
    networks = networks'
  /-- The lookup agrees with what was handed out. -/
  recorded : ∀ mac networks, (mac, networks) ∈ w.handed → RecordAgrees F w.db mac networks

variable (B)

/-- No call of the sequence that reaches a guest has a hardware address that parses. -/
def NoValidCall (es : List IpEvent) : Prop :=
  ∀ before mac after, es = before ++ .call mac :: after →
    (World.run B F J (World.fresh B) before).guest.isSome → parseMAC mac = none

variable {B}

theorem World.run_append (w : World B) (es es' : List IpEvent) :
    World.run B F J w (es ++ es') = World.run B F J (World.run B F J w es) es' :=
  List.foldl_append

/-- A start hands nothing out. -/
theorem World.handed_step_start (w : World B) (b : Boot) :
    (World.step B F J w (.start b)).handed = w.handed := by
  rcases hinit : init B J w.db b with ⟨e | g, db'⟩ <;> simp only [World.step, hinit]

/-- What was handed out stays handed out. -/
theorem World.handed_step {w : World B} (h : w.Ready) (e : IpEvent) :
    w.handed <:+ (World.step B F J w e).handed := by
  cases e with
  | start b => rw [World.handed_step_start]
  | call mac =>
    by_cases hcall : w.guest.isSome → parseMAC mac = none
    · rw [World.step_call_eq_self F J h hcall]
    · rw [Classical.not_imp] at hcall
      obtain ⟨g, hg⟩ := Option.isSome_iff_exists.1 hcall.1
      obtain ⟨hw, hmac⟩ := Option.ne_none_iff_exists'.1 hcall.2
      obtain ⟨networks, g', k, hstep, -⟩ := World.step_call_of_parseMAC F J h hg hmac
      rw [hstep]
      exact List.suffix_cons _ _

theorem World.handed_run {w : World B} (h : w.Ready) (es : List IpEvent) :
    w.handed <:+ (World.run B F J w es).handed := by
  induction es generalizing w with
  | nil => exact List.suffix_refl _
  | cons e es ih => exact (World.handed_step F J h e).trans (ih (World.ready_step F J h e))

/-- Nothing is handed out exactly when no valid call reaches a guest. -/
theorem handed_eq_nil_iff (es : List IpEvent) :
    (World.run B F J (World.fresh B) es).handed = [] ↔ NoValidCall B F J es := by
  constructor
  · intro hnil before mac after hes hup
    by_contra hmac
    have hready := World.ready_run F J (World.ready_fresh (B := B)) before
    obtain ⟨g, hg⟩ := Option.isSome_iff_exists.1 hup
    obtain ⟨hw, hmac⟩ := Option.ne_none_iff_exists'.1 hmac
    obtain ⟨networks, g', k, hstep, -⟩ := World.step_call_of_parseMAC F J hready hg hmac
    -- the answer to this call is still there at the end
    have hsuffix := World.handed_run F J (World.ready_step F J hready (.call mac)) after
    rw [hes, World.run_append] at hnil
    have hafter : World.run B F J
        (World.step B F J (World.run B F J (World.fresh B) before) (.call mac)) after =
          World.run B F J (World.run B F J (World.fresh B) before) (.call mac :: after) := rfl
    rw [hafter, hnil, hstep] at hsuffix
    simp at hsuffix
  · intro hno
    induction es using List.reverseRecOn with
    | nil => rfl
    | append_singleton es e ih =>
      have hes : (World.run B F J (World.fresh B) es).handed = [] := by
        refine ih fun before mac after hsplit hup ↦ hno before mac (after ++ [e]) ?_ hup
        rw [hsplit, List.append_assoc, List.cons_append]
      have hready := World.ready_run F J (World.ready_fresh (B := B)) es
      rw [World.run_append]
      change (World.step B F J (World.run B F J (World.fresh B) es) e).handed = []
      cases e with
      | start b => rw [World.handed_step_start, hes]
      | call mac => rw [World.step_call_eq_self F J hready (hno es mac [] rfl), hes]

/-- **Stability, exactly.** Over every sequence of starts and calls on a machine, the answers are
stable if and only if nothing is ever handed out: no call that reaches a guest has a hardware
address that parses. -/
theorem addressesStable_iff (es : List IpEvent) :
    AddressesStable F (World.run B F J (World.fresh B) es) ↔ NoValidCall B F J es := by
  rw [← handed_eq_nil_iff]
  have hready := World.ready_run F J (World.ready_fresh (B := B)) es
  constructor
  · intro hstable
    rcases hhanded : (World.run B F J (World.fresh B) es).handed with - | ⟨⟨mac, networks⟩, rest⟩
    · rfl
    · -- an answer was given, and the bucket that should record it is not there
      have hmem : (mac, networks) ∈ (World.run B F J (World.fresh B) es).handed := by
        simp [hhanded]
      obtain ⟨val, info, hval, -⟩ := hstable.recorded mac networks hmem
      rw [hready.ips] at hval
      cases hval
  · intro hnil
    constructor
    · intro mac networks networks' hmem
      simp [hnil] at hmem
    · intro mac networks hmem
      simp [hnil] at hmem

/-- A container that is booted twice is given two addresses. -/
theorem not_addressesStable_of_two_boots :
    ¬ AddressesStable noRecords (World.run Bolt.mem noRecords jsonString (World.fresh Bolt.mem)
      [.start sampleBoot, .call "02:42:ac:16:01:02", .call "02:42:ac:16:01:02"]) := by
  intro hstable
  have hsame := hstable.same "02:42:ac:16:01:02"
    [⟨⟨hostIP 3, 24⟩, gateway4⟩,
      ⟨⟨[253, 1, 2, 3, 4, 5, 171, 18, 2, 66, 172, 22, 1, 2, 0, 0], 64⟩,
        [253, 1, 2, 3, 4, 5, 171, 18, 0, 0, 0, 0, 0, 0, 0, 1]⟩]
    [⟨⟨hostIP 2, 24⟩, gateway4⟩,
      ⟨⟨[253, 1, 2, 3, 4, 5, 171, 18, 2, 66, 172, 22, 1, 2, 0, 0], 64⟩,
        [253, 1, 2, 3, 4, 5, 171, 18, 0, 0, 0, 0, 0, 0, 0, 1]⟩]
    (List.mem_cons_self ..) (List.mem_cons_of_mem _ (List.mem_cons_self ..))
  exact absurd hsame (by decide)

end Guest
