import Isle.Go.HostPort

/-!
# The servers that queries are passed on to

`updateConfig` of `guest/dns.go` and `vm/dns.go`, which are the same, and the calls of it: by the
first query, and in the guest by every event of the watcher on `/etc/resolv.conf`.

It is written for one call. **It appends to the addresses there are and never removes one**, so from
the second call on the list is not that of the configuration; and it puts a colon between server and
port without brackets, so an address of IPv6 is not one that can be dialed (`fresh_iff`).
-/

open HostPort

namespace Resolvers

/-- `dns.ClientConfig`, as far as it is used. -/
structure ClientConfig where
  servers : List (List Char)
  port : List Char
  deriving DecidableEq, Repr

/-- The configuration without a usable file. -/
def builtin : ClientConfig := ⟨["8.8.8.8".toList, "4.2.2.1".toList], "53".toList⟩

/-- The configuration for what `ClientConfigFromFile` returned, which is none at an error. -/
def effective : Option ClientConfig → ClientConfig
  | none => builtin
  | some config => if config.servers = [] then builtin else config

/-- `handler` in the guest, `dnsHandler` on the host. -/
structure Handler where
  config : Option ClientConfig
  addresses : List (List Char)
  configOnce : Bool
  deriving DecidableEq, Repr

/-- A handler that has seen no file. -/
def Handler.new : Handler := ⟨none, [], false⟩

/-- The addresses of the servers of a configuration. -/
def addressesOf (config : ClientConfig) : List (List Char) :=
  config.servers.map fun server ↦ server ++ ':' :: config.port

/-- `updateConfig`: the addresses are added to those that there are. -/
def updateConfig (h : Handler) (file : Option ClientConfig) : Handler :=
  { h with
    addresses := h.addresses ++ addressesOf (effective file)
    config := some (effective file) }

/-- What leads to a call, with the file at the time. -/
inductive Event
  /-- `ServeDNS` -/
  | query (file : Option ClientConfig)
  /-- An event of the watcher, in the guest. -/
  | changed (file : Option ClientConfig)
  deriving DecidableEq, Repr

/-- A query, the first of which reads the file, or a change of the file. -/
def step (h : Handler) : Event → Handler
  | .query file => if h.configOnce then h else { updateConfig h file with configOnce := true }
  | .changed file => updateConfig h file

/-- The handler after some events. -/
def run (es : List Event) : Handler := es.foldl step .new

/-! ### What the addresses are -/

/-- The files that `updateConfig` is called with. -/
def seen : Bool → List Event → List (Option ClientConfig)
  | _, [] => []
  | once, .query file :: es => if once then seen true es else file :: seen true es
  | once, .changed file :: es => file :: seen once es

/-- **The addresses of all the files seen**, in their order. -/
theorem addresses_foldl (h : Handler) (es : List Event) :
    (es.foldl step h).addresses =
      h.addresses ++ (seen h.configOnce es).flatMap (addressesOf ∘ effective) := by
  induction es generalizing h with
  | nil => simp [seen]
  | cons e es ih =>
    rw [List.foldl_cons, ih]
    rcases e with file | file
    · rw [step, seen]
      split_ifs with honce
      · rw [honce]
      · rw [List.flatMap_cons, ← List.append_assoc]
        rfl
    · rw [step, seen, List.flatMap_cons, ← List.append_assoc]
      rfl

theorem addresses_run (es : List Event) :
    (run es).addresses = (seen false es).flatMap (addressesOf ∘ effective) :=
  addresses_foldl .new es

theorem servers_effective_ne_nil (file : Option ClientConfig) : (effective file).servers ≠ [] := by
  unfold effective
  split
  · decide
  · split_ifs with h
    · decide
    · exact h

/-- The addresses are those of the servers of a configuration, in order, and each is split back into
the server and the port. -/
def Fresh (h : Handler) (config : ClientConfig) : Prop :=
  h.addresses.map splitHostPort = config.servers.map fun server ↦ .ok (server, config.port)

theorem map_addressesOf_iff (config : ClientConfig) :
    ((addressesOf config).map splitHostPort =
        config.servers.map fun server ↦ .ok (server, config.port)) ↔
      ∀ server ∈ config.servers, Plain server ∧ Plain config.port := by
  rw [addressesOf, List.map_map, List.map_inj_left]
  exact forall₂_congr fun server _ ↦ splitHostPort_eq_ok_iff server config.port

/-- **The list is that of the latest file exactly if it is the only one that was seen**, and no
server has a colon or a bracket. -/
theorem fresh_iff (es : List Event) {latest : Option ClientConfig}
    (hlatest : (seen false es).getLast? = some latest) :
    Fresh (run es) (effective latest) ↔
      (seen false es).length = 1 ∧
        ∀ server ∈ (effective latest).servers, Plain server ∧ Plain (effective latest).port := by
  rw [Fresh, addresses_run]
  obtain ⟨before, hbefore⟩ := List.getLast?_eq_some_iff.1 hlatest
  rw [hbefore, List.flatMap_append, List.flatMap_singleton, Function.comp_apply]
  rcases before with - | ⟨first, before⟩
  · rw [List.flatMap_nil, List.nil_append, map_addressesOf_iff]
    simp
  · -- the addresses of another file are still in front
    refine iff_of_false (fun heq ↦ ?_) (by simp)
    have hlen := congrArg List.length heq
    have hpos := List.length_pos_iff.2 (servers_effective_ne_nil first)
    simp only [List.flatMap_cons, Function.comp_apply, List.map_append, List.length_append,
      List.length_map, addressesOf] at hlen
    omega

/-- The file of a network with one server. -/
def oneServer (server : String) : Option ClientConfig := some ⟨[server.toList], "53".toList⟩

theorem fresh_first_query :
    (seen false [.query (oneServer "10.0.0.1")]).getLast? = some (oneServer "10.0.0.1") ∧
      (Fresh (run [.query (oneServer "10.0.0.1")]) (effective (oneServer "10.0.0.1")) ↔
        (seen false [.query (oneServer "10.0.0.1")]).length = 1 ∧
          ∀ server ∈ (effective (oneServer "10.0.0.1")).servers,
            Plain server ∧ Plain (effective (oneServer "10.0.0.1")).port) :=
  ⟨by decide, fresh_iff _ (by decide)⟩

/-- The network changes after the first query; and a network has a server of IPv6. -/
theorem not_fresh_after_change :
    ((seen false [.query (oneServer "10.0.0.1"), .changed (oneServer "10.9.9.9")]).getLast? =
        some (oneServer "10.9.9.9") ∧
      (run [.query (oneServer "10.0.0.1"), .changed (oneServer "10.9.9.9")]).addresses =
        ["10.0.0.1:53".toList, "10.9.9.9:53".toList] ∧
      ¬ Fresh (run [.query (oneServer "10.0.0.1"), .changed (oneServer "10.9.9.9")])
        (effective (oneServer "10.9.9.9"))) ∧
    ((run [.query (oneServer "fd00::1")]).addresses = ["fd00::1:53".toList] ∧
      ¬ Fresh (run [.query (oneServer "fd00::1")]) (effective (oneServer "fd00::1"))) := by
  unfold Fresh
  decide

end Resolvers
