import Isle.Foundation.Run
import Isle.Log.Directory

/-!
# Retention

Which shards a rotation leaves. `pruneEntries` sorts the shards by the **milliseconds** of their ids
and removes from the front all but `shards`; that these are the oldest is known exactly when every
shard to go is older, in milliseconds, than every shard to stay (`Separated`), and that they are
removed when none of the removals fails.

* `rotate_eq` computes a rotation in a directory of shards: it succeeds, and what it removes is the
  first part of a sort of the ids.
* `rotate_retained_iff` is the exact condition, over every sort `sort.Slice` may be, and
  `retained_iff_of_run` the same along every run of writes.
-/

namespace Log

/-! ### What is to be left -/

/-- How many of some shards are too many. -/
def excess {α : Type*} (shards : ℤ) (l : List α) : ℕ := (l.length - shards).toNat

/-- What a rotation is to leave of the shards there were with the new one, in the order of their
creation: `min n shards` of them, the most recent, among them the one being written. -/
structure Retained (shards : ℤ) (live : String) (before after : List String) : Prop where
  count : (after.length : ℤ) = min (before.length : ℤ) shards
  newest : after <:+ before
  live_mem : live ∈ after

/-- The most recent names are the last ones. -/
theorem retained_iff_eq_drop {shards : ℤ} {live : String} {before after : List String}
    (hshards : 1 ≤ shards) (hlive : before.getLast? = some live) :
    Retained shards live before after ↔ after = before.drop (excess shards before) := by
  have hpos : 0 < before.length := List.length_pos_of_ne_nil fun hnil ↦ by simp [hnil] at hlive
  have hlen : ((before.drop (excess shards before)).length : ℤ) =
      min (before.length : ℤ) shards := by
    rw [List.length_drop, excess]
    omega
  constructor
  · intro h
    refine (List.suffix_of_suffix_length_le h.newest (List.drop_suffix _ _) ?_).eq_of_length ?_
    · have := h.count
      omega
    · have := h.count
      omega
  · rintro rfl
    refine ⟨hlen, List.drop_suffix _ _, List.mem_of_getLast? ?_⟩
    rw [List.getLast?_drop, if_neg (by rw [excess]; omega), hlive]

/-- A filter leaves a list without its first elements exactly if it takes them and no other. -/
private theorem filter_eq_drop_iff {α : Type*} [DecidableEq α] {l r : List α} (hl : l.Nodup)
    (k : ℕ) : (l.filter fun x ↦ x ∉ r) = l.drop k ↔
      (∀ x ∈ l.take k, x ∈ r) ∧ ∀ y ∈ l.drop k, y ∉ r := by
  have hsplit : (l.filter fun x ↦ x ∉ r) =
      ((l.take k).filter fun x ↦ x ∉ r) ++ (l.drop k).filter fun x ↦ x ∉ r := by
    rw [← List.filter_append, List.take_append_drop]
  constructor
  · intro h
    constructor
    · intro x hx
      by_contra hxr
      have hxd : x ∈ l.drop k := by
        rw [← h]
        exact List.mem_filter.2 ⟨List.mem_of_mem_take hx, decide_eq_true hxr⟩
      exact List.disjoint_take_drop hl le_rfl hx hxd
    · intro y hy
      rw [← h] at hy
      exact of_decide_eq_true (List.mem_filter.1 hy).2
  · rintro ⟨hold, hnew⟩
    rw [hsplit, List.filter_eq_nil_iff.2 fun x hx ↦ by simpa using hold x hx,
      List.filter_eq_self.2 fun y hy ↦ by simpa using hnew y hy, List.nil_append]

/-! ### A directory of shards -/

section Named

variable {Id : Type*} [LinearOrder Id] (U : Ulid Id)

/-- The shards that are to go are older than those that are to stay, in milliseconds. -/
def Separated (shards : ℤ) (ids : List Id) : Prop :=
  ∀ x ∈ ids.take (excess shards ids), ∀ y ∈ ids.drop (excess shards ids), U.time x < U.time y

instance (shards : ℤ) (ids : List Id) : Decidable (Separated U shards ids) :=
  inferInstanceAs (Decidable (∀ x ∈ _, ∀ y ∈ _, _))

variable {U} {d : DirectoryWriter Id} {ids : List Id} {id : Id} {env : RotateEnv U}

/-! ### What a rotation removes -/

/-- The entries `pruneEntries` sorts. -/
def diskEntries (U : Ulid Id) (dir : Dir Id) : List (Id × String) :=
  dir.readDir.filterMap (diskEntry U)

private theorem filterMap_shardName (ids : List Id) :
    (ids.map (shardName U)).filterMap (diskEntry U) = ids.map fun id ↦ (id, shardName U id) := by
  rw [List.filterMap_map, ← List.filterMap_eq_map]
  exact List.filterMap_congr fun id _ ↦ diskEntry_shardName id

theorem diskEntries_eq {dir : Dir Id} (h : Named U dir ids) (hids : ids.Pairwise (· < ·)) :
    diskEntries U dir = ids.map fun id ↦ (id, shardName U id) := by
  rw [diskEntries, h.readDir_eq hids, filterMap_shardName]

theorem diskEntries_perm {dir : Dir Id} (h : Named U dir ids) :
    (diskEntries U dir).Perm (ids.map fun id ↦ (id, shardName U id)) := by
  have hread : dir.readDir.Perm (ids.map (shardName U)) := by
    rw [← h.names]
    exact List.mergeSort_perm _ _
  have hmap := hread.filterMap (diskEntry U)
  rwa [filterMap_shardName] at hmap

/-- The names `pruneEntries` removes: of the first ids in the sorted list, those that can be. -/
def removed (env : RotateEnv U) (d : DirectoryWriter Id) : List String :=
  (((env.sort.sort (diskEntries U d.dir)).take (excess d.shards (diskEntries U d.dir))).map
    Prod.snd).filter fun n ↦ !env.stuck n

theorem mem_removed {n : String} : n ∈ removed env d ↔
    n ∈ ((env.sort.sort (diskEntries U d.dir)).take (excess d.shards (diskEntries U d.dir))).map
        Prod.snd ∧
      env.stuck n = false := by
  rw [removed, List.mem_filter, Bool.not_eq_true']

/-- With as many ids as shards to be kept, the slice expression of `pruneEntries` is in range. -/
theorem pruneEntries_of_le (hshards : 1 ≤ d.shards)
    (hle : d.shards ≤ (diskEntries U d.dir).length) :
    d.pruneEntries env = (none, d.remove (removed env d)) := by
  have hcut : ¬ (((diskEntries U d.dir).length : ℤ) - d.shards < 0 ∨
      ((diskEntries U d.dir).length : ℤ) + env.spare <
        (diskEntries U d.dir).length - d.shards) := by
    omega
  simp only [DirectoryWriter.pruneEntries, DirectoryWriter.toRemove]
  rw [show d.dir.readDir.filterMap (diskEntry U) = diskEntries U d.dir from rfl, if_neg hcut]
  rfl

/-- The writer is on a directory of shards, and nothing keeps it from rotating to one with this
id. -/
structure Rotatable (env : RotateEnv U) (d : DirectoryWriter Id) (ids : List Id) (id : Id) :
    Prop where
  named : Named U d.dir ids
  id_eq : env.id = some id
  fresh : shardName U id ∉ d.dir.shards.map Shard.name
  create : env.create = true
  readDir : env.readDir = true
  shards : 1 ≤ d.shards

/-- **A rotation in a directory of shards succeeds**, and removes these names. -/
theorem rotate_eq (h : Rotatable env d ids id) :
    d.rotate env =
      (none, (d.release.attach U id).remove (removed env (d.release.attach U id))) := by
  have hnamed := h.named.attach h.fresh
  generalize hd₁ : d.release.attach U id = d₁ at hnamed ⊢
  have hshards₁ : 1 ≤ d₁.shards := by
    rw [← hd₁]
    exact h.shards
  have hlen : d₁.dir.shards.length = (diskEntries U d₁.dir).length := by
    rw [(diskEntries_perm hnamed).length_eq, List.length_map, ← List.length_map (f := Shard.name),
      hnamed.names, List.length_map]
  simp only [DirectoryWriter.rotate, h.id_eq, if_pos h.create, hd₁, DirectoryWriter.settle,
    if_pos h.readDir]
  by_cases hfull : d₁.shards ≤ d₁.dir.shards.length
  · rw [if_pos hfull, pruneEntries_of_le hshards₁ (by rwa [← hlen])]
  · -- nothing is too many, so nothing is removed
    have hnone : removed env d₁ = [] := by
      rw [removed, excess, show ((diskEntries U d₁.dir).length - d₁.shards).toNat = 0 by omega]
      rfl
    rw [if_neg hfull, hnone, DirectoryWriter.remove_nil]

/-- The names in the directory after the rotation, and those it is to leave. -/
theorem names_rotate (h : Rotatable env d ids id) :
    (d.rotate env).2.dir.shards.map Shard.name =
      ((ids ++ [id]).map (shardName U)).filter fun n ↦
        n ∉ removed env (d.release.attach U id) := by
  have hdir : ∀ d₁ : DirectoryWriter Id, ∀ ns, (d₁.remove ns).dir = d₁.dir.remove ns :=
    fun _ _ ↦ rfl
  rw [rotate_eq h, hdir, ((h.named.attach h.fresh).remove _).names, List.filter_map]
  rfl

/-- `Retained` for a rotation, in terms of what is removed. -/
theorem retained_iff_removed (h : Rotatable env d ids id) :
    Retained d.shards (shardName U id) ((ids ++ [id]).map (shardName U))
        ((d.rotate env).2.dir.shards.map Shard.name) ↔
      (∀ x ∈ (ids ++ [id]).take (excess d.shards (ids ++ [id])),
        shardName U x ∈ removed env (d.release.attach U id)) ∧
      ∀ y ∈ (ids ++ [id]).drop (excess d.shards (ids ++ [id])),
        shardName U y ∉ removed env (d.release.attach U id) := by
  have hnd : ((ids ++ [id]).map (shardName U)).Nodup :=
    (h.named.attach h.fresh).nodup.map shardName_injective
  have hexcess : excess d.shards ((ids ++ [id]).map (shardName U)) =
      excess d.shards (ids ++ [id]) := by rw [excess, excess, List.length_map]
  rw [retained_iff_eq_drop h.shards (by simp), names_rotate h,
    filter_eq_drop_iff hnd, hexcess, ← List.map_take, ← List.map_drop]
  simp only [List.forall_mem_map]

/-- What is removed is what was to go exactly if the sort has it first and none of it is stuck. -/
theorem removed_iff_perm {all : List Id} (h : Named U d.dir all) (hshards : 1 ≤ d.shards) :
    (∀ x ∈ all.take (excess d.shards all), shardName U x ∈ removed env d) ∧
        (∀ y ∈ all.drop (excess d.shards all), shardName U y ∉ removed env d) ↔
      ((env.sort.sort (diskEntries U d.dir)).take (excess d.shards all)).Perm
          ((all.take (excess d.shards all)).map fun id ↦ (id, shardName U id)) ∧
        ∀ x ∈ all.take (excess d.shards all), env.stuck (shardName U x) = false := by
  have hperm := (env.sort.perm (diskEntries U d.dir)).trans (diskEntries_perm h)
  have hexcess : excess d.shards (diskEntries U d.dir) = excess d.shards all := by
    rw [excess, excess, (diskEntries_perm h).length_eq, List.length_map]
  have hle : excess d.shards all ≤ all.length := by
    rw [excess]
    omega
  have hmem : ∀ n, n ∈ removed env d ↔
      n ∈ ((env.sort.sort (diskEntries U d.dir)).take (excess d.shards all)).map Prod.snd ∧
        env.stuck n = false := fun n ↦ by
    rw [mem_removed, hexcess]
  generalize excess d.shards all = k at hmem hle ⊢
  generalize env.sort.sort (diskEntries U d.dir) = sorted at hperm hmem ⊢
  constructor
  · rintro ⟨hold, -⟩
    refine ⟨?_, fun x hx ↦ ((hmem _).1 (hold x hx)).2⟩
    -- all that was to go is among the first `k`, and there are no more than that
    have hsub : ((all.take k).map fun id ↦ (id, shardName U id)) ⊆ sorted.take k := by
      intro e he
      obtain ⟨x, hx, rfl⟩ := List.mem_map.1 he
      obtain ⟨e', he', hname⟩ := List.mem_map.1 ((hmem _).1 (hold x hx)).1
      obtain ⟨z, -, rfl⟩ := List.mem_map.1 (hperm.subset (List.mem_of_mem_take he'))
      rwa [shardName_injective hname] at he'
    have hnd : ((all.take k).map fun id ↦ (id, shardName U id)).Nodup :=
      ((List.take_sublist k all).nodup h.nodup).map fun a b hab ↦ congrArg Prod.fst hab
    refine ((List.subperm_of_subset hnd hsub).perm_of_length_le ?_).symm
    rw [List.length_map, List.length_take, List.length_take, hperm.length_eq, List.length_map]
  · rintro ⟨htake, hstuck⟩
    refine ⟨fun x hx ↦ (hmem _).2 ⟨?_, hstuck x hx⟩, fun y hy hrem ↦ ?_⟩
    · exact List.mem_map.2 ⟨_, htake.symm.subset (List.mem_map_of_mem hx), rfl⟩
    · obtain ⟨e, he, hname⟩ := List.mem_map.1 ((hmem _).1 hrem).1
      obtain ⟨x, hx, rfl⟩ := List.mem_map.1 (htake.subset he)
      rw [shardName_injective hname] at hx
      exact List.disjoint_take_drop h.nodup le_rfl hx hy

/-- The environment with another sort. -/
def RotateEnv.withSort (env : RotateEnv U) (sort : SortBy fun e : Id × String ↦ U.time e.1) :
    RotateEnv U :=
  { env with sort := sort }

theorem Rotatable.withSort (h : Rotatable env d ids id) (sort) :
    Rotatable (env.withSort sort) d ids id :=
  ⟨h.named, h.id_eq, h.fresh, h.create, h.readDir, h.shards⟩

/-- **The exact condition for a rotation to leave the most recent shards.** Over every sort that
`sort.Slice` may be, it does exactly if the shards to go are older in milliseconds than those to
stay and each of them can be removed. -/
theorem rotate_retained_iff (h : Rotatable env d ids id) :
    (∀ sort, Retained d.shards (shardName U id) ((ids ++ [id]).map (shardName U))
        ((d.rotate (env.withSort sort)).2.dir.shards.map Shard.name)) ↔
      Separated U d.shards (ids ++ [id]) ∧
        ∀ x ∈ (ids ++ [id]).take (excess d.shards (ids ++ [id])),
          env.stuck (shardName U x) = false := by
  have hnamed := h.named.attach h.fresh
  have hshards := h.shards
  have hiff : ∀ sort, _ ↔ _ := fun sort ↦
    (retained_iff_removed (h.withSort sort)).trans (removed_iff_perm hnamed hshards)
  have hperm : (diskEntries U (d.release.attach U id).dir).Perm
      (((ids ++ [id]).take (excess d.shards (ids ++ [id]))).map (fun id ↦ (id, shardName U id)) ++
        ((ids ++ [id]).drop (excess d.shards (ids ++ [id]))).map
          fun id ↦ (id, shardName U id)) := by
    rw [← List.map_append, List.take_append_drop]
    exact diskEntries_perm hnamed
  have hlen : (((ids ++ [id]).take (excess d.shards (ids ++ [id]))).map
      fun id ↦ (id, shardName U id)).length = excess d.shards (ids ++ [id]) := by
    rw [List.length_map, List.length_take, excess]
    omega
  constructor
  · intro hret
    refine ⟨?_, ((hiff env.sort).1 (hret env.sort)).2⟩
    by_contra hsep
    simp only [Separated, not_forall, not_lt] at hsep
    obtain ⟨x, hx, y, hy, hyx⟩ := hsep
    have hnd := (diskEntries_perm hnamed).nodup_iff.2
      (hnamed.nodup.map fun a b hab ↦ congrArg Prod.fst hab)
    obtain ⟨sort, hsort⟩ : ∃ sort : SortBy fun e : Id × String ↦ U.time e.1, ¬ _ :=
      SortBy.exists_not_take_perm hperm hnd (List.mem_map_of_mem hx) (List.mem_map_of_mem hy) hyx
    rw [hlen] at hsort
    exact hsort ((hiff sort).1 (hret sort)).1
  · rintro ⟨hsep, hstuck⟩ sort
    refine (hiff sort).2 ⟨?_, hstuck⟩
    have htake := sort.take_perm hperm fun e he e' he' ↦ by
      obtain ⟨x, hx, rfl⟩ := List.mem_map.1 he
      obtain ⟨y, hy, rfl⟩ := List.mem_map.1 he'
      exact hsep x hx y hy
    rwa [hlen] at htake

/-! ### Runs -/

variable {fmt : Codec UInt8 (Entry Id)}

/-- The call writes an entry and rotates to a shard with this id. -/
structure Rotates (fmt : Codec UInt8 (Entry Id)) (d : DirectoryWriter Id) (c : WriteCall U)
    (id : Id) : Prop where
  full : ∃ ts bs, c.env.ts = some ts ∧ fmt.encode ⟨ts, c.data⟩ = some bs ∧
    ((d.draw ts).put bs).writer.failed = false ∧ d.max ≤ (d.taken ts bs).writer.sz
  id_eq : c.env.id = some id
  create : c.env.create = true
  readDir : c.env.readDir = true

/-- The call with another sort. -/
def WriteCall.withSort (c : WriteCall U) (sort : SortBy fun e : Id × String ↦ U.time e.1) :
    WriteCall U :=
  { c with env := { c.env with sort := sort } }

theorem Rotates.write_eq {c : WriteCall U} (h : Rotates fmt d c id) :
    ∃ ts bs, ∀ sort, d.write fmt (c.withSort sort).env c.data =
      (d.taken ts bs).rotate (c.env.toRotateEnv.withSort sort) := by
  obtain ⟨ts, bs, hts, hbs, hok, hfull⟩ := h.full
  refine ⟨ts, bs, fun sort ↦ ?_⟩
  have hts' : (c.withSort sort).env.ts = some ts := hts
  exact DirectoryWriter.write_eq_rotate hts' hbs hok hfull

/-- **Retention along every run.** In whatever state a run of writes on a directory of shards has
come to, a write that rotates leaves the most recent shards, over every sort, exactly if the shards
to go are older in milliseconds than those to stay and each of them can be removed. -/
theorem retained_iff_of_run {dir : Dir Id} {ids₀ : List Id} (hdir : Named U dir ids₀) {id₀ : Id}
    (hid₀ : shardName U id₀ ∉ dir.shards.map Shard.name) {max shards : ℤ}
    (hd : newDirectoryWriter U dir max shards (some id₀) true = .ok d) (hshards : 1 ≤ d.shards)
    {s : Acked Id} {cs : List (WriteCall U)} (hrun : Run (writeStep fmt) ⟨d, []⟩ cs s) :
    ∃ ids, Named U s.d.dir ids ∧
      ∀ (c : WriteCall U) (id : Id), Rotates fmt s.d c id → Fresh s.d c.env.toRotateEnv →
        ((∀ sort, (s.d.write fmt (c.withSort sort).env c.data).1 = none ∧
            Retained d.shards (shardName U id) ((ids ++ [id]).map (shardName U))
              ((s.d.write fmt (c.withSort sort).env c.data).2.dir.shards.map Shard.name)) ↔
          Separated U d.shards (ids ++ [id]) ∧
            ∀ x ∈ (ids ++ [id]).take (excess d.shards (ids ++ [id])),
              c.env.stuck (shardName U x) = false) := by
  have hnew : Named U d.dir (ids₀ ++ [id₀]) := by
    cases hd
    exact Named.create ⟨hdir.names, hdir.nodup⟩ hid₀
  obtain ⟨⟨ids, hnamed⟩, hsame⟩ : (∃ ids, Named U s.d.dir ids) ∧ s.d.shards = d.shards := by
    refine hrun.invariant (I := fun s ↦ (∃ ids, Named U s.d.dir ids) ∧ s.d.shards = d.shards)
      (fun t c t' ⟨⟨ids, h⟩, hsh⟩ _ hstep ↦ ?_) ⟨⟨_, hnew⟩, rfl⟩
    obtain ⟨⟨hfresh, -⟩, rfl⟩ := guarded_eq_some hstep
    exact ⟨h.write fmt hfresh c.data, (DirectoryWriter.same_write fmt c.env t.d c.data).shards.trans
      hsh⟩
  refine ⟨ids, hnamed, fun c id hrot hfresh ↦ ?_⟩
  obtain ⟨ts, bs, hwrite⟩ := hrot.write_eq
  have hready : Rotatable c.env.toRotateEnv (s.d.taken ts bs) ids id :=
    ⟨hnamed.taken ts bs, hrot.id_eq, hnamed.notMem_taken hfresh hrot.id_eq ts bs, hrot.create,
      hrot.readDir, hshards.trans_eq hsame.symm⟩
  have hiff := rotate_retained_iff hready
  rw [show (s.d.taken ts bs).shards = d.shards from hsame] at hiff
  rw [← hiff]
  refine forall_congr' fun sort ↦ ?_
  have hnone : ((s.d.taken ts bs).rotate (c.env.toRotateEnv.withSort sort)).1 = none := by
    rw [rotate_eq (hready.withSort sort)]
  rw [hwrite, hnone]
  exact and_iff_right rfl

end Named

/-! ### One shard -/

/-- A write that rotates, in a directory that is to keep one shard. -/
def rotatingWrite (ts id : Fin (2 ^ 128)) : WriteCall ulid128 := ⟨[97], .ordinary ulid128 ts id⟩

/-- Two shards of different milliseconds: the newer one stays, whatever the sort. -/
theorem retained_of_later_millisecond :
    Separated ulid128 1 [ulidAt 0 1, ulidAt 1 2] ∧
      ∀ sort, Retained 1 (shardName ulid128 (ulidAt 1 2))
        [shardName ulid128 (ulidAt 0 1), shardName ulid128 (ulidAt 1 2)]
        (((eagerWriter (ulidAt 0 1) 1).write cborEntry
          ((rotatingWrite (ulidAt 1 1) (ulidAt 1 2)).withSort sort).env [97]).2.dir.shards.map
            Shard.name) := by
  have hd : newDirectoryWriter ulid128 Dir.empty 1 1 (some (ulidAt 0 1)) true =
      .ok (eagerWriter (ulidAt 0 1) 1) := by decide +kernel
  have hrun : Run (writeStep (U := ulid128) cborEntry) ⟨eagerWriter (ulidAt 0 1) 1, []⟩ [] _ :=
    .nil _
  obtain ⟨ids, hnamed, hiff⟩ := retained_iff_of_run ⟨rfl, List.nodup_nil⟩ (by decide) hd (by decide)
    hrun
  obtain rfl : ids = [ulidAt 0 1] :=
    List.map_injective_iff.2 shardName_injective hnamed.names.symm
  have hrot : Rotates cborEntry (eagerWriter (ulidAt 0 1) 1)
      (rotatingWrite (ulidAt 1 1) (ulidAt 1 2)) (ulidAt 1 2) :=
    ⟨⟨ulidAt 1 1, _, rfl, rfl, by decide +kernel, by decide +kernel⟩, rfl, rfl, rfl⟩
  have hsep : Separated ulid128 1 [ulidAt 0 1, ulidAt 1 2] := by decide +kernel
  refine ⟨hsep, fun sort ↦ ?_⟩
  exact ((hiff _ _ hrot (by decide +kernel)).2 ⟨hsep, fun _ _ ↦ rfl⟩ sort).2

/-- The sort by time that gives shards of one millisecond in the reverse of the order listed. -/
def latestFirst : SortBy fun e : Fin (2 ^ 128) × String ↦ ulid128.time e.1 :=
  (SortBy.stable _).rearranged List.reverse List.reverse_perm

/-- **The live shard is removed.** Two shards of one millisecond, of which one is to be kept: with a
sort that has the newer one first, the rotation succeeds, leaves the older shard, and the writer
goes on in a file that is no longer there. -/
theorem exists_sort_removes_live_shard :
    newDirectoryWriter ulid128 Dir.empty 1 1 (some (ulidAt 0 1)) true =
        .ok (eagerWriter (ulidAt 0 1) 1) ∧
      ∃ d, (eagerWriter (ulidAt 0 1) 1).write cborEntry
          ((rotatingWrite (ulidAt 0 2) (ulidAt 0 3)).withSort latestFirst).env [97] = (none, d) ∧
        d.writer.file = shardName ulid128 (ulidAt 0 3) ∧
        d.dir.shards.map Shard.name = [shardName ulid128 (ulidAt 0 1)] := by
  have hrot : Rotates cborEntry (eagerWriter (ulidAt 0 1) 1)
      (rotatingWrite (ulidAt 0 2) (ulidAt 0 3)) (ulidAt 0 3) :=
    ⟨⟨ulidAt 0 2, _, rfl, rfl, by decide +kernel, by decide +kernel⟩, rfl, rfl, rfl⟩
  obtain ⟨ts, bs, hwrite⟩ := hrot.write_eq
  have hnamed : Named ulid128 ((eagerWriter (ulidAt 0 1) 1).taken ts bs).dir [ulidAt 0 1] :=
    Named.taken ⟨rfl, List.nodup_singleton _⟩ ts bs
  have hfresh : shardName ulid128 (ulidAt 0 3) ∉
      ((eagerWriter (ulidAt 0 1) 1).taken ts bs).dir.shards.map Shard.name := by
    rw [hnamed.names]
    decide +kernel
  have hattach := hnamed.attach hfresh
  have hsort : latestFirst.sort (diskEntries ulid128
      (((eagerWriter (ulidAt 0 1) 1).taken ts bs).release.attach ulid128 (ulidAt 0 3)).dir) =
      [(ulidAt 0 3, shardName ulid128 (ulidAt 0 3)),
        (ulidAt 0 1, shardName ulid128 (ulidAt 0 1))] := by
    rw [diskEntries_eq hattach (by decide +kernel)]
    exact List.mergeSort_of_pairwise (by decide +kernel)
  have hremoved : removed ((rotatingWrite (ulidAt 0 2) (ulidAt 0 3)).env.toRotateEnv.withSort
      latestFirst) (((eagerWriter (ulidAt 0 1) 1).taken ts bs).release.attach ulid128
        (ulidAt 0 3)) = [shardName ulid128 (ulidAt 0 3)] := by
    rw [removed, show RotateEnv.sort (RotateEnv.withSort _ latestFirst) = latestFirst from rfl,
      hsort, diskEntries_eq hattach (by decide +kernel)]
    rfl
  refine ⟨by decide +kernel, _, (hwrite latestFirst).trans
    (rotate_eq ⟨hnamed, hrot.id_eq, hfresh, hrot.create, hrot.readDir, le_refl (1 : ℤ)⟩), rfl, ?_⟩
  rw [hremoved]
  refine (hattach.remove _).names.trans ?_
  decide +kernel

end Log
