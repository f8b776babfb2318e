import Isle.Log.Writer

/-!
# Directories of shards

What the names in a log directory are, whatever the shards hold: those of the ids of its shards, in
the order of their creation (`Named`). Every write leaves it so (`Named.write`), and where the ids
were drawn in increasing order `ReadDir` lists the shards in the order of their creation
(`Named.readDir_eq`).
-/

namespace Log

variable {Id : Type*} [LinearOrder Id]

/-- The directory holds shards with the given ids, in the order of their creation, and nothing
else. -/
structure Named (U : Ulid Id) (dir : Dir Id) (ids : List Id) : Prop where
  names : dir.shards.map Shard.name = ids.map (shardName U)
  nodup : ids.Nodup

/-- An id that is drawn for a shard is none of those the names are of. -/
def Unused (U : Ulid Id) (names : List String) (id : Option Id) : Prop :=
  ∀ id' ∈ id, shardName U id' ∉ names

instance (U : Ulid Id) (names : List String) (id : Option Id) : Decidable (Unused U names id) :=
  inferInstanceAs (Decidable (∀ id' ∈ id, _))

variable {U : Ulid Id} {d : DirectoryWriter Id} {ids : List Id} {id : Id}

theorem shardName_injective : Function.Injective (shardName U) := by
  intro a b hab
  rcases lt_trichotomy a b with h | h | h
  · exact absurd hab (shardName_lt_shardName h).ne
  · exact h
  · exact absurd hab (shardName_lt_shardName h).ne'

variable {dir : Dir Id}

/-- Bytes that reach a file change no name. -/
theorem Named.append (h : Named U dir ids) (name : String) (out : Bytes) :
    Named U (dir.append name out) ids :=
  ⟨Dir.names_append.trans h.names, h.nodup⟩

theorem Named.create (h : Named U dir ids) (hid : shardName U id ∉ dir.shards.map Shard.name) :
    Named U (dir.create (shardName U id)) (ids ++ [id]) := by
  constructor
  · rw [Dir.create_shards hid, List.map_append, h.names, List.map_append]
    rfl
  · refine List.nodup_append.2 ⟨h.nodup, List.nodup_singleton id, fun a ha b hb hab ↦ hid ?_⟩
    rw [h.names, ← List.mem_singleton.1 hb, ← hab]
    exact List.mem_map_of_mem ha

theorem Named.remove (h : Named U dir ids) (names : List String) :
    Named U (dir.remove names) (ids.filter fun id ↦ shardName U id ∉ names) := by
  refine ⟨?_, h.nodup.filter _⟩
  rw [Dir.names_remove, h.names, List.filter_map]
  rfl

/-- After the file was released and the new shard created. -/
theorem Named.attach (h : Named U d.dir ids) (hid : shardName U id ∉ d.dir.shards.map Shard.name) :
    Named U (d.release.attach U id).dir (ids ++ [id]) := by
  have hrel : Named U d.release.dir ids := h.append _ _
  refine Named.create ⟨hrel.names, hrel.nodup⟩ ?_
  rwa [h.names, ← hrel.names] at hid

theorem Named.taken (h : Named U d.dir ids) (ts : Id) (bs : Bytes) :
    Named U (d.taken ts bs).dir ids := by
  have hput := h.append (d.writer.put d.opened bs).1.file (d.writer.put d.opened bs).2
  exact ⟨hput.names, hput.nodup⟩

/-- An id that names no other shard names none after an entry was taken. -/
theorem Named.notMem_taken (h : Named U d.dir ids) {env : RotateEnv U} (hfresh : Fresh d env)
    (hid : id ∈ env.id) (ts : Id) (bs : Bytes) :
    shardName U id ∉ (d.taken ts bs).dir.shards.map Shard.name := fun hmem ↦ by
  rw [(h.taken ts bs).names, ← h.names] at hmem
  exact hfresh id hid (List.map_subset _ (List.subset_append_left _ _) hmem)

/-- What a write does to the names: nothing, or what a rotation to a new shard does. -/
theorem Named.write_cases (h : Named U d.dir ids) (fmt : Codec UInt8 (Entry Id)) {env : WriteEnv U}
    (hfresh : Fresh d env.toRotateEnv) (data : Bytes) :
    Named U (d.write fmt env data).2.dir ids ∨
      ∃ ts bs id, env.id = some id ∧ env.create = true ∧
        shardName U id ∉ (d.taken ts bs).dir.shards.map Shard.name ∧
        d.write fmt env data = (d.taken ts bs).rotate env.toRotateEnv := by
  rcases DirectoryWriter.write_cases fmt env d data with
    ⟨e, hw⟩ | ⟨ts, e, hw⟩ | ⟨ts, bs, -, -, hw | ⟨-, ⟨-, hw⟩ | ⟨-, hw⟩⟩⟩
  · rw [hw]
    exact .inl h
  · rw [hw]
    exact .inl ⟨h.names, h.nodup⟩
  · rw [hw]
    exact .inl ⟨(h.taken ts bs).names, h.nodup⟩
  · rw [hw]
    exact .inl (h.taken ts bs)
  · have hrel : Named U (d.taken ts bs).release.dir ids := (h.taken ts bs).append _ _
    rcases DirectoryWriter.rotate_cases env.toRotateEnv (d.taken ts bs) with
      heq | ⟨id, heq⟩ | ⟨id, names, e, hid, hcreate, -, -⟩
    · rw [hw, heq]
      exact .inl hrel
    · rw [hw, heq]
      exact .inl ⟨hrel.names, hrel.nodup⟩
    · exact .inr ⟨ts, bs, id, hid, hcreate, h.notMem_taken hfresh hid ts bs, hw⟩

/-- A write leaves a directory of shards, whatever becomes of it. -/
theorem Named.write (h : Named U d.dir ids) (fmt : Codec UInt8 (Entry Id)) {env : WriteEnv U}
    (hfresh : Fresh d env.toRotateEnv) (data : Bytes) :
    ∃ ids', Named U (d.write fmt env data).2.dir ids' := by
  rcases h.write_cases fmt hfresh data with hsame | ⟨ts, bs, id, hid, hcreate, hnew, hw⟩
  · exact ⟨ids, hsame⟩
  · obtain ⟨names, e, -, hsettle⟩ :=
      DirectoryWriter.settle_cases env.toRotateEnv ((d.taken ts bs).release.attach U id)
    rw [hw, DirectoryWriter.rotate_of_create hid hcreate, hsettle]
    exact ⟨_, ((h.taken ts bs).attach hnew).remove names⟩

/-- **Where ids increase, names are listed in the order of creation.** -/
theorem Named.readDir_eq (h : Named U dir ids) (hids : ids.Pairwise (· < ·)) :
    dir.readDir = ids.map (shardName U) := by
  rw [Dir.readDir, h.names]
  refine List.mergeSort_of_pairwise (List.pairwise_map.2 (hids.imp fun hab ↦ ?_))
  exact decide_eq_true (shardName_lt_shardName hab).le

end Log
