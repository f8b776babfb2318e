import Isle.Log.Retention
import Isle.Log.Sessions

/-!
# How many shards there are

A shard is created in two places, and pruning happens in one of them: `rotate` leaves at most as
many shards as are to be kept, but `NewDirectoryWriter` **adds one and removes none**. Sessions that
each write less than a shard therefore leave one shard each, and their number has no bound.

With ids that name no other shard, and a directory that can be read and pruned, there is never more
than one shard beyond those to be kept exactly if every session begins with no more than those
(`bounded_throughout_iff`).
-/

namespace Log

/-- How many shards a writer keeps, for the value `NewDirectoryWriter` is given. -/
def effectiveShards (shards : ℤ) : ℤ := if shards = 0 then defaultShards else shards

theorem effectiveShards_ne_zero (shards : ℤ) : effectiveShards shards ≠ 0 := by
  unfold effectiveShards
  split_ifs with h
  · decide
  · exact h

/-- **At most one shard more than are to be kept.** -/
def Bounded {Id : Type*} (shards : ℤ) (s : Site Id) : Prop :=
  (s.dir.shards.length : ℤ) ≤ effectiveShards shards + 1

section Guards

variable {Id : Type*} [LinearOrder Id] {U : Ulid Id}

/-- Sessions are opened with one value, with ids that name no other shard, and in a rotation the
directory can be read and every shard removed. -/
def Steady (shards : ℤ) (s : Site Id) : SiteCall U → Prop
  | .new _ shards' id _ => shards' = shards ∧ Unused U (s.dir.all.map Shard.name) id
  | .write c => Unused U (s.dir.all.map Shard.name) c.env.id ∧ c.env.readDir = true ∧
      ∀ name ∈ s.dir.shards.map Shard.name ++ (c.env.id.map (shardName U)).toList,
        c.env.stuck name = false
  | .close => True

/-- A session begins with no more shards than are to be kept. -/
def Begins (shards : ℤ) (s : Site Id) : SiteCall U → Prop
  | .new _ _ id create => id ≠ none → create = true →
      (s.dir.shards.length : ℤ) ≤ effectiveShards shards
  | .write _ | .close => True

instance (shards : ℤ) (s : Site Id) : ∀ a : SiteCall U, Decidable (Steady shards s a)
  | .new _ _ _ _ => inferInstanceAs (Decidable (_ ∧ _))
  | .write _ => inferInstanceAs (Decidable (_ ∧ _ ∧ _))
  | .close => isTrue trivial

instance (shards : ℤ) (s : Site Id) : ∀ a : SiteCall U, Decidable (Begins shards s a)
  | .new _ _ _ _ => inferInstanceAs (Decidable (_ → _ → _))
  | .write _ | .close => isTrue trivial

end Guards

/-! ### What a rotation leaves -/

section Rotation

/-- Without some of its elements a list is shorter by their number. -/
private theorem length_filter_notMem {α : Type*} [DecidableEq α] {l r : List α} (hl : l.Nodup)
    (hr : r.Nodup) (hsub : r ⊆ l) : (l.filter fun x ↦ x ∉ r).length + r.length = l.length := by
  have hperm : (l.filter fun x ↦ x ∈ r).Perm r :=
    (List.perm_ext_iff_of_nodup (hl.filter _) hr).2 fun x ↦ by
      rw [List.mem_filter, decide_eq_true_iff]
      exact ⟨fun h ↦ h.2, fun h ↦ ⟨hsub h, h⟩⟩
  rw [← hperm.length_eq, Nat.add_comm]
  simpa using (List.length_eq_length_filter_add fun x ↦ decide (x ∈ r)).symm

variable {Id : Type*} [LinearOrder Id] {U : Ulid Id} {d : DirectoryWriter Id} {ids : List Id}
  {id : Id} {env : RotateEnv U}

variable (env) in
/-- What is removed if nothing is stuck: as many shards as are too many. -/
theorem removed_of_not_stuck (h : Named U d.dir ids)
    (hstuck : ∀ name ∈ ids.map (shardName U), env.stuck name = false) :
    (removed env d).Nodup ∧ removed env d ⊆ ids.map (shardName U) ∧
      (removed env d).length = min (excess d.shards ids) ids.length := by
  have hperm : ((env.sort.sort (diskEntries U d.dir)).map Prod.snd).Perm
      (ids.map (shardName U)) := by
    have hentries := ((env.sort.perm _).trans (diskEntries_perm h)).map Prod.snd
    rwa [List.map_map] at hentries
  have hremoved : removed env d = ((env.sort.sort (diskEntries U d.dir)).map Prod.snd).take
      (excess d.shards ids) := by
    have hall : ∀ name ∈ ((env.sort.sort (diskEntries U d.dir)).take
        (excess d.shards (diskEntries U d.dir))).map Prod.snd, (!env.stuck name) = true := by
      intro name hname
      rw [List.map_take] at hname
      rw [hstuck name (hperm.subset (List.mem_of_mem_take hname)), Bool.not_false]
    rw [removed, List.filter_eq_self.2 hall, List.map_take, excess, excess,
      (diskEntries_perm h).length_eq, List.length_map]
  rw [hremoved]
  refine ⟨(List.take_sublist _ _).nodup (hperm.nodup_iff.2 (h.nodup.map shardName_injective)),
    fun name hname ↦ hperm.subset (List.mem_of_mem_take hname), ?_⟩
  rw [List.length_take, hperm.length_eq, List.length_map]

/-- **A rotation leaves no more shards than are to be kept.** -/
theorem length_rotate_le (h : Rotatable env d ids id)
    (hstuck : ∀ name ∈ (ids ++ [id]).map (shardName U), env.stuck name = false) :
    ((d.rotate env).2.dir.shards.length : ℤ) ≤ d.shards := by
  have hattach := h.named.attach h.fresh
  obtain ⟨hnodup, hsub, hlen⟩ := removed_of_not_stuck env hattach hstuck
  have hleft := length_filter_notMem (hattach.nodup.map shardName_injective) hnodup hsub
  rw [← names_rotate h, List.length_map, hlen, List.length_map] at hleft
  have hsame : (d.release.attach U id).shards = d.shards := rfl
  rw [hsame, excess] at hleft
  have hshards := h.shards
  omega

end Rotation

/-! ### One call -/

section Step

variable {Id : Type*} [LinearOrder Id] {U : Ulid Id} {fmt : Codec UInt8 (Entry Id)} {shards : ℤ}
  {s s' : Site Id} {d : DirectoryWriter Id} {ids : List Id} {c : WriteCall U}

/-- A directory of shards, within the bound, and a writer that keeps at least one. -/
structure Counted (U : Ulid Id) (shards : ℤ) (s : Site Id) : Prop where
  named : ∃ ids, Named U s.dir ids
  bounded : Bounded shards s
  writer : ∀ d, s = .writing d → d.shards = effectiveShards shards ∧ 1 ≤ d.shards

variable (fmt) in
/-- A write leaves as many shards as there were, or no more than are to be kept. -/
theorem length_write_le (h : Named U d.dir ids) (hsteady : Steady shards (.writing d) (.write c))
    (hshards : 1 ≤ d.shards) :
    ((d.write fmt c.env c.data).2.dir.shards.length : ℤ) ≤
      max (d.dir.shards.length : ℤ) d.shards := by
  obtain ⟨hfresh, hread, hstuck⟩ := hsteady
  rcases h.write_cases fmt hfresh c.data with hsame | ⟨ts, bs, id, hid, hcreate, hnew, hw⟩
  · have hlen : (d.write fmt c.env c.data).2.dir.shards.length = d.dir.shards.length := by
      rw [← List.length_map Shard.name, hsame.names, ← h.names, List.length_map]
    rw [hlen]
    exact le_max_left _ _
  · have hstuck' : ∀ name ∈ (ids ++ [id]).map (shardName U), c.env.stuck name = false := by
      intro name hname
      rw [List.map_append, ← h.names] at hname
      exact hstuck name (by rw [hid]; exact hname)
    rw [hw]
    exact (length_rotate_le ⟨h.taken ts bs, hid, hnew, hcreate, hread, hshards⟩ hstuck').trans
      (le_max_right _ _)

/-- What `NewDirectoryWriter` can do: fail, with the shards as they are, or add a shard. -/
theorem siteStep_new_cases {max : ℤ} {id : Option Id} {create : Bool}
    (hfresh : Unused U (s.dir.all.map Shard.name) id)
    (hstep : siteStep fmt s (SiteCall.new (U := U) max shards id create) = some s') :
    ((id = none ∨ create = false) ∧ ∃ drawn, s' = .idle { s.dir with drawn := drawn }) ∨
      ∃ id' d, id = some id' ∧ create = true ∧ s' = .writing d ∧
        d.shards = effectiveShards shards ∧
        d.dir.shards.length = s.dir.shards.length + 1 ∧
        ∀ ids, Named U s.dir ids → Named U d.dir (ids ++ [id']) := by
  rcases id with - | id
  · cases hstep
    exact .inl ⟨.inl rfl, _, rfl⟩
  rcases create with - | -
  · cases hstep
    exact .inl ⟨.inr rfl, _, rfl⟩
  cases hstep
  have hfresh' : shardName U id ∉ s.dir.shards.map Shard.name := fun hmem ↦
    hfresh id rfl (List.map_subset _ (List.subset_append_left _ _) hmem)
  refine .inr ⟨id, _, rfl, rfl, rfl, rfl, ?_, fun ids h ↦
    Named.create ⟨h.names, h.nodup⟩ hfresh'⟩
  rw [Dir.create_shards (by exact hfresh'), List.length_append]
  rfl

/-- A call that leaves the bound kept has begun no session with too many shards. -/
theorem Counted.begins {a : SiteCall U} (hsteady : Steady shards s a)
    (hstep : siteStep fmt s a = some s') (hbounded : Bounded shards s') : Begins shards s a := by
  cases a with
  | new max shards' id create =>
    obtain ⟨rfl, hfresh⟩ := hsteady
    intro hid hcreate
    rcases siteStep_new_cases hfresh hstep with
      ⟨hnone | hfalse, -⟩ | ⟨id', d, -, -, rfl, -, hlen, -⟩
    · exact absurd hnone hid
    · exact absurd (hfalse.symm.trans hcreate) Bool.false_ne_true
    · rw [Bounded, show (Site.writing d).dir = d.dir from rfl, hlen] at hbounded
      omega
  | write c => exact trivial
  | close => exact trivial

/-- **One call**, if it begins no session with too many shards. -/
theorem Counted.step {a : SiteCall U} (h : Counted U shards s) (hsteady : Steady shards s a)
    (hbegins : Begins shards s a) (hstep : siteStep fmt s a = some s') : Counted U shards s' := by
  obtain ⟨ids, hnamed⟩ := h.named
  cases a with
  | new max shards' id create =>
    obtain ⟨rfl, hfresh⟩ := hsteady
    rcases siteStep_new_cases hfresh hstep with
      ⟨-, drawn, rfl⟩ | ⟨id', d, rfl, rfl, rfl, hshards, hlen, hcreate⟩
    · refine ⟨⟨ids, hnamed.names, hnamed.nodup⟩, h.bounded, ?_⟩
      rintro d ⟨⟩
    · -- there is one shard more, which the bound allows a writer that begins
      have hle := hbegins (Option.some_ne_none id') rfl
      have hne := effectiveShards_ne_zero shards'
      refine ⟨⟨_, hcreate ids hnamed⟩, ?_, ?_⟩
      · rw [Bounded, show (Site.writing d).dir = d.dir from rfl, hlen]
        omega
      · rintro d' ⟨⟩
        exact ⟨hshards, by omega⟩
  | write c =>
    rcases s with dir | d
    · cases hstep
    obtain ⟨hkept, hpos⟩ := h.writer d rfl
    have hnamed' := hnamed.write fmt hsteady.1 c.data
    have hsame := (DirectoryWriter.same_write fmt c.env d c.data).shards
    have hlen := length_write_le fmt hnamed hsteady hpos
    have hbounded : ((d.write fmt c.env c.data).2.dir.shards.length : ℤ) ≤
        effectiveShards shards + 1 := by
      have hbefore : (d.dir.shards.length : ℤ) ≤ effectiveShards shards + 1 := h.bounded
      omega
    obtain rfl := Option.some.inj hstep
    split_ifs
    · refine ⟨hnamed', hbounded, ?_⟩
      rintro d' ⟨⟩
    · refine ⟨hnamed', hbounded, ?_⟩
      rintro d' ⟨⟩
      exact ⟨hsame.trans hkept, hpos.trans_eq hsame.symm⟩
  | close =>
    rcases s with dir | d
    · cases hstep
    cases hstep
    have hrel : Named U d.release.dir ids := hnamed.append _ _
    refine ⟨⟨ids, hrel⟩, ?_, ?_⟩
    · have hlen : d.release.dir.shards.length = d.dir.shards.length := List.length_map _
      rw [Bounded, show (Site.writing d.close.2).dir = d.release.dir from rfl, hlen]
      exact h.bounded
    · rintro d' ⟨⟩
      exact h.writer d rfl

end Step

/-! ### Sessions -/

section Runs

variable {Id : Type*} [LinearOrder Id] {U : Ulid Id} {fmt : Codec UInt8 (Entry Id)}

/-- **How many shards sessions leave.** For every run of sessions on one directory, opened with one
value `shards` and with rotations that can read and prune it: there is never more than one shard
beyond those to be kept, whatever is written, exactly if every session begins with no more than
those to be kept. (With a negative value there are too many in an empty directory.) Shards are
counted between the calls: inside `rotate` there is one more, before it prunes. -/
theorem bounded_throughout_iff {shards : ℤ} {s : Site Id} {as : List (SiteCall U)}
    (h : RunWhile (siteStep fmt) (Steady shards) (.idle .empty) as s) :
    Throughout (siteStep fmt) (Bounded shards) (.idle .empty) as ↔
      0 ≤ effectiveShards shards + 1 ∧
        RunWhile (siteStep fmt) (Begins shards) (.idle .empty) as s := by
  by_cases hempty : 0 ≤ effectiveShards shards + 1
  · have hcounted : Counted U shards (.idle .empty) := by
      refine ⟨⟨[], rfl, List.nodup_nil⟩, hempty, ?_⟩
      rintro d ⟨⟩
    rw [and_iff_right hempty]
    exact h.throughout_iff_of_invariant (I := Counted U shards) (fun _ hs ↦ hs.bounded)
      (fun _ _ _ hs hsteady hstep ↦ ⟨Counted.begins hsteady hstep, fun hbegins ↦
        (hs.step hsteady hbegins hstep).bounded⟩)
      (fun _ _ _ hs hsteady hbegins hstep ↦ hs.step hsteady hbegins hstep) hcounted
  · exact iff_of_false (fun hbounded ↦ hempty (hbounded [] _ List.nil_prefix (.nil _)))
      fun hboth ↦ hempty hboth.1

end Runs

/-- A session that rotates once, and one that writes less than a shard. -/
def twoBoots : List (SiteCall ulid128) :=
  [.new 1 3 (some (ulidAt 0 1)) true, .write (rotatingWrite (ulidAt 1 0) (ulidAt 1 1)), .close,
    .new 0 3 (some (ulidAt 2 0)) true, .write (rotatingWrite (ulidAt 2 1) (ulidAt 2 2)), .close]

theorem bounded_twoBoots :
    ∃ s, RunWhile (siteStep cborEntry) (Steady 3) (.idle .empty) twoBoots s ∧
      s.dir.shards.length = 3 ∧
      Throughout (siteStep cborEntry) (Bounded 3) (.idle .empty) twoBoots := by
  obtain ⟨s, hrun, hlen⟩ : ∃ s, RunWhile (siteStep cborEntry)
      (fun s a ↦ Steady 3 s a ∧ Begins 3 s a) (.idle .empty) twoBoots s ∧
      s.dir.shards.length = 3 :=
    ⟨_, runWhile_iff_foldlM.2 rfl, rfl⟩
  have hsteady := hrun.mono fun _ _ hguard ↦ hguard.1
  exact ⟨s, hsteady, hlen, (bounded_throughout_iff hsteady).2
    ⟨by decide, hrun.mono fun _ _ hguard ↦ hguard.2⟩⟩

/-- A session that writes one entry, less than a shard. -/
def shortSession (ms : ℕ) : List (SiteCall ulid128) :=
  [.new 0 1 (some (ulidAt ms 0)) true, .write (rotatingWrite (ulidAt ms 1) (ulidAt ms 2)), .close]

/-- **Three short sessions leave three shards** where one is to be kept. -/
theorem exists_not_bounded :
    ∃ s, RunWhile (siteStep cborEntry) (Steady 1) (.idle .empty)
        (shortSession 0 ++ shortSession 1 ++ shortSession 2) s ∧
      s.dir.shards.length = 3 ∧ ¬ Bounded 1 s := by
  obtain ⟨s, hrun, hlen⟩ : ∃ s, RunWhile (siteStep cborEntry) (Steady 1) (.idle .empty)
      (shortSession 0 ++ shortSession 1 ++ shortSession 2) s ∧ s.dir.shards.length = 3 :=
    ⟨_, runWhile_iff_foldlM.2 rfl, rfl⟩
  refine ⟨s, hrun, hlen, fun hbounded ↦ ?_⟩
  rw [Bounded, hlen] at hbounded
  exact absurd hbounded (by decide)

end Log
