import Isle.Log.Retention

/-!
# Pruning among other files

What a rotation does in a directory that does not hold shards alone. `rotate` asks how many entries
the directory has, of **whatever kind**, and `pruneEntries` slices the list of those it has an id
for. Two things go wrong with the others.

* With fewer ids than shards to be kept the bound of the slice is negative, and the rotation panics.
  One file without an extension is enough: it comes to that when the shards and the file together
  are as many as are to be kept.
* `ulid.Parse` looks at the length of a text and at its first character. A file whose name has 26
  characters in front of a dot is taken for a shard drawn at the time they come to, and is removed
  as one.

`rotate_safe_iff` is the exact condition, over every directory and every sort: there are as many ids
as shards to be kept, and every file that is none of the shards but has an id is behind enough older
ones.
-/

namespace Log

/-! ### Names of shards -/

/-- The text of an id: 26 digits, in upper or lower case, of which the first is at most 7. -/
def IsUlid (text : List Char) : Prop :=
  text.length = 26 ∧ text.all (fun c ↦ crockford.contains c.toUpper) = true ∧
    text.head?.all (fun c ↦ decide (c ≤ '7')) = true

instance (text : List Char) : Decidable (IsUlid text) := inferInstanceAs (Decidable (_ ∧ _))

/-- A name that is an id followed by an extension. -/
def IsUlidName (name : String) : Prop :=
  '.' ∈ name.toList ∧ IsUlid (name.toList.takeWhile (· ≠ '.'))

instance (name : String) : Decidable (IsUlidName name) := inferInstanceAs (Decidable (_ ∧ _))

private theorem crockford_contains : ∀ i : Fin 32,
    crockford.contains (crockford.getD i '0').toUpper = true := by decide

private theorem crockford_le : ∀ i : Fin 8, crockford.getD i '0' ≤ '7' := by decide

/-- The texts of ids of 128 bits are such texts. -/
theorem isUlid_text_ulid128 (id : Fin (2 ^ 128)) : IsUlid (ulid128.text id).toList := by
  have htext : (ulid128.text id).toList =
      (digits 32 26 id).map fun i ↦ crockford.getD i '0' := String.toList_ofList
  have hlead : id.val / 32 ^ 25 < 8 := Nat.div_lt_of_lt_mul (id.isLt.trans_le (by decide))
  rw [IsUlid, htext, List.length_map, length_digits]
  refine ⟨rfl, ?_, ?_⟩
  · rw [List.all_map, List.all_eq_true]
    exact fun i hi ↦ crockford_contains ⟨i, lt_of_mem_digits (by decide) hi⟩
  · rw [digits, List.map_cons, List.head?_cons, Option.all_some,
      Nat.mod_eq_of_lt (hlead.trans (by decide))]
    exact decide_eq_true (crockford_le ⟨_, hlead⟩)

section Foreign

variable {Id : Type*} [LinearOrder Id] {U : Ulid Id}

theorem isUlidName_shardName (hU : ∀ id, IsUlid (U.text id).toList) (id : Id) :
    IsUlidName (shardName U id) :=
  ⟨dot_mem_shardName id, by rw [takeWhile_shardName]; exact hU id⟩

/-! ### What is to hold -/

/-- **What pruning is to keep to** in a directory: it does not panic, and what it takes out of the
directory has the name of a shard. -/
structure Safe (dir : Dir Id) (r : Option LogError × DirectoryWriter Id) : Prop where
  inRange : r.1 ≠ some .panic
  removed : ∀ n ∈ dir.shards.map Shard.name, n ∉ r.2.dir.shards.map Shard.name → IsUlidName n

/-- The names have as many ids as shards are to be kept, and a file that is no shard but has an id,
and can be removed, has enough older ones in front of it. -/
@[mk_iff]
structure Prunable (env : RotateEnv U) (shards : ℤ) (ids : List (Id × String)) : Prop where
  enough : shards ≤ ids.length
  foreign : ∀ e ∈ ids, ¬ IsUlidName e.2 → env.stuck e.2 = false →
    excess shards ids ≤ ids.countP fun e' ↦ U.time e'.1 < U.time e.1

instance (env : RotateEnv U) (shards : ℤ) (ids : List (Id × String)) :
    Decidable (Prunable env shards ids) :=
  decidable_of_iff _ (prunable_iff env shards ids).symm

/-- The names in a directory that `pruneEntries` has an id for. -/
def idsOf (U : Ulid Id) (names : List String) : List (Id × String) :=
  names.filterMap (diskEntry U)

theorem Prunable.perm {env : RotateEnv U} {shards : ℤ} {ids ids' : List (Id × String)}
    (h : Prunable env shards ids) (hperm : ids.Perm ids') : Prunable env shards ids' := by
  have hexcess : excess shards ids' = excess shards ids := by
    rw [excess, excess, hperm.length_eq]
  refine ⟨hperm.length_eq ▸ h.enough, fun e he hname hstuck ↦ ?_⟩
  rw [hexcess, ← hperm.countP_eq]
  exact h.foreign e (hperm.mem_iff.2 he) hname hstuck

/-! ### `pruneEntries` -/

section Prune

variable {d : DirectoryWriter Id} {env : RotateEnv U}

/-- With fewer ids than shards to be kept, the slice expression is out of range. -/
theorem pruneEntries_of_lt (h : ((diskEntries U d.dir).length : ℤ) < d.shards) :
    d.pruneEntries env = (some .panic, d) := by
  have hcut : (((diskEntries U d.dir).length : ℤ) - d.shards < 0 ∨
      ((diskEntries U d.dir).length : ℤ) + env.spare < (diskEntries U d.dir).length - d.shards) :=
    .inl (by omega)
  simp only [DirectoryWriter.pruneEntries, DirectoryWriter.toRemove]
  rw [show d.dir.readDir.filterMap (diskEntry U) = diskEntries U d.dir from rfl, if_pos hcut]

theorem diskEntries_perm_idsOf (dir : Dir Id) :
    (diskEntries U dir).Perm (idsOf U (dir.shards.map Shard.name)) :=
  (List.mergeSort_perm _ _).filterMap _

theorem snd_of_diskEntry {name : String} {e : Id × String} (h : diskEntry U name = some e) :
    e.2 = name := by
  obtain ⟨-, hmap⟩ := Option.ite_none_right_eq_some.1 h
  obtain ⟨id, -, rfl⟩ := Option.map_eq_some_iff.1 hmap
  rfl

theorem snd_mem_of_mem_idsOf {names : List String} {e : Id × String} (h : e ∈ idsOf U names) :
    e.2 ∈ names := by
  obtain ⟨n, hn, he⟩ := List.mem_filterMap.1 h
  rwa [snd_of_diskEntry he]

theorem mem_names_of_mem_removed {n : String} (h : n ∈ removed env d) :
    n ∈ d.dir.shards.map Shard.name := by
  obtain ⟨e, he, rfl⟩ := List.mem_map.1 (mem_removed.1 h).1
  have hids := (env.sort.perm _).subset (List.mem_of_mem_take he)
  exact snd_mem_of_mem_idsOf ((diskEntries_perm_idsOf d.dir).subset hids)

omit [LinearOrder Id] in
/-- A call that removes names is safe if they are those of shards. -/
theorem safe_remove_iff {names : List String} (h : names ⊆ d.dir.shards.map Shard.name) :
    Safe d.dir (none, d.remove names) ↔ ∀ n ∈ names, IsUlidName n := by
  have hgone : ∀ n, n ∈ (d.remove names).dir.shards.map Shard.name ↔
      n ∈ d.dir.shards.map Shard.name ∧ n ∉ names := fun n ↦ by
    rw [DirectoryWriter.remove, Dir.names_remove, List.mem_filter, decide_eq_true_eq]
  constructor
  · intro hsafe n hn
    exact hsafe.removed n (h hn) fun hmem ↦ ((hgone n).1 hmem).2 hn
  · intro hnames
    refine ⟨(Option.some_ne_none _).symm, fun n hn hmem ↦ hnames n ?_⟩
    by_contra hnot
    exact hmem ((hgone n).2 ⟨hn, hnot⟩)

/-- If there are more ids than shards to be kept, the file with the oldest is gone, whatever the
sort. -/
theorem notMem_pruneEntries_of_oldest {e : Id × String} {rest : List (Id × String)}
    (hshards : 1 ≤ d.shards) (hids : (idsOf U (d.dir.shards.map Shard.name)).Perm (e :: rest))
    (hrest : ∀ e' ∈ rest, U.time e.1 < U.time e'.1) (hlt : d.shards ≤ rest.length)
    (hstuck : env.stuck e.2 = false) : e.2 ∉ (d.pruneEntries env).2.dir.shards.map Shard.name := by
  have hperm : (diskEntries U d.dir).Perm ([e] ++ rest) :=
    (diskEntries_perm_idsOf d.dir).trans hids
  have hlen := hperm.length_eq
  rw [List.length_append, List.length_singleton] at hlen
  have hfirst := env.sort.take_perm hperm fun x hx y hy ↦ by
    rw [List.mem_singleton.1 hx]
    exact hrest y hy
  have hexcess : [e].length ≤ excess d.shards (diskEntries U d.dir) := by
    rw [List.length_singleton, excess]
    omega
  have htake := List.take_subset_take_left _ hexcess (hfirst.mem_iff.2 List.mem_cons_self)
  have hgone : e.2 ∈ removed env d := mem_removed.2 ⟨List.mem_map_of_mem htake, hstuck⟩
  rw [pruneEntries_of_le hshards (by omega), DirectoryWriter.remove, Dir.names_remove,
    List.mem_filter, decide_eq_true_eq]
  exact fun hmem ↦ hmem.2 hgone

/-- **The exact condition for `pruneEntries` to be safe**, over every sort. -/
theorem safe_pruneEntries_iff (hshards : 1 ≤ d.shards) :
    (∀ sort, Safe d.dir (d.pruneEntries (env.withSort sort))) ↔
      Prunable env d.shards (diskEntries U d.dir) := by
  rcases lt_or_ge ((diskEntries U d.dir).length : ℤ) d.shards with hlt | hle
  · constructor
    · intro hsafe
      exact absurd (congrArg Prod.fst (pruneEntries_of_lt hlt)) (hsafe env.sort).inRange
    · intro h
      exact absurd h.enough hlt.not_ge
  · have hiff : ∀ sort, Safe d.dir (d.pruneEntries (env.withSort sort)) ↔
        ∀ n ∈ removed (env.withSort sort) d, IsUlidName n := fun sort ↦ by
      rw [pruneEntries_of_le hshards hle]
      exact safe_remove_iff fun n ↦ mem_names_of_mem_removed
    constructor
    · refine fun hsafe ↦ ⟨hle, fun e he hname hstuck ↦ ?_⟩
      -- otherwise some sort has it among those to go
      by_contra hlt
      obtain ⟨sort, hfirst⟩ := SortBy.exists_mem_take_iff.2 ⟨he, not_le.1 hlt⟩
      exact hname ((hiff sort).1 (hsafe sort) e.2
        (mem_removed.2 ⟨List.mem_map_of_mem hfirst, hstuck⟩))
    · refine fun h sort ↦ (hiff sort).2 fun n hn ↦ ?_
      obtain ⟨hmem, hstuck⟩ := mem_removed.1 hn
      obtain ⟨e, hfirst, rfl⟩ := List.mem_map.1 hmem
      obtain ⟨he, hcount⟩ := SortBy.exists_mem_take_iff.1 ⟨sort, hfirst⟩
      by_contra hname
      exact absurd (h.foreign e he hname hstuck) hcount.not_ge

/-! ### `rotate` -/

omit [LinearOrder Id] in
/-- `os.Create` enters a name, if it is not there. -/
theorem Dir.names_create_perm (dir : Dir Id) (name : String) :
    ((dir.create name).shards.map Shard.name).Perm ((dir.shards.map Shard.name).insert name) := by
  by_cases hmem : name ∈ dir.shards.map Shard.name
  · -- an existing file is truncated
    rw [List.insert_of_mem hmem, Dir.create, if_pos hmem, List.map_map]
    refine .of_eq (List.map_congr_left fun sh _ ↦ ?_)
    show (if sh.name = name then (⟨name, []⟩ : Shard) else sh).name = sh.name
    split_ifs with hname
    · exact hname.symm
    · rfl
  · rw [List.insert_of_not_mem hmem, Dir.create_shards hmem, List.map_append]
    exact List.perm_append_comm

/-- The names in front of `pruneEntries`: those there were, and that of the new shard. -/
theorem names_attach_perm (d : DirectoryWriter Id) (id : Id) :
    ((d.release.attach U id).dir.shards.map Shard.name).Perm
      ((d.dir.shards.map Shard.name).insert (shardName U id)) := by
  have hrel : (d.release.draw id).dir.shards.map Shard.name = d.dir.shards.map Shard.name :=
    Dir.names_append
  rw [← hrel]
  exact Dir.names_create_perm _ _

omit [LinearOrder Id] in
/-- A call that takes no name away and does not panic is safe. -/
theorem safe_of_subset {dir : Dir Id} {r : Option LogError × DirectoryWriter Id}
    (hpanic : r.1 ≠ some .panic)
    (h : dir.shards.map Shard.name ⊆ r.2.dir.shards.map Shard.name) : Safe dir r :=
  ⟨hpanic, fun _ hn hnot ↦ absurd (h hn) hnot⟩

omit [LinearOrder Id] in
/-- Names of shards that come in between do not matter. -/
theorem safe_congr {dir dir' : Dir Id} {r : Option LogError × DirectoryWriter Id}
    (hsub : dir.shards.map Shard.name ⊆ dir'.shards.map Shard.name)
    (hnew : ∀ n ∈ dir'.shards.map Shard.name, n ∈ dir.shards.map Shard.name ∨ IsUlidName n) :
    Safe dir r ↔ Safe dir' r := by
  constructor
  · refine fun h ↦ ⟨h.inRange, fun n hn hnot ↦ ?_⟩
    rcases hnew n hn with hold | hname
    · exact h.removed n hold hnot
    · exact hname
  · exact fun h ↦ ⟨h.inRange, fun n hn hnot ↦ h.removed n (hsub hn) hnot⟩

/-- A rotation that comes to `pruneEntries`: it has an id and a file, and reads as many entries as
shards are to be kept. -/
theorem rotate_eq_pruneEntries {id : Id} (hid : env.id = some id) (hcreate : env.create = true)
    (hread : env.readDir = true)
    (hfull : d.shards ≤ ((d.dir.shards.map Shard.name).insert (shardName U id)).length) :
    d.rotate env = (d.release.attach U id).pruneEntries env := by
  rw [← (names_attach_perm d id).length_eq, List.length_map] at hfull
  rw [DirectoryWriter.rotate_of_create hid hcreate, DirectoryWriter.settle, if_pos hread]
  exact if_pos hfull

/-- One that does not is safe. -/
theorem safe_rotate_of_not (h : ∀ id, env.id = some id → env.create = true → env.readDir = true →
      ¬ d.shards ≤ ((d.dir.shards.map Shard.name).insert (shardName U id)).length) :
    Safe d.dir (d.rotate env) := by
  have hrel : d.dir.shards.map Shard.name ⊆ d.release.dir.shards.map Shard.name := fun n hn ↦ by
    rwa [show d.release.dir.shards.map Shard.name = d.dir.shards.map Shard.name from
      Dir.names_append]
  rcases hid : env.id with - | id
  · rw [show d.rotate env = (some .ulid, d.release) by rw [DirectoryWriter.rotate, hid]]
    exact safe_of_subset (by simp) hrel
  rcases hcreate : env.create with - | -
  · rw [show d.rotate env = (some .create, d.release.draw id) by
      simp [DirectoryWriter.rotate, hid, hcreate]]
    exact safe_of_subset (by simp) hrel
  have hattach : d.dir.shards.map Shard.name ⊆
      (d.release.attach U id).dir.shards.map Shard.name := fun n hn ↦
    (names_attach_perm d id).mem_iff.2 (List.mem_insert_of_mem hn)
  rw [DirectoryWriter.rotate_of_create hid hcreate, DirectoryWriter.settle]
  rcases hread : env.readDir with - | -
  · exact safe_of_subset (by simp) hattach
  · have hfull := h id hid hcreate hread
    rw [← (names_attach_perm d id).length_eq, List.length_map] at hfull
    rw [if_pos rfl, if_neg (by exact hfull)]
    exact safe_of_subset (by simp) hattach

/-- **The exact condition for pruning to be safe.** In every directory, for every number of shards
to be kept and over every sort: `pruneEntries` is safe exactly if the names in the directory are
prunable, and `rotate` exactly if, where it comes to prune, they are with the new shard's. -/
theorem rotate_safe_iff (hU : ∀ id, IsUlid (U.text id).toList) (d : DirectoryWriter Id)
    (env : RotateEnv U) (hshards : 1 ≤ d.shards) :
    ((∀ sort, Safe d.dir (d.pruneEntries (env.withSort sort))) ↔
      Prunable env d.shards (idsOf U (d.dir.shards.map Shard.name))) ∧
    ((∀ sort, Safe d.dir (d.rotate (env.withSort sort))) ↔
      ∀ id, env.id = some id → env.create = true → env.readDir = true →
        d.shards ≤ ((d.dir.shards.map Shard.name).insert (shardName U id)).length →
          Prunable env d.shards
            (idsOf U ((d.dir.shards.map Shard.name).insert (shardName U id)))) := by
  have hperm := diskEntries_perm_idsOf (U := U)
  refine ⟨(safe_pruneEntries_iff hshards).trans
    ⟨fun h ↦ h.perm (hperm _), fun h ↦ h.perm (hperm _).symm⟩, ?_⟩
  -- a rotation that does not prune removes nothing
  by_cases hprune : ∃ id, env.id = some id ∧ env.create = true ∧ env.readDir = true ∧
      d.shards ≤ ((d.dir.shards.map Shard.name).insert (shardName U id)).length
  · obtain ⟨id, hid, hcreate, hread, hfull⟩ := hprune
    have hattach := names_attach_perm (U := U) d id
    have hsafe : ∀ sort, Safe d.dir (d.rotate (env.withSort sort)) ↔
        Safe (d.release.attach U id).dir
          ((d.release.attach U id).pruneEntries (env.withSort sort)) := fun sort ↦ by
      rw [rotate_eq_pruneEntries (by exact hid) (by exact hcreate) (by exact hread) hfull]
      refine safe_congr (fun n hn ↦ hattach.mem_iff.2 (List.mem_insert_of_mem hn)) fun n hn ↦ ?_
      rcases List.mem_insert_iff.1 (hattach.mem_iff.1 hn) with rfl | hold
      · exact .inr (isUlidName_shardName hU id)
      · exact .inl hold
    have hids := (hperm (d.release.attach U id).dir).trans (hattach.filterMap (diskEntry U))
    rw [forall_congr' hsafe, safe_pruneEntries_iff (by exact hshards)]
    constructor
    · intro h id' hid' _ _ _
      obtain rfl := Option.some.inj (hid.symm.trans hid')
      exact h.perm hids
    · exact fun h ↦ (h id hid hcreate hread hfull).perm hids.symm
  · refine iff_of_true (fun sort ↦ safe_rotate_of_not fun id hid hcreate hread hfull ↦ ?_)
      fun id hid hcreate hread hfull ↦ ?_
    · exact hprune ⟨id, hid, hcreate, hread, hfull⟩
    · exact absurd ⟨id, hid, hcreate, hread, hfull⟩ hprune

end Prune

end Foreign

/-! ### A directory with one other file -/

/-- The directory with one file in it that is not a shard, as `NewDirectoryWriter` finds it. -/
def dirBeside {Id : Type*} (name : String) : Dir Id := ⟨[⟨name, []⟩], [], []⟩

section Beside

variable {Id : Type*} [LinearOrder Id] {U : Ulid Id} (hU : ∀ id, IsUlid (U.text id).toList)
  {name : String} (hname : ¬ IsUlidName name) {id₀ id₁ : Id} (hne : id₁ ≠ id₀) {max shards : ℤ}
  {d : DirectoryWriter Id}
  (hd : newDirectoryWriter U (dirBeside name) max shards (some id₀) true = .ok d)
include hU hname hne hd

/-- The names after the first rotation, before anything is removed. -/
theorem insert_beside : (d.dir.shards.map Shard.name).insert (shardName U id₁) =
    [shardName U id₁, name, shardName U id₀] := by
  have hother : ∀ id, shardName U id ≠ name := fun id heq ↦
    hname (heq ▸ isUlidName_shardName hU id)
  have hnames : d.dir.shards.map Shard.name = [name, shardName U id₀] := by
    cases hd
    show List.map Shard.name (Dir.create _ (shardName U id₀)).shards = _
    rw [Dir.create_shards (by simpa [dirBeside] using hother id₀)]
    rfl
  rw [hnames, List.insert_of_not_mem]
  simpa [hother id₁] using fun heq ↦ hne (shardName_injective heq)

/-- The ids `pruneEntries` finds then: those of the two shards, and that of the file if it has
one. -/
theorem idsOf_insert_beside :
    (idsOf U ((d.dir.shards.map Shard.name).insert (shardName U id₁))).Perm
      ((diskEntry U name).toList ++ [(id₁, shardName U id₁), (id₀, shardName U id₀)]) := by
  rw [idsOf, insert_beside hU hname hne hd, List.filterMap_cons_some (diskEntry_shardName id₁)]
  rcases he : diskEntry U name with - | e
  · rw [List.filterMap_cons_none he, List.filterMap_cons_some (diskEntry_shardName id₀)]
    exact .refl _
  · rw [List.filterMap_cons_some he, List.filterMap_cons_some (diskEntry_shardName id₀)]
    exact .swap _ _ _

theorem idsOf_attach_beside :
    (idsOf U ((d.release.attach U id₁).dir.shards.map Shard.name)).Perm
      ((diskEntry U name).toList ++ [(id₁, shardName U id₁), (id₀, shardName U id₀)]) :=
  ((names_attach_perm d id₁).filterMap (diskEntry U)).trans (idsOf_insert_beside hU hname hne hd)

variable {env : RotateEnv U} (hid : env.id = some id₁) (hcreate : env.create = true)
  (hread : env.readDir = true)
include hid hcreate hread

theorem rotate_beside (hshards : d.shards ≤ 3) :
    d.rotate env = (d.release.attach U id₁).pruneEntries env := by
  refine rotate_eq_pruneEntries hid hcreate hread ?_
  rw [insert_beside hU hname hne hd]
  exact hshards

/-- Beside a file without an id, the rotation to a second shard panics where three are to be
kept. -/
theorem rotate_beside_eq_panic (hnone : diskEntry U name = none) (hshards : d.shards = 3) :
    (d.rotate env).1 = some .panic := by
  rw [rotate_beside hU hname hne hd hid hcreate hread hshards.le, pruneEntries_of_lt ?_]
  rw [((diskEntries_perm_idsOf _).trans (idsOf_attach_beside hU hname hne hd)).length_eq, hnone,
    show (d.release.attach U id₁).shards = 3 from hshards]
  exact (by decide : (2 : ℤ) < 3)

/-- Beside a file with the oldest id, it removes the file where two are to be kept. -/
theorem notMem_rotate_beside {e : Id × String} (he : diskEntry U name = some e)
    (h₀ : U.time e.1 < U.time id₀) (h₁ : U.time e.1 < U.time id₁) (hstuck : env.stuck name = false)
    (hshards : d.shards = 2) : name ∉ (d.rotate env).2.dir.shards.map Shard.name := by
  have hids := idsOf_attach_beside hU hname hne hd
  have hshards' : (d.release.attach U id₁).shards = 2 := hshards
  rw [he] at hids
  rw [rotate_beside hU hname hne hd hid hcreate hread (by omega)]
  obtain rfl := snd_of_diskEntry he
  refine notMem_pruneEntries_of_oldest (by omega) hids (fun e' he' ↦ ?_) hshards'.le hstuck
  rcases List.mem_pair.1 he' with rfl | rfl
  · exact h₁
  · exact h₀

end Beside

/-- The rotation of a new writer, to a shard drawn a millisecond after its first one. -/
def firstRotation : RotateEnv ulid128 :=
  (WriteEnv.ordinary ulid128 (ulidAt 1700000000000 0) (ulidAt 1700000000001 0)).toRotateEnv

theorem rotate_safe_beside_readme :
    ∃ d, newDirectoryWriter ulid128 (dirBeside "README") 1 2 (some (ulidAt 1700000000000 0)) true =
        .ok d ∧ 1 ≤ d.shards ∧
      ∀ sort, Safe d.dir (d.rotate (firstRotation.withSort sort)) := by
  obtain ⟨d, hd, hshards⟩ : ∃ d, newDirectoryWriter ulid128 (dirBeside "README") 1 2
      (some (ulidAt 1700000000000 0)) true = .ok d ∧ d.shards = 2 := ⟨_, rfl, rfl⟩
  have hle : 1 ≤ d.shards := by
    rw [hshards]
    decide
  refine ⟨d, hd, hle, (rotate_safe_iff isUlid_text_ulid128 d firstRotation hle).2.2 ?_⟩
  rintro id hid - - -
  obtain rfl := Option.some.inj hid
  refine .perm ?_ (idsOf_insert_beside isUlid_text_ulid128 (by decide) (by decide) hd).symm
  rw [show diskEntry ulid128 "README" = none by decide, hshards]
  refine ⟨le_refl 2, fun e he hnot ↦ absurd ?_ hnot⟩
  rcases List.mem_pair.1 he with rfl | rfl
  · exact isUlidName_shardName isUlid_text_ulid128 _
  · exact isUlidName_shardName isUlid_text_ulid128 _

/-- **One other file, and the rotation panics or removes it**, whatever the sort: a file without an
extension, where three shards are to be kept, and one whose name happens to have 26 characters in
front of its dot, where two are. -/
theorem rotate_not_safe :
    (∃ d, newDirectoryWriter ulid128 (dirBeside "README") 1 3 (some (ulidAt 1700000000000 0)) true =
        .ok d ∧ 1 ≤ d.shards ∧
      ∀ sort, (d.rotate (firstRotation.withSort sort)).1 = some .panic ∧
        ¬ Safe d.dir (d.rotate (firstRotation.withSort sort))) ∧
    ∃ d, newDirectoryWriter ulid128 (dirBeside "001-database-migrate-users.sql") 1 2
        (some (ulidAt 1700000000000 0)) true = .ok d ∧ 1 ≤ d.shards ∧
      ∀ sort, "001-database-migrate-users.sql" ∉
          (d.rotate (firstRotation.withSort sort)).2.dir.shards.map Shard.name ∧
        ¬ Safe d.dir (d.rotate (firstRotation.withSort sort)) := by
  have hne : ulidAt 1700000000001 0 ≠ ulidAt 1700000000000 0 := by decide
  constructor
  · obtain ⟨d, hd, hshards⟩ : ∃ d, newDirectoryWriter ulid128 (dirBeside "README") 1 3
        (some (ulidAt 1700000000000 0)) true = .ok d ∧ d.shards = 3 := ⟨_, rfl, rfl⟩
    refine ⟨d, hd, by rw [hshards]; decide, fun sort ↦ ?_⟩
    have hpanic : (d.rotate (firstRotation.withSort sort)).1 = some .panic :=
      rotate_beside_eq_panic isUlid_text_ulid128 (by decide) hne hd rfl rfl rfl (by decide) hshards
    exact ⟨hpanic, fun h ↦ h.inRange hpanic⟩
  · obtain ⟨d, hd, hshards, hmem⟩ : ∃ d, newDirectoryWriter ulid128
        (dirBeside "001-database-migrate-users.sql") 1 2 (some (ulidAt 1700000000000 0)) true =
          .ok d ∧ d.shards = 2 ∧ "001-database-migrate-users.sql" ∈ d.dir.shards.map Shard.name :=
      ⟨_, rfl, rfl, List.mem_cons_self⟩
    have hname : ¬ IsUlidName "001-database-migrate-users.sql" := by decide
    refine ⟨d, hd, by rw [hshards]; decide, fun sort ↦ ?_⟩
    have hgone : "001-database-migrate-users.sql" ∉
        (d.rotate (firstRotation.withSort sort)).2.dir.shards.map Shard.name :=
      notMem_rotate_beside isUlid_text_ulid128 hname hne hd rfl rfl rfl rfl (by decide +kernel)
        (by decide +kernel) rfl hshards
    exact ⟨hgone, fun h ↦ hname (h.removed _ hmem hgone)⟩

end Log
