import Isle.Xuser.Groups
import Mathlib.Algebra.Ring.Int.Defs

/-!
# The identity of a session

Which user `handleSSH` of `guest/guest.go` starts a process as. The ids are those in the container's
`/etc/passwd` and `/etc/group`. `xuser` takes a row if they are integers of 64 bits, and `handleSSH`
makes 32 unsigned bits of them, **so that a row with a larger or a negative id is that of another
user, and may be that of root** (`sameIds_iff`).
-/

open Text Xuser

namespace Guest.Identity

/-- `specs.User` -/
structure SpecUser where
  uid : UInt32
  gid : UInt32
  additionalGids : List UInt32
  username : Bytes
  deriving DecidableEq, Repr

/-- The conversion of an `int` to `uint32`, which keeps the low bits. -/
def uint32 (i : Int64) : UInt32 := UInt32.ofInt i.toInt

/-- An id, or another where it is no number. -/
def toId (fallback : UInt32) (s : Bytes) : UInt32 :=
  match atoi s with
  | .ok i => uint32 i
  | .error _ => fallback

/-- The ids of the groups, as far as they are numbers. -/
def gidsOf (groups : List Group) : List UInt32 :=
  groups.filterMap fun grp ↦ (atoi grp.gid).toOption.map uint32

/-- The group that Docker uses is added if there is one and the user is not in it. -/
def withDocker {α : Type*} [DecidableEq α] [OfNat α 999] (gids : List α) (hasGroup : Bool) :
    List α :=
  if 999 ∉ gids ∧ hasGroup = true then gids ++ [999] else gids

variable {ε : Type*}

/-- There is a group with that id. -/
def hasGroup (groupFile : Except ε (Source ε)) (gid : Bytes) : Bool :=
  (lookupGroupId groupFile gid).toBool

/-- The groups of the user. An error is passed over. -/
def additionalGroups (groupFile : Except ε (Source ε)) (user : Bytes) :
    Except (LookupError ε) (List Group) :=
  match lookupAdditionalGroups groupFile user with
  | .ok groups => .ok groups
  | .error .panicked => .error .panicked
  | .error _ => .ok []

/-- The part of `handleSSH` that sets `sp.User`; the session ends at an error. -/
def sessionUser (asRoot : Bool) (user : Bytes) (passwd group : Except ε (Source ε)) :
    Except (LookupError ε) SpecUser := do
  if asRoot then
    return { uid := 0, gid := 0, additionalGids := [], username := ascii "root" }
  let u ← lookupUser passwd user
  let groups ← additionalGroups group user
  return {
    uid := toId 501 u.uid
    gid := toId 1000 u.gid
    additionalGids := withDocker (gidsOf groups) (hasGroup group (ascii "999"))
    username := user }

/-! ### The numbers in the rows -/

/-- The number in a row. -/
def decimal (s : Bytes) : ℤ := Strconv.decimalValue (s.map fun b ↦ Char.ofNat b.toNat)

/-- A number of 32 unsigned bits. -/
def Fits (z : ℤ) : Prop := 0 ≤ z ∧ z < 2 ^ 32

instance (z : ℤ) : Decidable (Fits z) := inferInstanceAs (Decidable (_ ∧ _))

/-- The process has the ids in the rows. -/
structure SameIds (sp : SpecUser) (u : User) (groups : List Group) (hasDocker : Bool) : Prop where
  uid : (sp.uid.toNat : ℤ) = decimal u.uid
  gid : (sp.gid.toNat : ℤ) = decimal u.gid
  additionalGids : sp.additionalGids.map (fun g ↦ (g.toNat : ℤ)) =
    withDocker (groups.map fun g ↦ decimal g.gid) hasDocker

theorem exists_of_isInteger {s : Bytes} (h : IsInteger s) :
    ∃ i, atoi s = .ok i ∧ i.toInt = decimal s := by
  unfold IsInteger at h
  cases hs : atoi s with
  | error e => simp [hs, Except.toOption] at h
  | ok i => exact ⟨i, rfl, Strconv.parseInt_eq_ok hs⟩

theorem toNat_uint32 (i : Int64) : ((uint32 i).toNat : ℤ) = i.toInt % 2 ^ 32 := by
  rw [uint32, UInt32.ofInt, UInt32.toNat_ofNat']
  omega

theorem emod_eq_iff (z : ℤ) : z % 2 ^ 32 = z ↔ Fits z := by
  rw [Fits]
  omega

theorem toNat_toId (fallback : UInt32) {s : Bytes} (h : IsInteger s) :
    ((toId fallback s).toNat : ℤ) = decimal s % 2 ^ 32 := by
  obtain ⟨i, hi, hval⟩ := exists_of_isInteger h
  rw [toId, hi, ← hval]
  exact toNat_uint32 i

theorem map_gidsOf {groups : List Group} (h : ∀ g ∈ groups, IsInteger g.gid) :
    (gidsOf groups).map (fun g ↦ (g.toNat : ℤ)) = groups.map fun g ↦ decimal g.gid % 2 ^ 32 := by
  induction groups with
  | nil => rfl
  | cons g groups ih =>
    obtain ⟨hg, hgs⟩ := List.forall_mem_cons.1 h
    obtain ⟨i, hi, hval⟩ := exists_of_isInteger hg
    have hsome : (atoi g.gid).toOption.map uint32 = some (uint32 i) := by rw [hi]; rfl
    have hcons : gidsOf (g :: groups) = uint32 i :: gidsOf groups := by
      simp only [gidsOf, List.filterMap_cons, hsome]
    rw [hcons, List.map_cons, List.map_cons, ih hgs, toNat_uint32, hval]

theorem map_withDocker (gids : List UInt32) (hasDocker : Bool) :
    (withDocker gids hasDocker).map (fun g ↦ (g.toNat : ℤ)) =
      withDocker (gids.map fun g ↦ (g.toNat : ℤ)) hasDocker := by
  have hmem : (999 : ℤ) ∈ gids.map (fun g ↦ (g.toNat : ℤ)) ↔ (999 : UInt32) ∈ gids := by
    rw [List.mem_map]
    constructor
    · rintro ⟨g, hg, hval⟩
      have h999 : g = 999 := UInt32.toNat_inj.1 (by exact_mod_cast hval)
      exact h999 ▸ hg
    · exact fun h ↦ ⟨999, h, rfl⟩
  rw [withDocker, withDocker, if_congr (and_congr_left' (not_congr hmem)) rfl rfl]
  split_ifs
  · rw [List.map_append]
    rfl
  · rfl

theorem mem_withDocker {z : ℤ} {gids : List ℤ} {hasDocker : Bool} :
    (z ∈ gids → z ∈ withDocker gids hasDocker) ∧
      (z ∈ withDocker gids hasDocker → z ∈ gids ∨ z = 999) := by
  rw [withDocker]
  split_ifs <;> simp +contextual

/-- The groups are those in the rows exactly if their ids fit. -/
theorem withDocker_eq_iff (ids : List ℤ) (hasDocker : Bool) :
    withDocker (ids.map (· % 2 ^ 32)) hasDocker = withDocker ids hasDocker ↔
      ∀ z ∈ ids, Fits z := by
  constructor
  · intro h z hz
    have hmem : z ∈ withDocker (ids.map (· % 2 ^ 32)) hasDocker := h ▸ mem_withDocker.1 hz
    rcases mem_withDocker.2 hmem with hmod | rfl
    · obtain ⟨w, -, rfl⟩ := List.mem_map.1 hmod
      rw [Fits]
      omega
    · decide
  · intro h
    rw [show ids.map (· % 2 ^ 32) = ids from
      (List.map_congr_left fun z hz ↦ (emod_eq_iff z).2 (h z hz)).trans (List.map_id ids)]

theorem isInteger_of_additionalGroups {group : Except ε (Source ε)} {user : Bytes}
    {groups : List Group} (h : additionalGroups group user = .ok groups) :
    ∀ g ∈ groups, IsInteger g.gid := by
  unfold additionalGroups at h
  split at h
  · next hok => exact isInteger_of_lookupAdditionalGroups (hok.trans h)
  · cases h
  · rw [← Except.ok.inj h]
    exact nofun

/-- **The process has the ids in the rows exactly if these fit into 32 bits.** -/
theorem sameIds_iff {user : Bytes} {passwd group : Except ε (Source ε)} {u : User}
    {groups : List Group} (hu : lookupUser passwd user = .ok u)
    (hgroups : additionalGroups group user = .ok groups) :
    (∀ sp, sessionUser false user passwd group = .ok sp →
        SameIds sp u groups (hasGroup group (ascii "999"))) ↔
      Fits (decimal u.uid) ∧ Fits (decimal u.gid) ∧ ∀ g ∈ groups, Fits (decimal g.gid) := by
  have hsp : sessionUser false user passwd group = .ok
      { uid := toId 501 u.uid
        gid := toId 1000 u.gid
        additionalGids := withDocker (gidsOf groups) (hasGroup group (ascii "999"))
        username := user } := by
    rw [sessionUser, hu, hgroups]
    rfl
  obtain ⟨huid, hgid⟩ := isInteger_of_lookupUser hu
  have hids := isInteger_of_additionalGroups hgroups
  have hlist := withDocker_eq_iff (groups.map fun g ↦ decimal g.gid) (hasGroup group (ascii "999"))
  rw [List.map_map, List.forall_mem_map] at hlist
  rw [← emod_eq_iff, ← emod_eq_iff, ← toNat_toId 501 huid, ← toNat_toId 1000 hgid, ← hlist]
  constructor
  · intro h
    obtain ⟨hu', hg', hadd⟩ := h _ hsp
    refine ⟨hu', hg', ?_⟩
    rwa [map_withDocker, map_gidsOf hids] at hadd
  · rintro ⟨hu', hg', hadd⟩ sp hsp'
    obtain rfl := Except.ok.inj (hsp.symm.trans hsp')
    refine ⟨hu', hg', ?_⟩
    rwa [map_withDocker, map_gidsOf hids]

/-- A row for `bob`. -/
def passwdRow (uid : String) : Except Unit (Source Unit) :=
  .ok ⟨ascii ("bob:x:" ++ uid ++ ":20::/home/bob:/bin/sh"), none⟩

/-- The user in the row. -/
def rowUser (uid : String) : User :=
  ⟨ascii uid, ascii "20", ascii "bob", [], ascii "/home/bob", ascii "/bin/sh"⟩

theorem sameIds_of_small_ids :
    (∀ sp, sessionUser false (ascii "bob") (passwdRow "501") (.ok ⟨ascii "wheel:x:10:bob", none⟩) =
        .ok sp → SameIds sp (rowUser "501") [⟨ascii "10", ascii "wheel", [ascii "bob"]⟩]
          (hasGroup (.ok ⟨ascii "wheel:x:10:bob", none⟩ : Except Unit (Source Unit))
            (ascii "999"))) ↔
      Fits (decimal (ascii "501")) ∧ Fits (decimal (ascii "20")) ∧
        ∀ g ∈ [(⟨ascii "10", ascii "wheel", [ascii "bob"]⟩ : Group)], Fits (decimal g.gid) :=
  sameIds_iff (by decide +kernel) (by decide +kernel)

/-- The user with the id 2³² is root. -/
theorem sessionUser_wraps_to_root :
    lookupUser (passwdRow "4294967296") (ascii "bob") = .ok (rowUser "4294967296") ∧
      decimal (rowUser "4294967296").uid = 4294967296 ∧
      ∃ sp, sessionUser false (ascii "bob") (passwdRow "4294967296") (.error ()) = .ok sp ∧
        sp.uid = 0 ∧ ∀ groups hasDocker, ¬ SameIds sp (rowUser "4294967296") groups hasDocker := by
  have huid : decimal (rowUser "4294967296").uid = 4294967296 := by decide +kernel
  refine ⟨by decide +kernel, huid, ⟨0, 20, [], ascii "bob"⟩, by decide +kernel, rfl, ?_⟩
  intro groups hasDocker h
  have hsame := h.uid
  rw [huid] at hsame
  exact absurd hsame (by decide)

end Guest.Identity
