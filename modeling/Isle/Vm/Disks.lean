import Isle.Go.Files
import Isle.Vm.Bytesize

/-!
# The disk images of the virtual machine

How `VM.Run` of `vm/vm.go` prepares the two images that the guest writes to, `data.fs` and
`user.fs`: an image that is not there is created, one that is smaller than the configured size is
made larger, and one that is larger is left alone.

The two blocks are the same but for the paths, and one of the paths is wrong: the block for the data
disk looks at the size of `data.fs` and then **resizes `user.fs`**. So a data disk is never made
larger, and a user disk is cut to the size of the data disk, if it is larger, and then filled up
with zeros by its own block. `disksGrown_iff`: the images are as they should be exactly if
`data.fs` does not have to grow.
-/

open Function (update update_self update_of_ne)

namespace Vm

open Filepath Bytesize Files

/-! ### The two blocks -/

/-- Why `VM.Run` does not get past the disks. -/
inductive Stop
  | invalidSize (e : ParseError)
  | panic
  deriving DecidableEq, Repr

/-- The part of the configuration that is about disks. -/
structure DiskConfig where
  dataSize : String
  userSize : String
  deriving DecidableEq, Repr

/-- The disk of the system. -/
def dataPath (stateDir : Path) : Path := join stateDir "data.fs"

/-- The disk of the user. -/
def userPath (stateDir : Path) : Path := join stateDir "user.fs"

/-- `os.OpenFile` and `f.Truncate`, each of whose errors is a panic. -/
def resize (p : Path) (size : Int64) : EStateM Stop Files Unit := do
  match (← get).truncateFile p size.toInt with
  | some fs => set fs
  | none => throw .panic

/-- The block of a disk: the image at `path` is looked at, and the one at `opened` is resized if
that is too small. -/
def prepareDisk (path opened : Path) (banner config : String) : EStateM Stop Files Unit := do
  match parse config with
  | .error e => throw (.invalidSize e)
  | .ok bs =>
    match (← get) path with
    | some old => if old.length < bs.bytes.toInt then resize opened bs.bytes
    | none =>
      modify fun fs ↦ (fs.create path).write path (banner ++ "\n").toUTF8.toList
      resize path bs.bytes

/-- The data disk. -/
def prepareDataDisk (stateDir : Path) (config : String) : EStateM Stop Files Unit :=
  prepareDisk (dataPath stateDir) (userPath stateDir) "data" config

/-- The user disk. -/
def prepareUserDisk (stateDir : Path) (config : String) : EStateM Stop Files Unit :=
  prepareDisk (userPath stateDir) (userPath stateDir) "user" config

/-- The two disks, one after the other. -/
def prepareDisks (stateDir : Path) (config : DiskConfig) : EStateM Stop Files Unit := do
  prepareDataDisk stateDir config.dataSize
  prepareUserDisk stateDir config.userSize

/-! ### What a block does -/

/-- **What becomes of an image.** It has the configured size, or keeps its own if that is larger,
and all that was in it is still there. -/
def Grown (size : Int64) (new : Option Bytes) : Option Bytes → Prop
  | none => ∃ bs, new = some bs ∧ (bs.length : ℤ) = size.toInt
  | some old => ∃ bs, new = some bs ∧ (bs.length : ℤ) = max ↑old.length size.toInt ∧ old <+: bs

section Blocks

variable {fs fs' : Files} {p path opened : Path} {banner config : String} {bs : ByteSize}

variable {old : Bytes}

theorem run_resize (hp : fs p = some old) (hsize : 0 ≤ bs.bytes.toInt) :
    (resize p bs.bytes).run fs =
      .ok () (update fs p (some (truncate bs.bytes.toInt.toNat old))) := by
  simp only [resize, truncateFile, EStateM.run_bind, EStateM.run_get, hp, if_pos hsize]
  rfl

/-- Nothing but the file that was opened changes. -/
theorem frame_resize {q : Path} {size : Int64} (h : (resize p size).run fs = .ok () fs')
    (hq : q ≠ p) : fs' q = fs q := by
  simp only [resize, truncateFile, EStateM.run_bind, EStateM.run_get] at h
  split at h
  · next fs₁ hfs₁ =>
    cases h
    split at hfs₁
    · obtain ⟨-, hfs₁⟩ := Option.ite_none_right_eq_some.1 hfs₁
      cases hfs₁
      exact update_of_ne hq ..
    · cases hfs₁
  · cases h

theorem run_prepareDisk (h : parse config = .ok bs) :
    (prepareDisk path opened banner config).run fs =
      match fs path with
      | some old =>
        if old.length < bs.bytes.toInt then (resize opened bs.bytes).run fs else .ok () fs
      | none =>
        (resize path bs.bytes).run
          ((fs.create path).write path (banner ++ "\n").toUTF8.toList) := by
  simp only [prepareDisk, h, EStateM.run_bind, EStateM.run_get]
  cases hp : fs path with
  | none => rfl
  | some old =>
    dsimp only
    split <;> rfl

/-- An image that is not there is created with its size. -/
theorem prepareDisk_of_none (h : parse config = .ok bs) (hsize : 0 ≤ bs.bytes.toInt)
    (hp : fs path = none) :
    ∃ fs', (prepareDisk path opened banner config).run fs = .ok () fs' ∧
      Grown bs.bytes (fs' path) (fs path) ∧ ∀ q ≠ path, fs' q = fs q := by
  have hwrite : ∀ data, ((fs.create path).write path data) path = some data := by
    intro data
    simp [Files.write, Files.create]
  rw [run_prepareDisk h, hp]
  dsimp only
  rw [run_resize (hwrite _) hsize]
  refine ⟨_, rfl, ⟨_, update_self .., ?_⟩, fun q hq ↦ ?_⟩
  · rw [length_truncate, Int.toNat_of_nonneg hsize]
  · simp [Files.write, Files.create, hq]

/-- An image that is large enough is left alone. -/
theorem prepareDisk_of_le (h : parse config = .ok bs) (hp : fs path = some old)
    (hle : bs.bytes.toInt ≤ old.length) :
    (prepareDisk path opened banner config).run fs = .ok () fs := by
  rw [run_prepareDisk h, hp]
  exact if_neg (Int.not_lt.2 hle)

theorem grown_self (hle : bs.bytes.toInt ≤ old.length) : Grown bs.bytes (some old) (some old) :=
  ⟨old, rfl, (Int.max_eq_left hle).symm, List.prefix_rfl⟩

/-- **A block that resizes the image it looks at** does what it should. -/
theorem prepareDisk_grown (h : parse config = .ok bs) (hsize : 0 ≤ bs.bytes.toInt) (fs : Files) :
    ∃ fs', (prepareDisk path path banner config).run fs = .ok () fs' ∧
      Grown bs.bytes (fs' path) (fs path) ∧ ∀ q ≠ path, fs' q = fs q := by
  cases hp : fs path with
  | none =>
    rw [← hp]
    exact prepareDisk_of_none h hsize hp
  | some old =>
    rcases Int.lt_or_le old.length bs.bytes.toInt with hlt | hle
    · rw [run_prepareDisk h, hp]
      dsimp only
      rw [if_pos hlt, run_resize hp hsize]
      have hlen : ((truncate bs.bytes.toInt.toNat old).length : ℤ) = bs.bytes.toInt := by
        rw [length_truncate, Int.toNat_of_nonneg hsize]
      refine ⟨_, rfl, ⟨_, update_self .., ?_, prefix_truncate ?_⟩,
        fun q hq ↦ update_of_ne hq ..⟩
      · rw [hlen, Int.max_eq_right (Int.le_of_lt hlt)]
      · omega
    · exact ⟨fs, prepareDisk_of_le h hp hle, hp ▸ grown_self hle, fun _ _ ↦ rfl⟩

/-- **A block that resizes another image** leaves one that is too small as it is. -/
theorem prepareDisk_of_lt (h : parse config = .ok bs) (hp : fs path = some old)
    (hlt : old.length < bs.bytes.toInt) (hne : path ≠ opened)
    (hrun : (prepareDisk path opened banner config).run fs = .ok () fs') : fs' path = some old := by
  rw [run_prepareDisk h, hp] at hrun
  dsimp only at hrun
  rw [if_pos hlt] at hrun
  rw [frame_resize hrun hne, hp]

end Blocks

/-! ### Both blocks -/

theorem dataPath_ne_userPath (stateDir : Path) : dataPath stateDir ≠ userPath stateDir := by
  rw [dataPath, userPath, join_of_isChildName ⟨by decide, by decide, by decide, by decide⟩,
    join_of_isChildName ⟨by decide, by decide, by decide, by decide⟩]
  simp

/-- **The disks are prepared**: `VM.Run` gets past them, and both images have become what they
should. -/
def DisksGrown (stateDir : Path) (config : DiskConfig) (dataSize userSize : Int64) (fs : Files) :
    Prop :=
  ∃ fs', (prepareDisks stateDir config).run fs = .ok () fs' ∧
    Grown dataSize (fs' (dataPath stateDir)) (fs (dataPath stateDir)) ∧
    Grown userSize (fs' (userPath stateDir)) (fs (userPath stateDir))

theorem run_prepareDisks {stateDir : Path} {config : DiskConfig} {fs fs' : Files}
    (h : (prepareDisks stateDir config).run fs = .ok () fs') :
    ∃ fs₁, (prepareDataDisk stateDir config.dataSize).run fs = .ok () fs₁ ∧
      (prepareUserDisk stateDir config.userSize).run fs₁ = .ok () fs' := by
  rw [prepareDisks, EStateM.run_bind] at h
  split at h
  · next fs₁ hrun₁ => exact ⟨fs₁, hrun₁, h⟩
  · cases h

/-- **The disks, exactly.** For sizes that are not negative, neither image loses anything and each
has its size, or a larger one that it had, if and only if `data.fs` is not there or is not smaller
than its size. -/
theorem disksGrown_iff (stateDir : Path) (config : DiskConfig) (dataSize userSize : ByteSize)
    (hdata : parse config.dataSize = .ok dataSize) (huser : parse config.userSize = .ok userSize)
    (hdata0 : 0 ≤ dataSize.bytes.toInt) (huser0 : 0 ≤ userSize.bytes.toInt) (fs : Files) :
    DisksGrown stateDir config dataSize.bytes userSize.bytes fs ↔
      ∀ old, fs (dataPath stateDir) = some old → dataSize.bytes.toInt ≤ old.length := by
  have hne := dataPath_ne_userPath stateDir
  have hsecond : ∀ fs, ∃ fs', (prepareUserDisk stateDir config.userSize).run fs = .ok () fs' ∧
      Grown userSize.bytes (fs' (userPath stateDir)) (fs (userPath stateDir)) ∧
        ∀ q ≠ userPath stateDir, fs' q = fs q := prepareDisk_grown huser huser0
  constructor
  · rintro ⟨fs', hrun, hgrown, -⟩ old hold
    by_contra hnot
    have hlt : old.length < dataSize.bytes.toInt := Int.not_le.1 hnot
    obtain ⟨fs₁, hrun₁, hrun₂⟩ := run_prepareDisks hrun
    have hold₁ : fs₁ (dataPath stateDir) = some old := prepareDisk_of_lt hdata hold hlt hne hrun₁
    obtain ⟨fs₂, hrun₂', -, hframe₂⟩ := hsecond fs₁
    obtain rfl : fs₂ = fs' := by
      have hsame := hrun₂'.symm.trans hrun₂
      cases hsame
      rfl
    -- the image is what it was, and that is too small
    rw [hold] at hgrown
    obtain ⟨bs, hbs, hlen, -⟩ := hgrown
    rw [hframe₂ _ hne, hold₁] at hbs
    cases hbs
    rw [Int.max_eq_right (Int.le_of_lt hlt)] at hlen
    omega
  · intro hlarge
    have hfirst : ∃ fs₁, (prepareDataDisk stateDir config.dataSize).run fs = .ok () fs₁ ∧
        Grown dataSize.bytes (fs₁ (dataPath stateDir)) (fs (dataPath stateDir)) ∧
        ∀ q ≠ dataPath stateDir, fs₁ q = fs q := by
      cases hold : fs (dataPath stateDir) with
      | none => exact hold ▸ prepareDisk_of_none hdata hdata0 hold
      | some old =>
        exact ⟨fs, prepareDisk_of_le hdata hold (hlarge old hold),
          hold ▸ grown_self (hlarge old hold), fun _ _ ↦ rfl⟩
    obtain ⟨fs₁, hrun₁, hgrown₁, hframe₁⟩ := hfirst
    obtain ⟨fs₂, hrun₂, hgrown₂, hframe₂⟩ := hsecond fs₁
    refine ⟨fs₂, ?_, ?_, ?_⟩
    · rw [prepareDisks, EStateM.run_bind, hrun₁]
      exact hrun₂
    · rw [hframe₂ _ hne]
      exact hgrown₁
    · rw [← hframe₁ _ hne.symm]
      exact hgrown₂

/-- The images of a virtual machine, by their bytes. -/
def images (stateDir : Path) (data user : Option Bytes) : Files := fun p ↦
  if p = dataPath stateDir then data else if p = userPath stateDir then user else none

/-- New images of a kilobyte each. -/
theorem disksGrown_of_new :
    parse "1KB" = .ok ⟨1000⟩ ∧
      DisksGrown ["isle"] ⟨"1KB", "1KB"⟩ 1000 1000 (images ["isle"] none none) := by
  have hparse : parse "1KB" = .ok ⟨1000⟩ := rfl
  refine ⟨hparse, (disksGrown_iff ["isle"] ⟨"1KB", "1KB"⟩ ⟨1000⟩ ⟨1000⟩ hparse hparse (by decide)
    (by decide) _).2 fun old hold ↦ ?_⟩
  rw [images, if_pos rfl] at hold
  cases hold

/-- **A data disk that has to grow cuts the user disk.** Of two kilobytes of the user one is lost,
and `data.fs` is still empty. -/
theorem not_disksGrown_of_small_data :
    ∃ fs', (prepareDisks ["isle"] ⟨"1KB", "1KB"⟩).run
        (images ["isle"] (some []) (some (List.replicate 2000 1))) = .ok () fs' ∧
      fs' (dataPath ["isle"]) = some [] ∧
      fs' (userPath ["isle"]) = some (List.replicate 1000 1) ∧
      ¬ DisksGrown ["isle"] ⟨"1KB", "1KB"⟩ 1000 1000
        (images ["isle"] (some []) (some (List.replicate 2000 1))) := by
  have hparse : parse "1KB" = .ok ⟨1000⟩ := rfl
  have hne := dataPath_ne_userPath ["isle"]
  have hdata : images ["isle"] (some []) (some (List.replicate 2000 1)) (dataPath ["isle"]) =
      some [] := if_pos rfl
  have huser : images ["isle"] (some []) (some (List.replicate 2000 1)) (userPath ["isle"]) =
      some (List.replicate 2000 1) := (if_neg hne.symm).trans (if_pos rfl)
  generalize images ["isle"] (some []) (some (List.replicate 2000 1)) = fs at hdata huser ⊢
  have hcut : truncate (1000 : Int64).toInt.toNat (List.replicate 2000 1) =
      List.replicate 1000 1 := by
    rw [truncate, List.take_replicate, List.length_replicate]
    exact List.append_nil _
  have hfirst : (prepareDataDisk ["isle"] "1KB").run fs =
      .ok () (update fs (userPath ["isle"]) (some (List.replicate 1000 1))) := by
    rw [prepareDataDisk, run_prepareDisk hparse, hdata]
    show (resize (userPath ["isle"]) (1000 : Int64)).run fs = _
    rw [@run_resize fs _ ⟨1000⟩ _ huser (by decide), hcut]
  have hsecond : (prepareUserDisk ["isle"] "1KB").run
      (update fs (userPath ["isle"]) (some (List.replicate 1000 1))) =
      .ok () (update fs (userPath ["isle"]) (some (List.replicate 1000 1))) :=
    prepareDisk_of_le hparse (update_self ..) (by rw [List.length_replicate]; decide)
  have hrun : (prepareDisks ["isle"] ⟨"1KB", "1KB"⟩).run fs =
      .ok () (update fs (userPath ["isle"]) (some (List.replicate 1000 1))) := by
    rw [prepareDisks, EStateM.run_bind, hfirst]
    exact hsecond
  have hsame : update fs (userPath ["isle"]) (some (List.replicate 1000 1))
      (dataPath ["isle"]) = some [] := (update_of_ne hne ..).trans hdata
  refine ⟨_, hrun, hsame, update_self .., ?_⟩
  rintro ⟨fs', hrun', hgrown, -⟩
  rw [hrun] at hrun'
  cases hrun'
  rw [hdata, hsame] at hgrown
  obtain ⟨bs, hbs, hlen, -⟩ := hgrown
  cases hbs
  exact absurd hlen (by decide)

end Vm
