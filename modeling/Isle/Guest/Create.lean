import Isle.Foundation.Faulty
import Mathlib.Data.List.Induction

/-!
# Creating an isle

`StartContainer` of `guest/runc.go`, with `SetupIsle`, `unpackImg` and the part of `bootContainer`
that can fail before the container counts as started, on the bundle directory of one isle.

Whether an isle exists is read off one directory: `isleExists` is the presence of `rootfs`.
`unpackImg` makes that directory **first**, before the layers are applied and before the new root
file system is configured, and no error path removes it. So what decides is the first attempt that
gets as far as making it (`Attempt.reaches`): if nothing fails in that attempt the isle was created,
and otherwise a half-made one exists from then on and is booted without `setupContainer` by every
later attempt (`startContainer_of_isleExists`). `creationAtomic_iff` is that characterisation.

An attempt is an image, or none, and the set of steps that fail in it. The layers are of any type.
-/

namespace Guest

variable {L : Type*}

/-! ### The bundle of an isle -/

/-- What has been unpacked below `rootfs`. -/
structure RootFs (L : Type*) where
  /-- The layers applied, in order. -/
  applied : List L
  /-- A layer whose application stopped midway. -/
  torn : Option L
  /-- Whether `setupContainer` has completed in it. -/
  configured : Bool
  deriving DecidableEq, Repr

/-- The bundle directory of an isle, as far as `rootfs` goes. -/
structure Bundle (L : Type*) where
  rootfs : Option (RootFs L)
  deriving DecidableEq, Repr

/-- Nothing has been made yet. -/
def Bundle.absent : Bundle L := ⟨none⟩

/-- There is a root file system. -/
def isleExists (b : Bundle L) : Bool := b.rootfs.isSome

/-! ### The steps -/

/-- The places where starting a container can return an error. -/
inductive StartStep
  | remoteImage
  | configFile
  | mkdirAll
  | createInfo
  | createOciConfig
  | layers
  | applyLayer (i : ℕ)
  | resolvConf
  | hosts
  | hostname
  | statRootfs
  | logWriter
  | newContainer
  | newTask
  | configureProcess
  | taskStart
  | setupContainer
  deriving DecidableEq, Repr

/-- A step that leaves the root file system as it is, whether it fails or not. -/
def inert (n : StartStep) : FaultyStep StartStep (Bundle L) := ⟨n, id, id⟩

/-- A change to the root file system that is there. -/
def Bundle.modify (f : RootFs L → RootFs L) (b : Bundle L) : Bundle L := ⟨b.rootfs.map f⟩

@[simp] theorem isleExists_modify (f : RootFs L → RootFs L) (b : Bundle L) :
    isleExists (b.modify f) = isleExists b := by
  simp [isleExists, Bundle.modify]

/-- `os.MkdirAll(rootFsPath, 0755)`: a directory that is there stays. -/
def mkdirRootfs : FaultyStep StartStep (Bundle L) where
  name := .mkdirAll
  done b := ⟨some (b.rootfs.getD ⟨[], none, false⟩)⟩
  broken := id

/-- `archive.Apply` of one layer, with opening it; one that fails may have unpacked a part of it. -/
def applyLayer (l : L) (i : ℕ) : FaultyStep StartStep (Bundle L) where
  name := .applyLayer i
  done := Bundle.modify fun r ↦ { r with applied := r.applied ++ [l] }
  broken := Bundle.modify fun r ↦ { r with torn := some l }

/-- The part of `unpackImg` up to the directory. -/
def unpackHead : List (FaultyStep StartStep (Bundle L)) :=
  [inert .remoteImage, inert .configFile, mkdirRootfs]

/-- The rest of `unpackImg`: the two files of the bundle, then the layers one by one. -/
def unpackTail (img : List L) : List (FaultyStep StartStep (Bundle L)) :=
  [inert .createInfo, inert .createOciConfig, inert .layers] ++ img.mapIdx fun i l ↦ applyLayer l i

/-- The steps of `unpackImg`. -/
def unpackImg (img : List L) : List (FaultyStep StartStep (Bundle L)) :=
  unpackHead ++ unpackTail img

/-- The files `SetupIsle` writes after unpacking. -/
def isleFiles : List (FaultyStep StartStep (Bundle L)) :=
  [inert .resolvConf, inert .hosts, inert .hostname]

/-- `SetupIsle`: unpacking is skipped when `rootfs` can be read. -/
def setupIsle (img : List L) (b : Bundle L) : List (FaultyStep StartStep (Bundle L)) :=
  (if b.rootfs.isSome then [] else unpackImg img) ++ isleFiles

/-- What `bootContainer` does before `setup`. -/
def bootSteps : List (FaultyStep StartStep (Bundle L)) :=
  [inert .statRootfs, inert .logWriter, inert .newContainer, inert .newTask,
    inert .configureProcess, inert .taskStart]

/-- The `setup` function `StartContainer` passes for a new isle. -/
def setupContainer : FaultyStep StartStep (Bundle L) where
  name := .setupContainer
  done := Bundle.modify fun r ↦ { r with configured := true }
  broken := id

/-- `bootContainer`, up to the point where the container is reported as started. -/
def bootContainer (setup : List (FaultyStep StartStep (Bundle L))) :
    List (FaultyStep StartStep (Bundle L)) :=
  bootSteps ++ setup

/-! ### `StartContainer` -/

/-- A call of `StartContainer`: the layers of its image, if it has one, and which steps fail. -/
structure Attempt (L : Type*) where
  image : Option (List L)
  fails : StartStep → Bool

/-- The errors of `StartContainer`. -/
inductive StartError
  /-- `unable to create new isle, no image specified` -/
  | noImage
  | failed (n : StartStep)
  deriving DecidableEq, Repr

/-- Run the steps of an attempt. -/
def Attempt.exec (a : Attempt L) (is : List (FaultyStep StartStep (Bundle L))) (b : Bundle L) :
    Option StartError × Bundle L :=
  ((runFaulty a.fails is b).1.map .failed, (runFaulty a.fails is b).2)

/-- `StartContainer`, up to the point where the container is reported as started: its error, and the
bundle it leaves. -/
def startContainer (a : Attempt L) (b : Bundle L) : Option StartError × Bundle L :=
  if isleExists b then a.exec (bootContainer []) b
  else match a.image with
    | none => (some .noImage, b)
    | some img => a.exec (setupIsle img b ++ bootContainer [setupContainer]) b

/-- The bundle after a sequence of attempts on a name that had none. -/
def bundleAfter (as : List (Attempt L)) : Bundle L :=
  as.foldl (fun b a ↦ (startContainer a b).2) .absent

@[simp] theorem bundleAfter_append_singleton (as : List (Attempt L)) (a : Attempt L) :
    bundleAfter (as ++ [a]) = (startContainer a (bundleAfter as)).2 := by
  simp [bundleAfter]

/-! ### What one attempt does -/

/-- The attempt gets as far as making `rootfs`, if it is not there. -/
def Attempt.reaches (a : Attempt L) : Bool :=
  a.image.isSome && !a.fails .remoteImage && !a.fails .configFile && !a.fails .mkdirAll

/-- The steps of an attempt that come after `rootfs` is made. -/
def Attempt.afterMkdir (a : Attempt L) : List (FaultyStep StartStep (Bundle L)) :=
  unpackTail (a.image.getD []) ++ isleFiles ++ bootContainer [setupContainer]

/-- No step after `rootfs` is made fails. -/
def Attempt.finishes (a : Attempt L) : Bool := a.afterMkdir.all fun i ↦ !a.fails i.name

/-- The attempt found no isle, applied every layer of its image, and completed `setupContainer`. -/
def Attempt.Completes (a : Attempt L) (b : Bundle L) : Prop :=
  isleExists b = false ∧
    ∃ img, a.image = some img ∧ (startContainer a b).2.rootfs = some ⟨img, none, true⟩

variable {a : Attempt L}

/-- **An isle that exists is booted as it is**: nothing is unpacked and nothing is configured. -/
theorem startContainer_of_isleExists {b : Bundle L} (h : isleExists b = true) :
    (startContainer a b).2 = b := by
  rw [startContainer, if_pos h, Attempt.exec]
  refine runFaulty_invariant (P := (· = b)) ?_ rfl
  simp [bootContainer, bootSteps, inert]

private theorem startContainer_absent (a : Attempt L) {img : List L} (h : a.image = some img) :
    startContainer a .absent = a.exec (unpackHead ++ a.afterMkdir) .absent := by
  simp [startContainer, isleExists, Bundle.absent, h, setupIsle, unpackImg, Attempt.afterMkdir]

/-- An attempt that does not get as far as `rootfs` fails and leaves nothing. -/
theorem startContainer_of_not_reaches (h : a.reaches = false) :
    (startContainer a .absent).2 = .absent := by
  cases himg : a.image with
  | none => simp [startContainer, isleExists, Bundle.absent, himg]
  | some img =>
    rw [startContainer_absent a himg, Attempt.exec, runFaulty_append_of_failed]
    · simp only [unpackHead, runFaulty, inert, mkdirRootfs]
      simp only [Attempt.reaches, himg] at h
      split_ifs <;> simp_all
    · simp [Attempt.reaches, himg] at h
      simp [unpackHead, inert, mkdirRootfs]
      grind

private theorem startContainer_of_reaches (h : a.reaches = true) :
    startContainer a .absent = a.exec a.afterMkdir ⟨some ⟨[], none, false⟩⟩ := by
  obtain ⟨img, himg⟩ := Option.isSome_iff_exists.1 (show a.image.isSome by grind [Attempt.reaches])
  rw [startContainer_absent a himg, Attempt.exec, runFaulty_append_of_ok]
  · rfl
  · simp only [Attempt.reaches, Bool.and_eq_true, Bool.not_eq_true'] at h
    simp [unpackHead, inert, mkdirRootfs, h]

private theorem foldl_applyLayer (img : List L) (r : RootFs L) (k : ℕ) :
    (img.mapIdx fun i l ↦ applyLayer l (i + k)).foldl (fun b i ↦ i.done b) ⟨some r⟩ =
      (⟨some { r with applied := r.applied ++ img }⟩ : Bundle L) := by
  induction img generalizing r k with
  | nil => simp
  | cons l img ih =>
    simp only [List.mapIdx_cons, List.foldl_cons, Nat.add_right_comm _ 1 k, Nat.add_assoc]
    simpa [applyLayer, Bundle.modify] using ih { r with applied := r.applied ++ [l] } (k + 1)

/-- **An attempt in which nothing fails creates the isle**: every layer is applied and
`setupContainer` has run. -/
theorem startContainer_of_finishes (h : a.reaches = true) (hf : a.finishes = true) :
    (startContainer a .absent).1 = none ∧ a.Completes .absent := by
  have hok : ∀ i ∈ a.afterMkdir, a.fails i.name = false := by
    simpa [Attempt.finishes] using hf
  have hrun := runFaulty_eq_none (s := ⟨some ⟨[], none, false⟩⟩) hok
  obtain ⟨img, himg⟩ := Option.isSome_iff_exists.1 (show a.image.isSome by grind [Attempt.reaches])
  have hlayers := foldl_applyLayer img ⟨[], none, false⟩ 0
  simp only [Nat.add_zero, List.nil_append] at hlayers
  rw [Attempt.Completes, startContainer_of_reaches h, Attempt.exec, hrun]
  refine ⟨rfl, rfl, img, himg, ?_⟩
  simp [Attempt.afterMkdir, himg, unpackTail, inert, isleFiles, bootContainer, bootSteps,
    setupContainer, hlayers, Bundle.modify]

/-- No step after `rootfs` is made removes it, succeeding or failing. -/
private theorem isleExists_of_mem_afterMkdir (a : Attempt L) : ∀ i ∈ a.afterMkdir, ∀ b : Bundle L,
    isleExists b = true → isleExists (i.done b) = true ∧ isleExists (i.broken b) = true := by
  simp only [Attempt.afterMkdir, unpackTail, isleFiles, bootContainer, bootSteps,
    List.forall_mem_append, List.forall_mem_cons, inert, id]
  refine ⟨⟨⟨by simp, fun i hi b hb ↦ ?_⟩, by simp⟩, by simp, ?_, by simp⟩
  · obtain ⟨k, hk, rfl⟩ := List.mem_mapIdx.1 hi
    simp [applyLayer, hb]
  · intro b hb
    simp [setupContainer, hb]

/-- An attempt that gets as far as `rootfs` leaves an isle, whatever happens after. -/
theorem isleExists_of_reaches (h : a.reaches = true) :
    isleExists (startContainer a .absent).2 = true := by
  rw [startContainer_of_reaches h]
  exact runFaulty_invariant (P := fun b ↦ isleExists b = true) (isleExists_of_mem_afterMkdir a) rfl

/-- A step that fails after `rootfs` is made fails the attempt. -/
theorem startContainer_of_not_finishes (h : a.reaches = true) (hf : a.finishes = false) :
    (startContainer a .absent).1.isSome := by
  have hfail : ∃ i ∈ a.afterMkdir, a.fails i.name = true := by
    simpa [Attempt.finishes] using hf
  rw [startContainer_of_reaches h]
  simpa [Attempt.exec] using isSome_runFaulty hfail

/-! ### Sequences of attempts -/

/-- Creation is atomic in a sequence of attempts: the isle exists afterwards only if an attempt of
the sequence completed it, and an attempt that failed changed nothing about its existence. -/
def CreationAtomic (as : List (Attempt L)) : Prop :=
  (isleExists (bundleAfter as) = true →
    ∃ pre a post, as = pre ++ a :: post ∧ a.Completes (bundleAfter pre)) ∧
  ∀ pre a post, as = pre ++ a :: post → (startContainer a (bundleAfter pre)).1.isSome →
    isleExists (bundleAfter (pre ++ [a])) = isleExists (bundleAfter pre)

theorem bundle_eq_absent {b : Bundle L} (h : isleExists b = false) : b = .absent := by
  obtain ⟨_ | r⟩ := b
  · rfl
  · exact absurd h (by simp [isleExists])

/-- **The isle exists exactly when some attempt got as far as `rootfs`**, whatever became of that
attempt. -/
theorem isleExists_bundleAfter_iff (as : List (Attempt L)) :
    isleExists (bundleAfter as) = true ↔ ∃ a ∈ as, a.reaches = true := by
  induction as using List.reverseRecOn with
  | nil => simp [bundleAfter, isleExists, Bundle.absent]
  | append_singleton as a ih =>
    rw [bundleAfter_append_singleton]
    cases hex : isleExists (bundleAfter as) with
    | true =>
      obtain ⟨c, hc, hreach⟩ := ih.1 hex
      rw [startContainer_of_isleExists hex]
      exact iff_of_true hex ⟨c, List.mem_append_left _ hc, hreach⟩
    | false =>
      have hnone : ¬ ∃ c ∈ as, c.reaches = true := by rw [← ih, hex]; simp
      rw [bundle_eq_absent hex]
      cases hreach : a.reaches with
      | true => exact iff_of_true (isleExists_of_reaches hreach) ⟨a, by simp, hreach⟩
      | false =>
        rw [startContainer_of_not_reaches hreach]
        refine iff_of_false (by simp [isleExists, Bundle.absent]) ?_
        rintro ⟨c, hc, hcr⟩
        rcases List.mem_append.1 hc with hc | hc
        · exact hnone ⟨c, hc, hcr⟩
        · rw [List.mem_singleton.1 hc, hreach] at hcr
          exact absurd hcr (by simp)

private theorem bundleAfter_of_not_reaches {as : List (Attempt L)}
    (h : ∀ a ∈ as, ¬ a.reaches = true) : bundleAfter as = .absent := by
  refine bundle_eq_absent (Bool.eq_false_iff.2 fun hex ↦ ?_)
  obtain ⟨a, ha, hreach⟩ := (isleExists_bundleAfter_iff as).1 hex
  exact h a ha hreach

/-- **Creating an isle is atomic exactly when the first attempt that makes `rootfs` meets no
failure after that.** -/
theorem creationAtomic_iff (as : List (Attempt L)) :
    CreationAtomic as ↔ ∀ a, as.find? Attempt.reaches = some a → a.finishes = true := by
  constructor
  · intro hatomic a hfind
    obtain ⟨hreach, pre, post, rfl, hpre⟩ := List.find?_eq_some_iff_append.1 hfind
    have habsent : bundleAfter pre = .absent := bundleAfter_of_not_reaches (by simpa using hpre)
    by_contra hfin
    have hfailed := startContainer_of_not_finishes hreach (by simpa using hfin)
    have hsame := hatomic.2 pre a post rfl (by rwa [habsent])
    rw [bundleAfter_append_singleton, habsent, isleExists_of_reaches hreach] at hsame
    exact absurd hsame (by simp [isleExists, Bundle.absent])
  · refine fun h ↦ ⟨fun hex ↦ ?_, ?_⟩
    · obtain ⟨c, hc⟩ := Option.isSome_iff_exists.1
        (List.find?_isSome.2 ((isleExists_bundleAfter_iff as).1 hex))
      obtain ⟨hreach, pre, post, rfl, hpre⟩ := List.find?_eq_some_iff_append.1 hc
      refine ⟨pre, c, post, rfl, ?_⟩
      rw [bundleAfter_of_not_reaches (by simpa using hpre)]
      exact (startContainer_of_finishes hreach (h c hc)).2
    · rintro pre a post rfl hfailed
      rw [bundleAfter_append_singleton]
      cases hex : isleExists (bundleAfter pre) with
      | true => rw [startContainer_of_isleExists hex, hex]
      | false =>
        rw [bundle_eq_absent hex] at hfailed ⊢
        cases hreach : a.reaches with
        | false => rw [startContainer_of_not_reaches hreach]; rfl
        | true =>
          -- nothing before it made the directory, so it is the attempt that must not fail
          have hpre : ∀ c ∈ pre, ¬ c.reaches = true := fun c hc hcr ↦ by
            rw [(isleExists_bundleAfter_iff pre).2 ⟨c, hc, hcr⟩] at hex
            exact absurd hex (by simp)
          have hfind : (pre ++ a :: post).find? Attempt.reaches = some a :=
            List.find?_eq_some_iff_append.2 ⟨hreach, pre, post, rfl, by simpa using hpre⟩
          rw [(startContainer_of_finishes hreach (h a hfind)).1] at hfailed
          exact absurd hfailed (by simp)

/-- An image of two layers, whose second cannot be applied at the first attempt; the second attempt
then boots what is there. -/
theorem not_creationAtomic_of_torn_layer :
    let first : Attempt String := ⟨some ["base", "app"], fun n ↦ n == .applyLayer 1⟩
    let second : Attempt String := ⟨some ["base", "app"], fun _ ↦ false⟩
    startContainer first .absent =
        (some (.failed (.applyLayer 1)), ⟨some ⟨["base"], some "app", false⟩⟩) ∧
      startContainer second (bundleAfter [first]) =
        (none, ⟨some ⟨["base"], some "app", false⟩⟩) ∧
      ¬ CreationAtomic [first, second] := by
  refine ⟨by decide, by decide, fun h ↦ ?_⟩
  exact absurd (h.2 [] _ _ rfl (by decide)) (by decide)

end Guest
