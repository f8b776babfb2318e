import Isle.Foundation.Run
import Isle.Ghrelease.Unpack
import Isle.Go.Disk

/-!
# The state directory of the command line

`setupStateDir` of `cmd/linux/main.go` and `Unpack` of `pkg/ghrelease/ghrelease.go`. The command
line keeps the kernel, the initrd and the file system of the virtual machine in a directory, next to
a file with the version they are of, and fetches them again when that is not its own version.

A call is described by what it meets (`Setup`): the answers of the release server, the bundles in
the cache directory, the errors of the disk, and where it is killed. What it does to the directory
is a list of operations, of which a killed call has applied a prefix.

The version file is written **before** the bundle is fetched and unpacked, and it gets the version
of the command line whichever release was found. `Unpack` stops at any error of the stream without
saying so. `complete_of_current` has the condition under which the version file can be trusted:
every call that gets as far as writing it goes on to unpack, undisturbed, the bundle of the release
with that version.

`Isle.Ghrelease.Unpack` has the same loop over archives in full, with every error that it drops;
`unpack_agrees` says that the two leave the same files and directories.
-/

namespace Cmd

open Filepath

/-! ### Releases and bundles -/

/-- A file of a release. -/
structure ReleaseAsset where
  url : String
  name : String
  contentType : String

/-- A release, as the server describes it. -/
structure Release where
  tagName : String
  assets : List ReleaseAsset

/-- A member of a bundle. -/
structure Member where
  name : String
  regular : Bool
  data : Content

/-- What becomes of a member while a bundle is unpacked. -/
inductive Fault
  | none
  /-- The stream ends or breaks before its header. -/
  | noHeader
  /-- `os.Create` fails. -/
  | createFails (text : String)
  /-- `io.Copy` stops with an error of the disk after `n` characters. -/
  | short (n : ℕ)
  /-- The stream breaks after `n` characters, and there is no other header. -/
  | streamEnds (n : ℕ)
  deriving DecidableEq

/-- `os.MkdirAll` for a member that is not directly in the directory. -/
def memberDirOps (dir : Path) (m : Member) : List DiskOp :=
  if (join dir m.name).dropLast ≠ dir then [.mkdirAll (join dir m.name).dropLast] else []

/-- What is written for a member of which the first `data` arrive. -/
def memberOps (dir : Path) (m : Member) (data : Content) : List DiskOp :=
  memberDirOps dir m ++ writeOps (join dir m.name) data

/-- Operations before the others of a result. -/
def after {α : Type} (ops : List DiskOp) (r : List DiskOp × α) : List DiskOp × α :=
  (ops ++ r.1, r.2)

/-- The loop of `Unpack` over the members, with what becomes of each, and the error returned. -/
def unpack (dir : Path) : List Member → List Fault → List DiskOp × Option String
  | [], _ => ([], none)
  | m :: ms, faults =>
    match faults.headD .none, m.regular with
    -- The loop ends at any error of the stream, and `Unpack` returns `nil`.
    | .noHeader, _ => ([], none)
    | _, false => unpack dir ms faults.tail
    | .createFails text, true =>
      (memberDirOps dir m, some ("attempting to create '" ++ m.name ++ "': " ++ text))
    | .streamEnds n, true => (memberOps dir m (m.data.take n), none)
    | .short n, true => after (memberOps dir m (m.data.take n)) (unpack dir ms faults.tail)
    | .none, true => after (memberOps dir m m.data) (unpack dir ms faults.tail)

/-! ### A call -/

/-- How `os.WriteFile` of the version file ends. Its error is not looked at. -/
inductive VersionWrite
  | done
  /-- The file is not opened. -/
  | openFails
  /-- An error of the disk after `n` characters. -/
  | short (n : ℕ)
  deriving DecidableEq

/-- What a call meets. -/
structure Setup where
  /-- `Version`, set when the command line was built. -/
  version : String
  /-- `runtime.GOARCH` -/
  goarch : String
  /-- The bundles in the cache directory by file name, if there is such a directory. A bundle is not
  readable where its compression header is broken. -/
  cache : Option (String → Option (Except String (List Member)))
  /-- `ghrelease.Latest` -/
  latest : Except String Release
  /-- `ghrelease.Find`, by tag. -/
  find : String → Except String Release
  /-- The download of an asset by its URL, as far as the compression header. -/
  fetch : String → Except String (List Member)
  versionWrite : VersionWrite
  faults : List Fault
  /-- How many operations are applied before the call is killed. -/
  killed : Option ℕ

/-- How a call ends. -/
inductive Result
  /-- `nil`, since the version is unknown. -/
  | unknown
  /-- `nil`, since the version file has the version. -/
  | current
  /-- `nil`, after unpacking. -/
  | unpacked
  | failed (text : String)
  deriving DecidableEq

/-- The white space of Go's `unicode.IsSpace`. -/
def isSpace (c : Char) : Bool :=
  c ∈ ['\t', '\n', '\x0b', '\x0c', '\r', ' ', '\u0085', '\u00a0', '\u1680', '\u2028', '\u2029',
    '\u202f', '\u205f', '\u3000'] ∨ ('\u2000' ≤ c ∧ c ≤ '\u200a')

/-- `strings.TrimSpace` -/
def trimSpace (cs : List Char) : List Char :=
  ((cs.dropWhile isSpace).reverse.dropWhile isSpace).reverse

/-- The files a machine is started with. -/
def imageFiles : List String := ["initrd", "vmlinux", "os.fs"]

/-- What the command line asks for before it starts the machine. -/
def neededFiles : List String := imageFiles ++ ["version"]

/-- The return of `nil` before anything is fetched. -/
def upToDate (dir : Path) (version : String) (d : Disk) : Option Result :=
  if ∀ name ∈ neededFiles, d.Present (dir ++ [name]) then
    if version = "unknown" then some .unknown
    else if (d.file (dir ++ ["version"])).map trimSpace = some version.toList then some .current
    else none
  else none

namespace Setup

/-- How the name of the asset for the machine ends. -/
def assetSuffix (e : Setup) : String := "-" ++ e.goarch ++ ".tar.gz"

/-- The bundle in the cache directory. -/
def cached (e : Setup) : Option (Except String (List Member)) :=
  e.cache.bind fun files ↦ files ("os-" ++ e.version ++ e.assetSuffix)

/-- The release to use: the one with the version as its tag, or the latest one. -/
def release (e : Setup) : Except String Release :=
  if e.version = "unknown" ∨ e.version = "" then e.latest
  else
    match e.find e.version with
    | .ok rel => .ok rel
    | .error _ => e.latest

/-- The asset is an image for the machine. -/
def isOsAsset (e : Setup) (a : ReleaseAsset) : Bool :=
  "os-".toList.isPrefixOf a.name.toList && e.assetSuffix.toList.isSuffixOf a.name.toList &&
    a.contentType == "application/x-gtar"

/-- What the call unpacks, or the error it returns before it writes the version file. -/
def source (e : Setup) : Except String (Except String (List Member)) :=
  match e.cached with
  | some bundle => .ok bundle
  | none =>
    match e.release with
    | .error text => .error text
    | .ok rel =>
      match rel.assets.find? e.isOsAsset with
      | some asset => .ok (e.fetch asset.url)
      | none => .error ("release missing os asset: " ++ rel.tagName)

/-- What writing the version file does, with an error or without. -/
def versionOps (e : Setup) (dir : Path) : List DiskOp :=
  match e.versionWrite with
  | .done => writeOps (dir ++ ["version"]) e.version.toList
  | .openFails => []
  | .short n => writeOps (dir ++ ["version"]) (e.version.toList.take n)

/-- Writing the version file, and then unpacking. -/
def install (e : Setup) (dir : Path) (bundle : Except String (List Member)) :
    List DiskOp × Result :=
  after (e.versionOps dir) <|
    match bundle with
    | .error text => ([], .failed text)
    | .ok ms => (unpack dir ms e.faults).map id fun err ↦ err.elim .unpacked .failed

/-- The operations that are applied before the call ends or is killed. -/
def performed (e : Setup) (ops : List DiskOp) : List DiskOp :=
  match e.killed with
  | none => ops
  | some k => ops.take k

end Setup

/-- `setupStateDir`: what is done to the disk, and the result. -/
def setupStateDir (dir : Path) (e : Setup) (d : Disk) : List DiskOp × Result :=
  match upToDate dir e.version d with
  | some r => ([], r)
  | none =>
    after [.mkdirAll dir] <|
      match e.source with
      | .error text => ([], .failed text)
      | .ok bundle => e.install dir bundle

/-- The disk after a call, which may have been killed. -/
def step (dir : Path) (d : Disk) (e : Setup) : Option Disk :=
  some (d.applyAll (e.performed (setupStateDir dir e d).1))

/-! ### Complete files -/

/-- The file of a bundle at a path: the last member there. -/
def released (dir : Path) : List Member → Path → Option Content
  | [], _ => none
  | m :: ms, p =>
    (released dir ms p).or (if m.regular ∧ join dir m.name = p then some m.data else none)

/-- The image files in the directory are those of the release with a tag, for given bundles of the
releases. -/
def Complete (bundles : String → Option (List Member)) (dir : Path) (tag : String) (d : Disk) :
    Prop :=
  ∃ ms, bundles tag = some ms ∧ ∀ name ∈ imageFiles,
    (d.file (dir ++ [name])).isSome ∧ d.file (dir ++ [name]) = released dir ms (dir ++ [name])

/-- Nothing disturbs the call: no error of the disk or of the stream, and nobody kills it. -/
structure Setup.Undisturbed (e : Setup) : Prop where
  versionWrite : e.versionWrite = .done
  faults : e.faults = []
  killed : e.killed = none

/-- A bundle that leaves nothing of another one: it has every image file, and if it has a version
file that one has the tag. -/
structure Shipped (dir : Path) (tag : String) (ms : List Member) : Prop where
  image : ∀ name ∈ imageFiles, (released dir ms (dir ++ [name])).isSome
  version : ∀ data, released dir ms (dir ++ ["version"]) = some data → trimSpace data = tag.toList
  /-- The tag is no other without white space around it. -/
  trimmed : trimSpace tag.toList = tag.toList

/-- A call that gets as far as writing the version file unpacks, undisturbed, the bundle of the
release with that version. -/
def Sound (bundles : String → Option (List Member)) (dir : Path) (d : Disk) (e : Setup) : Prop :=
  upToDate dir e.version d = none → ∀ bundle, e.source = .ok bundle →
    e.Undisturbed ∧ ∃ ms, bundle = .ok ms ∧ bundles e.version = some ms ∧ Shipped dir e.version ms

/-! ### Unpacking -/

@[simp] theorem file_applyAll_memberOps (dir : Path) (m : Member) (data : Content) (d : Disk) :
    (d.applyAll (memberOps dir m data)).file
      = Function.update d.file (join dir m.name) (some data) := by
  rw [memberOps, Disk.applyAll_append, Disk.file_applyAll_writeOps, memberDirOps]
  split_ifs <;> rfl

/-- **An undisturbed unpacking** leaves the files of the bundle, and the others as they were. -/
theorem file_applyAll_unpack (dir : Path) (ms : List Member) (d : Disk) (p : Path) :
    (d.applyAll (unpack dir ms []).1).file p = (released dir ms p).or (d.file p) := by
  induction ms generalizing d with
  | nil => rfl
  | cons m ms ih =>
    rw [released, Option.or_assoc]
    rcases hreg : m.regular with - | -
    · have hskip : unpack dir (m :: ms) [] = unpack dir ms [] := by
        rw [unpack, hreg]
        rfl
      rw [hskip, ih]
      simp
    · have hwrite : unpack dir (m :: ms) []
          = after (memberOps dir m m.data) (unpack dir ms []) := by
        rw [unpack, hreg]
        rfl
      rw [hwrite, after, Disk.applyAll_append, ih, file_applyAll_memberOps]
      by_cases hp : join dir m.name = p
      · subst hp
        simp
      · simp [hp, Function.update_of_ne (Ne.symm hp)]

/-! ### The loop with bytes and modes

`Isle.Ghrelease.Unpack` has the same loop, at the grain of whole files. -/

/-- The characters of bytes. -/
def content (bs : List UInt8) : Content := bs.map fun b ↦ Char.ofNat b.toNat

/-- The member that an entry is, as far as it arrives. -/
def memberOf (a : Ghrelease.Arrival) : Member :=
  ⟨a.entry.name, a.entry.isRegular, content a.data⟩

/-- What the disk makes of it. -/
def faultOf (a : Ghrelease.Arrival) : Fault :=
  match a.outcome.createError, a.outcome.writeError with
  | some text, _ => .createFails text
  | none, some n => .short n
  | none, none => .none

/-- The same contents in the files, and the same directories asked for. -/
structure SameDisk (d : Disk) (s : Ghrelease.Disk) : Prop where
  file : ∀ p, d.file p = (s.files p).map fun f ↦ content f.data
  dirs : d.dirs = s.dirs.flatMap List.inits

section SameDisk

variable {d : Disk} {s : Ghrelease.Disk} {a : Ghrelease.Arrival} {dir : Path}

theorem SameDisk.memberDirOps (h : SameDisk d s) (dir : Path) (a : Ghrelease.Arrival) :
    SameDisk (d.applyAll (memberDirOps dir (memberOf a)))
      (if (a.path dir).dropLast ≠ dir then { s with dirs := s.dirs ++ [(a.path dir).dropLast] }
        else s) := by
  rw [Cmd.memberDirOps, show join dir (memberOf a).name = a.path dir from rfl]
  split_ifs
  · refine ⟨h.file, ?_⟩
    simp [Disk.apply, h.dirs]
  · exact h

theorem SameDisk.write (h : SameDisk d s) (p : Path) (f : Ghrelease.File) (touched : List Path) :
    SameDisk (d.applyAll (writeOps p (content f.data)))
      { s with files := Function.update s.files p (some f), touched := touched } where
  file q := by
    rw [Disk.file_applyAll_writeOps]
    by_cases hq : q = p
    · subst hq
      simp
    · simp [hq, h.file]
  dirs := (Disk.dirs_applyAll_writeOps ..).trans h.dirs

theorem SameDisk.writeEntry (h : SameDisk d s) (created : Ghrelease.FileMode) (dir : Path)
    (hcreate : a.outcome.createError = none) :
    ∃ s', s.writeEntry created dir a = (s', none) ∧
      SameDisk (d.applyAll (memberOps dir (memberOf a) (content a.copied))) s' := by
  rw [memberOps, Disk.applyAll_append, Ghrelease.Disk.writeEntry, hcreate]
  exact ⟨_, rfl, (h.memberDirOps dir a).write (a.path dir) (a.left created _) _⟩

/-- An entry whose file is created. -/
theorem unpack_cons_of_created (hreg : a.entry.isRegular = true)
    (hcreate : a.outcome.createError = none) (ms : List Member) (faults : List Fault) :
    unpack dir (memberOf a :: ms) (faultOf a :: faults) =
      after (memberOps dir (memberOf a) (content a.copied)) (unpack dir ms faults) := by
  have hregular : (memberOf a).regular = true := hreg
  rw [unpack, hregular, List.headD_cons, faultOf, hcreate, Ghrelease.Arrival.copied]
  rcases a.outcome.writeError with - | n
  · rfl
  · dsimp only
    rw [content, List.map_take]
    rfl

/-- **The two have one loop**: entries as they arrive leave the same contents, ask for the same
directories and give the same error in both. -/
theorem unpack_agrees (created : Ghrelease.FileMode) (h : SameDisk d s)
    (as : List Ghrelease.Arrival) :
    (unpack dir (as.map memberOf) (as.map faultOf)).2 =
        (Ghrelease.unpackLoop created dir s as).2 ∧
      SameDisk (d.applyAll (unpack dir (as.map memberOf) (as.map faultOf)).1)
        (Ghrelease.unpackLoop created dir s as).1 := by
  induction as generalizing d s with
  | nil => exact ⟨rfl, h⟩
  | cons a as ih =>
    rw [List.map_cons, List.map_cons, Ghrelease.unpackLoop]
    rcases hreg : a.entry.isRegular with - | -
    · -- an entry that is skipped has a header
      have hregular : (memberOf a).regular = false := hreg
      rw [unpack, hregular, List.headD_cons]
      rcases hfault : faultOf a with - | - | - | - | -
      · exact ih h
      · rw [faultOf] at hfault
        split at hfault <;> cases hfault
      · exact ih h
      · exact ih h
      · exact ih h
    · rw [if_pos rfl]
      rcases hcreate : a.outcome.createError with - | text
      · obtain ⟨s', hwrite, hsame⟩ := h.writeEntry created dir hcreate
        rw [unpack_cons_of_created hreg hcreate, hwrite, after, Disk.applyAll_append]
        exact ih hsame
      · have hregular : (memberOf a).regular = true := hreg
        rw [unpack, hregular, List.headD_cons, Ghrelease.Disk.writeEntry, faultOf, hcreate]
        exact ⟨rfl, h.memberDirOps dir a⟩

end SameDisk

/-! ### Whole sequences of calls -/

section Calls

variable {bundles : String → Option (List Member)} {dir : Path}

/-- The version file can be trusted. -/
def Trusted (bundles : String → Option (List Member)) (dir : Path) (d : Disk) : Prop :=
  ∀ content tag, d.file (dir ++ ["version"]) = some content → trimSpace content = tag.toList →
    Complete bundles dir tag d

variable {d : Disk} {e : Setup}

theorem Trusted.of_file_eq {d' : Disk} (h : Trusted bundles dir d) (hfile : d'.file = d.file) :
    Trusted bundles dir d' := by
  intro content tag hcontent htag
  rw [hfile] at hcontent
  obtain ⟨ms, hms, himage⟩ := h content tag hcontent htag
  exact ⟨ms, hms, by rwa [hfile]⟩

/-- An undisturbed call with the bundle of a release. -/
theorem trusted_applyAll_install {ms : List Member} (he : e.Undisturbed)
    (hms : bundles e.version = some ms) (hship : Shipped dir e.version ms) (d : Disk) :
    Trusted bundles dir (d.applyAll (e.install dir (.ok ms)).1) := by
  have hfile : ∀ p, (d.applyAll (e.install dir (.ok ms)).1).file p
      = (released dir ms p).or
          (Function.update d.file (dir ++ ["version"]) (some e.version.toList) p) := by
    intro p
    have hops : (e.install dir (.ok ms)).1
        = writeOps (dir ++ ["version"]) e.version.toList ++ (unpack dir ms []).1 := by
      rw [Setup.install, Setup.versionOps, he.versionWrite, he.faults]
      rfl
    rw [hops, Disk.applyAll_append, file_applyAll_unpack, Disk.file_applyAll_writeOps]
  have himage : Complete bundles dir e.version (d.applyAll (e.install dir (.ok ms)).1) := by
    refine ⟨ms, hms, fun name hname ↦ ?_⟩
    obtain ⟨data, hdata⟩ := Option.isSome_iff_exists.1 (hship.image name hname)
    rw [hfile, hdata]
    exact ⟨rfl, rfl⟩
  -- The version file has the tag, whether it is the one written first or one of the bundle.
  intro content tag hcontent htag
  have hversion : trimSpace content = e.version.toList := by
    rw [hfile, Function.update_self] at hcontent
    rcases hdata : released dir ms (dir ++ ["version"]) with - | data
    · rw [hdata, Option.none_or] at hcontent
      cases hcontent
      exact hship.trimmed
    · rw [hdata, Option.some_or] at hcontent
      cases hcontent
      exact hship.version _ hdata
  have : tag = e.version := String.toList_inj.1 (htag.symm.trans hversion)
  rwa [this]

theorem mem_of_mem_performed {ops : List DiskOp} {op : DiskOp} (h : op ∈ e.performed ops) :
    op ∈ ops := by
  rcases hk : e.killed with - | k
  · rwa [Setup.performed, hk] at h
  · rw [Setup.performed, hk] at h
    exact List.mem_of_mem_take h

/-- A call that only makes directories, killed or not. -/
theorem Trusted.performed (hd : Trusted bundles dir d) (e : Setup) {ops : List DiskOp}
    (h : ∀ op ∈ ops, ∃ p, op = .mkdirAll p) : Trusted bundles dir (d.applyAll (e.performed ops)) :=
  hd.of_file_eq (Disk.file_applyAll_of_mkdirAll (fun op hop ↦ h op (mem_of_mem_performed hop)) d)

/-- **One call** keeps the version file to be trusted. -/
theorem trusted_step {d' : Disk} (hd : Trusted bundles dir d) (he : Sound bundles dir d e)
    (h : step dir d e = some d') : Trusted bundles dir d' := by
  cases h
  rw [setupStateDir]
  rcases hup : upToDate dir e.version d with - | r
  · rcases hsource : e.source with text | bundle
    · exact hd.performed e (by simp [after])
    · obtain ⟨hund, ms, rfl, hms, hship⟩ := he hup bundle hsource
      rw [Setup.performed, hund.killed]
      exact trusted_applyAll_install hund hms hship (d.apply (.mkdirAll dir))
  · exact hd.performed e (by simp)

theorem install_ne_current (e : Setup) (bundle : Except String (List Member)) :
    (e.install dir bundle).2 ≠ .current := by
  rcases bundle with text | ms
  · simp [Setup.install, after]
  · rcases h : (unpack dir ms e.faults).2 with - | text <;> simp [Setup.install, after, h]

/-- What a call that returns because of the version file has read. -/
theorem file_eq_of_current (h : (setupStateDir dir e d).2 = .current) :
    ∃ content, d.file (dir ++ ["version"]) = some content ∧
      trimSpace content = e.version.toList := by
  rw [setupStateDir] at h
  rcases hup : upToDate dir e.version d with - | r
  · rw [hup] at h
    rcases hsource : e.source with text | bundle
    · rw [hsource] at h
      cases h
    · rw [hsource] at h
      exact absurd h (install_ne_current e bundle)
  · rw [hup] at h
    cases h
    unfold upToDate at hup
    split_ifs at hup with hpresent hunknown hversion
    · cases hup
    · exact Option.map_eq_some_iff.1 hversion

/-- **When the version file can be trusted.** In every sequence of calls, of any versions, that
starts without a version file and in which each call that gets as far as writing it unpacks,
undisturbed, the bundle of the release with its version: a call that returns because the version
file has its version finds the complete image files of the release with that tag. -/
theorem complete_of_current {d₀ d : Disk} {es : List Setup}
    (h : RunWhile (step dir) (Sound bundles dir) d₀ es d) (h₀ : d₀.file (dir ++ ["version"]) = none)
    {e : Setup} (he : (setupStateDir dir e d).2 = .current) : Complete bundles dir e.version d := by
  have hstart : Trusted bundles dir d₀ := by
    intro content tag hcontent
    rw [h₀] at hcontent
    cases hcontent
  have hd : Trusted bundles dir d :=
    h.invariant (fun _ _ _ hd he hstep ↦ trusted_step hd he hstep) hstart
  obtain ⟨content, hcontent, htrim⟩ := file_eq_of_current he
  exact hd content e.version hcontent htrim

end Calls

/-! ### Two releases -/

/-- A bundle with the image files of a release, each with the tag in it. -/
def bundleOf (tag : String) : List Member :=
  imageFiles.map fun name ↦ ⟨"./" ++ name, true, (name ++ tag).toList⟩

/-- The bundles of two releases. -/
def twoBundles (tag : String) : Option (List Member) :=
  if tag = "v1" ∨ tag = "v2" then some (bundleOf tag) else none

/-- The release with a tag, as the server describes it. -/
def releaseOf (tag : String) : Release where
  tagName := tag
  assets := [⟨"cli", "isle-" ++ tag ++ "-arm64.tar.gz", "application/x-gtar"⟩,
    ⟨tag, "os-" ++ tag ++ "-arm64.tar.gz", "application/x-gtar"⟩]

/-- A call that meets no error. -/
def fetching (version : String) : Setup where
  version := version
  goarch := "arm64"
  cache := none
  latest := .ok (releaseOf "v2")
  find tag := .ok (releaseOf tag)
  fetch url := .ok (bundleOf url)
  versionWrite := .done
  faults := []
  killed := none

theorem sound_fetching {tag : String} (htag : tag = "v1" ∨ tag = "v2") (d : Disk) :
    Sound twoBundles ["state"] d (fetching tag) := by
  rintro - bundle hsource
  refine ⟨⟨rfl, rfl, rfl⟩, bundleOf tag, ?_, if_pos htag, ?_⟩
  · rcases htag with rfl | rfl
    · exact (Except.ok.inj (hsource.symm.trans rfl))
    · exact (Except.ok.inj (hsource.symm.trans rfl))
  · have hversion : released ["state"] (bundleOf tag) (["state"] ++ ["version"]) = none := by
      rcases htag with rfl | rfl <;> decide +kernel
    refine ⟨?_, fun data hdata ↦ ?_, ?_⟩
    · rcases htag with rfl | rfl <;> decide +kernel
    · exact absurd (hversion.symm.trans hdata) (by simp)
    · rcases htag with rfl | rfl <;> decide +kernel

theorem complete_of_switch :
    ∃ d, RunWhile (step ["state"]) (Sound twoBundles ["state"]) Disk.empty
        [fetching "v1", fetching "v2"] d ∧
      (setupStateDir ["state"] (fetching "v2") d).2 = .current ∧
        Complete twoBundles ["state"] "v2" d := by
  obtain ⟨d, hrun, hcurrent⟩ : ∃ d, RunWhile (step ["state"]) (Sound twoBundles ["state"])
      Disk.empty [fetching "v1", fetching "v2"] d ∧
        (setupStateDir ["state"] (fetching "v2") d).2 = .current :=
    ⟨_, .cons (sound_fetching (.inl rfl) _) rfl (.cons (sound_fetching (.inr rfl) _) rfl (.nil _)),
      by decide +kernel⟩
  exact ⟨d, hrun, hcurrent, complete_of_current hrun rfl hcurrent⟩

/-- **A download that fails**: the version file has the new version, the image files are the old
ones, and the next call is satisfied. -/
theorem exists_current_incomplete :
    ∃ d, Run (step ["state"]) Disk.empty
        [fetching "v1", { fetching "v2" with fetch := fun _ ↦ .error "connection refused" }] d ∧
      (setupStateDir ["state"] (fetching "v2") d).2 = .current ∧
        ¬Complete twoBundles ["state"] "v2" d := by
  refine ⟨_, run_iff_foldlM.2 rfl, by decide +kernel, ?_⟩
  rintro ⟨ms, hms, himage⟩
  obtain rfl : bundleOf "v2" = ms := Option.some.inj hms
  exact absurd (himage "initrd" List.mem_cons_self).2 (by decide +kernel)

end Cmd
