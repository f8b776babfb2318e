import Isle.Go.Files
import Mathlib.Data.List.TakeWhile

/-!
# Unpacking a release

`Unpack` of `pkg/ghrelease/ghrelease.go`: the regular entries of a compressed tar archive are
written below a directory. What the archive holds, where its stream breaks, and which operations of
the disk fail are all in a `Download`. Files are known by their cleaned paths; links that are in the
directory already are left out, and `Unpack` makes none.

Two things are not checked. The name of an entry is joined to the directory and cleaned, so a name
that climbs leads **out of it**: `inside_iff` has the names that do. And every error but those of
the compression header and of `os.Create` is dropped: the loop takes any error of the stream for the
end of the archive, and neither `io.Copy` nor `Chmod` is looked at. `reported_iff` has the downloads
for which a returned `nil` still means that everything is there.

`Isle.Cmd.StateDir` has the same function as a list of disk operations that a kill may cut short;
what is added here are bytes, modes and the paths. `Cmd.unpack_agrees` says that it is the same.
-/

namespace Ghrelease

open Filepath Files

/-! ### Archives -/

/-- `fs.FileMode` -/
abbrev FileMode := UInt32

/-- `fs.ModeType`: the bits that only files that are not regular have. -/
def modeType : FileMode := 0x8f280000

/-- An entry of an archive. -/
structure Entry where
  name : String
  /-- `hdr.FileInfo().Mode()` -/
  mode : FileMode
  data : Bytes
  deriving DecidableEq, Repr

/-- `fm.IsRegular()` -/
def Entry.isRegular (e : Entry) : Bool := e.mode &&& modeType == 0

/-- What the disk makes of an entry. -/
structure Outcome where
  /-- The error of `os.Create`. -/
  createError : Option String
  /-- Where `io.Copy` stops with an error of the disk. -/
  writeError : Option ℕ
  chmodFails : Bool
  deriving DecidableEq, Repr

/-- An entry as it arrives: its header, and as much of its data as the stream has. -/
structure Arrival where
  entry : Entry
  data : Bytes
  outcome : Outcome
  deriving DecidableEq, Repr

/-- How a stream goes on behind its last whole entry. -/
inductive Rest
  /-- With the end marker. -/
  | marker
  /-- It ends, or cannot be decompressed or parsed, before another header. -/
  | broken
  /-- It breaks behind the header and `n` bytes of an entry. -/
  | cut (e : Entry) (o : Outcome) (n : ℕ)
  deriving DecidableEq, Repr

/-- An input stream, and what the disk makes of its entries. -/
structure Download where
  /-- The error of `gzip.NewReader`. -/
  gzipError : Option String
  entries : List (Entry × Outcome)
  rest : Rest
  deriving DecidableEq, Repr

/-- The entry that a broken stream ends with. -/
def Rest.arrivals : Rest → List Arrival
  | .cut e o n => [⟨e, e.data.take n, o⟩]
  | _ => []

/-- What `tr.Next` and reading from `tr` give, up to the first error. -/
def Download.arrivals (d : Download) : List Arrival :=
  d.entries.map (fun p ↦ ⟨p.1, p.1.data, p.2⟩) ++ d.rest.arrivals

/-! ### Unpacking -/

/-- A file: what is in it, and its mode. -/
structure File where
  data : Bytes
  mode : FileMode
  deriving DecidableEq, Repr

/-- What there is on the disk. -/
structure Disk where
  files : Path → Option File
  /-- The directories asked for, in their order. -/
  dirs : List Path
  /-- The files that were created or emptied, written and given a mode, in their order. -/
  touched : List Path

/-- The path of an entry. -/
def Arrival.path (dir : Path) (a : Arrival) : Path := join dir a.entry.name

/-- What of the data gets into the file. -/
def Arrival.copied (a : Arrival) : Bytes :=
  match a.outcome.writeError with
  | none => a.data
  | some n => a.data.take n

/-- What `os.Create`, `io.Copy` and `Chmod` leave of a file. A new one has the mode `created` until
it is given its own. -/
def Arrival.left (created : FileMode) (a : Arrival) (old : Option File) : File where
  data := a.copied
  mode := if a.outcome.chmodFails then (old.map File.mode).getD created else a.entry.mode

/-- The body of the loop behind the check for regular files. -/
def Disk.writeEntry (created : FileMode) (dir : Path) (s : Disk) (a : Arrival) :
    Disk × Option String :=
  let path := a.path dir
  let fdir := path.dropLast
  -- the error of `os.MkdirAll` is not looked at
  let s := if fdir ≠ dir then { s with dirs := s.dirs ++ [fdir] } else s
  match a.outcome.createError with
  | some text => (s, some ("attempting to create '" ++ a.entry.name ++ "': " ++ text))
  | none =>
    ({ s with
      files := Function.update s.files path (some (a.left created (s.files path)))
      touched := s.touched ++ [path] }, none)

/-- The loop. The first error of the stream ends it, and it returns `nil`. -/
def unpackLoop (created : FileMode) (dir : Path) : Disk → List Arrival → Disk × Option String
  | s, [] => (s, none)
  | s, a :: as =>
    if a.entry.isRegular then
      match s.writeEntry created dir a with
      | (s', some text) => (s', some text)
      | (s', none) => unpackLoop created dir s' as
    else unpackLoop created dir s as

/-- `Unpack`: what it leaves of the files that there are, and the error it returns. -/
def unpack (created : FileMode) (dir : Path) (files : Path → Option File) (d : Download) :
    Disk × Option String :=
  match d.gzipError with
  | some text => (⟨files, [], []⟩, some text)
  | none => unpackLoop created dir ⟨files, [], []⟩ d.arrivals

/-! ### What the loop does -/

/-- The regular entries up to the first whose file cannot be created. -/
def opened (as : List Arrival) : List Arrival :=
  (as.filter fun a ↦ a.entry.isRegular).takeWhile fun a ↦ a.outcome.createError.isNone

/-- What entries leave at a path. -/
def leftAt (created : FileMode) (dir : Path) (as : List Arrival) (p : Path) (old : Option File) :
    Option File :=
  (as.filter fun a ↦ a.path dir = p).foldl (fun old a ↦ some (a.left created old)) old

section Loop

variable {created : FileMode} {dir : Path} {s : Disk} {a : Arrival} {as : List Arrival}

theorem opened_cons_of_not_regular (h : a.entry.isRegular = false) :
    opened (a :: as) = opened as := by
  simp [opened, h]

theorem opened_cons_of_error (h : a.entry.isRegular = true) (he : a.outcome.createError ≠ none) :
    opened (a :: as) = [] := by
  simp [opened, h, Option.isNone_iff_eq_none, he]

theorem opened_cons (h : a.entry.isRegular = true) (he : a.outcome.createError = none) :
    opened (a :: as) = a :: opened as := by
  simp [opened, h, he]

theorem opened_eq_filter (h : ∀ a ∈ as, a.entry.isRegular = true → a.outcome.createError = none) :
    opened as = as.filter fun a ↦ a.entry.isRegular := by
  refine List.takeWhile_eq_self_iff.2 fun a ha ↦ ?_
  obtain ⟨ha, hreg⟩ := List.mem_filter.1 ha
  simp [h a ha hreg]

theorem leftAt_cons (p : Path) (old : Option File) :
    leftAt created dir (a :: as) p old =
      leftAt created dir as p (if a.path dir = p then some (a.left created old) else old) := by
  by_cases hp : a.path dir = p <;> simp [leftAt, hp]

/-- An entry whose file cannot be created. -/
theorem Disk.writeEntry_of_error (created : FileMode) (dir : Path) (s : Disk) {text : String}
    (h : a.outcome.createError = some text) :
    ∃ dirs, s.writeEntry created dir a = ({ s with dirs := dirs },
      some ("attempting to create '" ++ a.entry.name ++ "': " ++ text)) := by
  by_cases hdir : (a.path dir).dropLast = dir
  · exact ⟨s.dirs, by simp [writeEntry, h, hdir]⟩
  · exact ⟨s.dirs ++ [(a.path dir).dropLast], by simp [writeEntry, h, hdir]⟩

/-- An entry whose file is created. -/
theorem Disk.writeEntry_of_none (created : FileMode) (dir : Path) (s : Disk)
    (h : a.outcome.createError = none) :
    ∃ dirs, s.writeEntry created dir a =
      (⟨Function.update s.files (a.path dir) (some (a.left created (s.files (a.path dir)))), dirs,
        s.touched ++ [a.path dir]⟩, none) := by
  by_cases hdir : (a.path dir).dropLast = dir
  · exact ⟨s.dirs, by simp [writeEntry, h, hdir]⟩
  · exact ⟨s.dirs ++ [(a.path dir).dropLast], by simp [writeEntry, h, hdir]⟩

/-- **What the loop does.** The files that are touched are those of the entries that are opened, at
each path there is what these leave there, and the error is one of `os.Create`. -/
theorem unpackLoop_spec (created : FileMode) (dir : Path) (s : Disk) (as : List Arrival) :
    (unpackLoop created dir s as).1.touched = s.touched ++ (opened as).map (Arrival.path dir) ∧
      (∀ p, (unpackLoop created dir s as).1.files p =
        leftAt created dir (opened as) p (s.files p)) ∧
      ((unpackLoop created dir s as).2 = none ↔
        ∀ a ∈ as, a.entry.isRegular = true → a.outcome.createError = none) := by
  induction as generalizing s with
  | nil => exact ⟨by simp [unpackLoop, opened], fun p ↦ rfl, by simp [unpackLoop]⟩
  | cons a as ih =>
    rw [unpackLoop, List.forall_mem_cons]
    cases hreg : a.entry.isRegular with
    | false =>
      obtain ⟨htouched, hfiles, herror⟩ := ih s
      rw [opened_cons_of_not_regular hreg]
      simpa using ⟨htouched, hfiles, herror⟩
    | true =>
      rw [if_pos rfl]
      cases hcreate : a.outcome.createError with
      | some text =>
        -- the first file that cannot be made ends the loop
        obtain ⟨dirs, hw⟩ := Disk.writeEntry_of_error created dir s hcreate
        rw [hw, opened_cons_of_error hreg (by simp [hcreate])]
        exact ⟨by simp, fun p ↦ rfl, by simp⟩
      | none =>
        obtain ⟨dirs, hw⟩ := Disk.writeEntry_of_none created dir s hcreate
        rw [hw, opened_cons hreg hcreate]
        obtain ⟨htouched, hfiles, herror⟩ := ih ⟨_, dirs, s.touched ++ [a.path dir]⟩
        refine ⟨by simpa using htouched, fun p ↦ ?_, by simpa using herror⟩
        rw [leftAt_cons]
        refine (hfiles p).trans ?_
        by_cases hp : a.path dir = p
        · subst hp
          simp
        · simp [hp, Function.update_of_ne (Ne.symm hp)]

end Loop

/-! ### Names that lead out of the directory -/

/-- Strictly below a directory. -/
def Beneath (dir p : Path) : Prop := dir <+: p ∧ p ≠ dir

/-- The name stays in the directory: it does not climb and is not empty, or it climbs, comes back by
the names of the directories it left, and goes on. -/
def Stays (dir : Path) (name : String) : Prop :=
  dir.drop (dir.length - (relative name).1) <+: (relative name).2 ∧
    (relative name).2 ≠ dir.drop (dir.length - (relative name).1)

variable {dir : Path} {d : Download}

theorem beneath_join_iff {name : String} : Beneath dir (join dir name) ↔ Stays dir name := by
  rw [Beneath, Stays, prefix_join_iff, ne_eq, ne_eq, join_eq_self_iff]

/-- The entries whose files are opened. -/
def Download.opened (d : Download) : List Arrival :=
  if d.gzipError = none then Ghrelease.opened d.arrivals else []

/-- Every file that is created, emptied or given a mode is below the directory. -/
def Inside (created : FileMode) (dir : Path) (files : Path → Option File) (d : Download) : Prop :=
  ∀ p ∈ (unpack created dir files d).1.touched, Beneath dir p

/-- **When unpacking stays inside its directory**: exactly if the names of all entries whose files
are opened stay in it. -/
theorem inside_iff (created : FileMode) (dir : Path) (files : Path → Option File) (d : Download) :
    Inside created dir files d ↔ ∀ a ∈ d.opened, Stays dir a.entry.name := by
  have htouched : (unpack created dir files d).1.touched = d.opened.map (Arrival.path dir) := by
    rw [unpack, Download.opened]
    cases d.gzipError with
    | some text => rfl
    | none => simpa using (unpackLoop_spec created dir ⟨files, [], []⟩ d.arrivals).1
  rw [Inside, htouched, List.forall_mem_map]
  exact forall₂_congr fun a _ ↦ beneath_join_iff

/-- Nothing goes wrong on the disk. -/
def Outcome.good : Outcome := ⟨none, none, false⟩

/-- An archive with one entry, whose name climbs. -/
def climbing : Download :=
  ⟨none, [(⟨"../.zshrc", 0o644, [101, 118, 105, 108]⟩, .good)], .marker⟩

theorem not_inside_climbing :
    (unpack 0o644 ["home", "isle"] (fun _ ↦ none) climbing).1.files ["home", ".zshrc"] =
        some ⟨[101, 118, 105, 108], 0o644⟩ ∧
      ¬ Inside 0o644 ["home", "isle"] (fun _ ↦ none) climbing := by
  refine ⟨by decide, fun h ↦ ?_⟩
  have hmem : ["home", ".zshrc"] ∈
      (unpack 0o644 ["home", "isle"] (fun _ ↦ none) climbing).1.touched := by decide
  exact absurd (h _ hmem).1 (by decide)

/-! ### What a returned `nil` says -/

/-- The last regular entry of its name. -/
def LastOfName (entries : List (Entry × Outcome)) (e : Entry) : Prop :=
  ∃ before o after, entries = before ++ (e, o) :: after ∧ e.isRegular = true ∧
    ∀ q ∈ after, q.1.isRegular = true → q.1.name ≠ e.name

/-- **What is returned is right.** A `nil` says that the archive was read to its end marker and that
the file of the last regular entry of each name is there with its content and mode. -/
def Reported (created : FileMode) (dir : Path) (files : Path → Option File) (d : Download) : Prop :=
  (unpack created dir files d).2 = none →
    d.rest = .marker ∧ ∀ e, LastOfName d.entries e →
      (unpack created dir files d).1.files (join dir e.name) = some ⟨e.data, e.mode⟩

/-- One of the two errors that are looked at: of the compression header, or of `os.Create`. -/
def Download.Refused (d : Download) : Prop :=
  d.gzipError ≠ none ∨
    ∃ a ∈ d.arrivals, a.entry.isRegular = true ∧ a.outcome.createError ≠ none

/-- The regular entries whose names lead to a path. -/
def Download.arrivalsAt (d : Download) (dir p : Path) : List Arrival :=
  (d.arrivals.filter fun a ↦ a.entry.isRegular).filter fun a ↦ a.path dir = p

/-- Nothing is missing. The stream has its end marker, and for the last regular entry of each name:
the last entry whose name leads to its path has its content, all of which is written, and the last
of these that is given a mode has its mode. If none is, the file has that mode from before, or new
files have it. -/
structure Download.Whole (created : FileMode) (dir : Path) (files : Path → Option File)
    (d : Download) : Prop where
  marker : d.rest = .marker
  content : ∀ e, LastOfName d.entries e →
    ∀ a ∈ (d.arrivalsAt dir (join dir e.name)).getLast?, a.copied = e.data
  mode : ∀ e, LastOfName d.entries e →
    (((d.arrivalsAt dir (join dir e.name)).filter fun a ↦ !a.outcome.chmodFails).getLast?.elim
      (((files (join dir e.name)).map File.mode).getD created) fun a ↦ a.entry.mode) = e.mode

/-- What the last of some entries at a path leaves there: its own data, and the mode of the last
that was given one. -/
theorem foldl_left_append (created : FileMode) (as : List Arrival) (a : Arrival)
    (old : Option File) :
    (as ++ [a]).foldl (fun old a ↦ some (a.left created old)) old =
      some ⟨a.copied, ((as ++ [a]).filter fun a ↦ !a.outcome.chmodFails).getLast?.elim
        ((old.map File.mode).getD created) fun a ↦ a.entry.mode⟩ := by
  induction as using List.reverseRecOn generalizing a with
  | nil => cases h : a.outcome.chmodFails <;> simp [Arrival.left, h]
  | append_singleton as b ih =>
    rw [List.foldl_append, ih b]
    cases h : a.outcome.chmodFails <;> simp [Arrival.left, h]

/-- Without those errors `nil` is returned, and the entries leave their files. -/
theorem unpack_of_not_refused (created : FileMode) (dir : Path) (files : Path → Option File)
    (h : ¬ d.Refused) :
    (unpack created dir files d).2 = none ∧ ∀ p, (unpack created dir files d).1.files p =
      leftAt created dir (d.arrivals.filter fun a ↦ a.entry.isRegular) p (files p) := by
  rw [Download.Refused, not_or, not_not] at h
  have hcreate : ∀ a ∈ d.arrivals, a.entry.isRegular = true → a.outcome.createError = none := by
    intro a ha hreg
    by_contra hne
    exact h.2 ⟨a, ha, hreg, hne⟩
  obtain ⟨-, hfiles, herror⟩ := unpackLoop_spec created dir ⟨files, [], []⟩ d.arrivals
  rw [unpack, h.1]
  exact ⟨herror.2 hcreate, fun p ↦ by rw [hfiles, opened_eq_filter hcreate]⟩

/-- An error that is looked at is returned. -/
theorem unpack_of_refused (created : FileMode) (dir : Path) (files : Path → Option File)
    (h : d.Refused) : (unpack created dir files d).2 ≠ none := by
  rw [unpack]
  cases hgzip : d.gzipError with
  | some text => simp
  | none =>
    obtain ⟨a, ha, hreg, hcreate⟩ := h.resolve_left (not_not_intro hgzip)
    intro hnone
    exact hcreate ((unpackLoop_spec created dir _ d.arrivals).2.2.1 hnone a ha hreg)

/-- What is returned is right if the marker is there and the entries leave the files. -/
theorem reported_of_left {created : FileMode} {files : Path → Option File}
    (hmarker : d.rest = .marker)
    (hleft : ∀ e, LastOfName d.entries e →
      leftAt created dir (d.arrivals.filter fun a ↦ a.entry.isRegular) (join dir e.name)
        (files (join dir e.name)) = some ⟨e.data, e.mode⟩) :
    Reported created dir files d := by
  intro hnone
  have hrefused : ¬ d.Refused := fun hr ↦ unpack_of_refused created dir files hr hnone
  refine ⟨hmarker, fun e he ↦ ?_⟩
  rw [(unpack_of_not_refused created dir files hrefused).2]
  exact hleft e he

/-- An entry is one of those at its path. -/
theorem arrivalsAt_ne_nil {e : Entry} (he : LastOfName d.entries e) (dir : Path) :
    d.arrivalsAt dir (join dir e.name) ≠ [] := by
  obtain ⟨before, o, after, hentries, hreg, -⟩ := he
  refine List.ne_nil_of_mem (a := ⟨e, e.data, o⟩) ?_
  simp [Download.arrivalsAt, Download.arrivals, hentries, hreg, Arrival.path]

/-- The entries leave the file of one of them exactly if the last has its content and the last that
is given a mode has its mode. -/
theorem leftAt_eq_some_iff {created : FileMode} {e : Entry} (he : LastOfName d.entries e)
    (old : Option File) :
    leftAt created dir (d.arrivals.filter fun a ↦ a.entry.isRegular) (join dir e.name) old =
        some ⟨e.data, e.mode⟩ ↔
      (∀ a ∈ (d.arrivalsAt dir (join dir e.name)).getLast?, a.copied = e.data) ∧
        (((d.arrivalsAt dir (join dir e.name)).filter fun a ↦ !a.outcome.chmodFails).getLast?.elim
          ((old.map File.mode).getD created) fun a ↦ a.entry.mode) = e.mode := by
  obtain ⟨as, a, hat⟩ := (List.eq_nil_or_concat' _).resolve_left (arrivalsAt_ne_nil he dir)
  rw [leftAt, ← Download.arrivalsAt, hat, foldl_left_append]
  simp

/-- **When truncation is reported.** -/
theorem reported_iff (created : FileMode) (dir : Path) (files : Path → Option File) (d : Download) :
    Reported created dir files d ↔ d.Refused ∨ d.Whole created dir files := by
  constructor
  · intro h
    by_cases hrefused : d.Refused
    · exact .inl hrefused
    · obtain ⟨hnone, hfiles⟩ := unpack_of_not_refused created dir files hrefused
      obtain ⟨hmarker, hleft⟩ := h hnone
      have hfile (e : Entry) (he : LastOfName d.entries e) :=
        (leftAt_eq_some_iff he _).1 ((hfiles _).symm.trans (hleft e he))
      exact .inr ⟨hmarker, fun e he ↦ (hfile e he).1, fun e he ↦ (hfile e he).2⟩
  · rintro (hrefused | hwhole)
    · exact fun hnone ↦ absurd hnone (unpack_of_refused created dir files hrefused)
    · exact reported_of_left hwhole.marker fun e he ↦
        (leftAt_eq_some_iff he _).2 ⟨hwhole.content e he, hwhole.mode e he⟩

/-- The download of an image breaks off after two bytes, and `nil` is returned. -/
theorem not_reported_truncated :
    (unpack 0o644 ["isle"] (fun _ ↦ none)
        ⟨none, [], .cut ⟨"os.fs", 0o644, [1, 2, 3]⟩ .good 2⟩).2 = none ∧
      (unpack 0o644 ["isle"] (fun _ ↦ none)
        ⟨none, [], .cut ⟨"os.fs", 0o644, [1, 2, 3]⟩ .good 2⟩).1.files ["isle", "os.fs"] =
          some ⟨[1, 2], 0o644⟩ ∧
      ¬ Reported 0o644 ["isle"] (fun _ ↦ none)
        ⟨none, [], .cut ⟨"os.fs", 0o644, [1, 2, 3]⟩ .good 2⟩ := by
  refine ⟨by decide, by decide, fun h ↦ ?_⟩
  exact absurd (h (by decide)).1 (by decide)

end Ghrelease
