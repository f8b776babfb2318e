import Isle.Log.Directory

/-!
# The directory reader

The reader of `pkg/clog/reader.go`, over a directory nothing writes to any more. `Next` takes any
failure to decode as the end of a shard and goes on with the shard listed behind it; if there is
none, or if **that one** has no entry either, it returns an error.

`Reads r es` says that calling `Next` until its first error returns `es`. What is read of shards
that hold entries `cs` is then `readShards cs`: the first shard, and those behind it up to one with
no entry (`reads_newDirectoryReader`).
-/

namespace Log

variable {Id : Type*}

/-- `DirectoryReader`: the name of the shard it is at, and what it has not read of it. -/
structure DirectoryReader where
  cur : String
  rest : Bytes

/-- The loop of `openNext`: the name listed behind one. -/
def nextAfter (cur : String) : List String → Option String
  | [] => none
  | n :: ns => if n = cur then ns.head? else nextAfter cur ns

/-- `os.Open` -/
def Dir.openShard (dir : Dir Id) (name : String) : Option DirectoryReader :=
  (dir.shards.find? fun sh ↦ sh.name = name).map fun sh ↦ ⟨name, sh.data⟩

/-- `openNext`, from the shard the reader is at, if it is at one. -/
def openNext (dir : Dir Id) (cur : Option String) : Option DirectoryReader := do
  let target ← match cur with
    | none => dir.readDir.head?
    | some cur => nextAfter cur dir.readDir
  dir.openShard target

/-- `NewDirectoryReader` -/
def newDirectoryReader (dir : Dir Id) : Option DirectoryReader := openNext dir none

variable (fmt : Codec UInt8 (Entry Id)) (dir : Dir Id)

/-- `Reader.Next` -/
def DirectoryReader.decode (r : DirectoryReader) : Option (Entry Id × DirectoryReader) :=
  match fmt.next r.rest with
  | .item e n => some (e, { r with rest := r.rest.drop n })
  | _ => none

/-- `DirectoryReader.Next` -/
def DirectoryReader.next (r : DirectoryReader) : Option (Entry Id × DirectoryReader) :=
  match r.decode fmt with
  | some p => some p
  | none => (openNext dir (some r.cur)).bind (DirectoryReader.decode fmt)

/-- The entries `Next` returns up to its first error, if it comes within so many calls. -/
def readAll : ℕ → DirectoryReader → Option (List (Entry Id))
  | 0, _ => none
  | fuel + 1, r =>
    match r.next fmt dir with
    | none => some []
    | some (e, r) => (readAll fuel r).map (e :: ·)

/-- Calling `Next` until its first error returns these entries. -/
def Reads (r : DirectoryReader) (es : List (Entry Id)) : Prop :=
  ∃ fuel, readAll fmt dir fuel r = some es

/-! ### Reading on -/

section Reads

variable {fmt dir} {r r' : DirectoryReader} {e : Entry Id} {es es' : List (Entry Id)}
  {bs : Bytes} {cur : String}

theorem Reads.nil (h : r.next fmt dir = none) : Reads fmt dir r [] :=
  ⟨1, by rw [readAll, h]⟩

theorem Reads.cons (h : r.next fmt dir = some (e, r')) (h' : Reads fmt dir r' es) :
    Reads fmt dir r (e :: es) := by
  obtain ⟨fuel, hfuel⟩ := h'
  refine ⟨fuel + 1, ?_⟩
  simp only [readAll, h, hfuel, Option.map_some]

/-- There is one outcome. -/
theorem Reads.unique (h : Reads fmt dir r es) (h' : Reads fmt dir r es') : es = es' := by
  obtain ⟨fuel, hfuel⟩ := h
  obtain ⟨fuel', hfuel'⟩ := h'
  induction fuel generalizing fuel' r es es' with
  | zero => cases hfuel
  | succ fuel ih =>
    cases fuel' with
    | zero => cases hfuel'
    | succ fuel' =>
      rw [readAll] at hfuel hfuel'
      rcases hnext : r.next fmt dir with - | ⟨e, r'⟩ <;> rw [hnext] at hfuel hfuel'
      · exact (Option.some.inj hfuel).symm.trans (Option.some.inj hfuel')
      · obtain ⟨xs, hxs, rfl⟩ := Option.map_eq_some_iff.1 hfuel
        obtain ⟨ys, hys, rfl⟩ := Option.map_eq_some_iff.1 hfuel'
        rw [ih hxs fuel' hys]

theorem decode_append (hfmt : fmt.Productive) (h : fmt.encode e = some bs) (rest : Bytes) :
    DirectoryReader.decode fmt ⟨cur, bs ++ rest⟩ = some (e, ⟨cur, rest⟩) := by
  rw [DirectoryReader.decode, hfmt.next_append h]
  simp only [List.drop_left]

theorem decode_nil : DirectoryReader.decode fmt ⟨cur, []⟩ = none := rfl

/-- The entries of the shard the reader is at come first. -/
theorem Reads.append (hfmt : fmt.Productive) (h : fmt.encodeAll es = some bs)
    (hend : Reads fmt dir ⟨cur, []⟩ es') : Reads fmt dir ⟨cur, bs⟩ (es ++ es') := by
  induction es generalizing bs with
  | nil =>
    cases h
    exact hend
  | cons e es ih =>
    obtain ⟨b, b', hb, hb', rfl⟩ := Codec.encodeAll_cons_eq_some.1 h
    refine Reads.cons ?_ (ih hb')
    rw [DirectoryReader.next, decode_append hfmt hb]

end Reads

/-! ### Reading shards -/

/-- The shards hold these entries. -/
def Holding (fmt : Codec UInt8 (Entry Id)) : List Shard → List (List (Entry Id)) → Prop :=
  List.Forall₂ fun sh es ↦ fmt.encodeAll es = some sh.data

/-- What a reader gets of shards with these entries: the first, and the others up to an empty
one. -/
def readShards {α : Type*} : List (List α) → List α
  | [] => []
  | c :: cs => c ++ (cs.takeWhile (!·.isEmpty)).flatten

section Shards

variable {fmt dir} {pre post : List Shard} {sh : Shard} {cs : List (List (Entry Id))}

private theorem nextAfter_eq (hnd : ((pre ++ sh :: post).map Shard.name).Nodup) :
    nextAfter sh.name ((pre ++ sh :: post).map Shard.name) = (post.map Shard.name).head? := by
  induction pre with
  | nil => simp [nextAfter]
  | cons a pre ih =>
    rw [List.cons_append, List.map_cons] at hnd ⊢
    have hne : a.name ≠ sh.name := fun heq ↦ (List.nodup_cons.1 hnd).1 (by simp [heq])
    rw [nextAfter, if_neg hne, ih (List.nodup_cons.1 hnd).2]

private theorem openShard_eq (hdir : dir.shards = pre ++ sh :: post)
    (hnd : (dir.shards.map Shard.name).Nodup) :
    dir.openShard sh.name = some ⟨sh.name, sh.data⟩ := by
  have hfind : dir.shards.find? (fun s ↦ s.name = sh.name) = some sh := by
    rw [hdir, List.find?_append]
    have hpre : pre.find? (fun s ↦ s.name = sh.name) = none := List.find?_eq_none.2 fun s hs ↦ by
      rw [hdir, List.map_append, List.map_cons] at hnd
      have hdisj := (List.nodup_append.1 hnd).2.2 s.name (List.mem_map_of_mem hs) sh.name
        List.mem_cons_self
      simpa using hdisj
    rw [hpre, Option.none_or, List.find?_cons_of_pos (by simp)]
  rw [Dir.openShard, hfind, Option.map_some]

/-- **At the end of a shard** the reader goes on up to the next shard without entries. -/
theorem reads_end (hfmt : fmt.Productive) (hsorted : dir.readDir = dir.shards.map Shard.name)
    (hnd : (dir.shards.map Shard.name).Nodup) (hdir : dir.shards = pre ++ sh :: post)
    (hpost : Holding fmt post cs) :
    Reads fmt dir ⟨sh.name, []⟩ (cs.takeWhile (!·.isEmpty)).flatten := by
  induction post generalizing pre sh cs with
  | nil =>
    cases hpost
    refine Reads.nil ?_
    rw [DirectoryReader.next, decode_nil, openNext, hsorted, hdir, nextAfter_eq (hdir ▸ hnd)]
    rfl
  | cons sh' post ih =>
    rcases hpost with - | ⟨hes, hpost⟩
    rename_i es cs
    have hdir' : dir.shards = (pre ++ [sh]) ++ sh' :: post := by
      rw [hdir, List.append_assoc]
      rfl
    have hend := ih hdir' hpost
    have hnext : openNext dir (some sh.name) = some ⟨sh'.name, sh'.data⟩ := by
      rw [openNext, hsorted]
      simp only [hdir, nextAfter_eq (hdir ▸ hnd), List.map_cons, List.head?_cons]
      exact openShard_eq hdir' hnd
    cases es with
    | nil =>
      have hdata : sh'.data = [] := (Option.some.inj hes).symm
      refine Reads.nil ?_
      rw [DirectoryReader.next, decode_nil, hnext, hdata]
      rfl
    | cons e es =>
      obtain ⟨b, b', hb, hb', hdata⟩ := Codec.encodeAll_cons_eq_some.1 hes
      refine Reads.cons ?_ (Reads.append hfmt hb' hend)
      rw [DirectoryReader.next, decode_nil, hnext, ← hdata]
      exact decode_append hfmt hb b'

/-- **What is read of a directory of shards.** -/
theorem reads_newDirectoryReader (hfmt : fmt.Productive)
    (hsorted : dir.readDir = dir.shards.map Shard.name) (hnd : (dir.shards.map Shard.name).Nodup)
    (hne : dir.shards ≠ []) (hcs : Holding fmt dir.shards cs) :
    ∃ r, newDirectoryReader dir = some r ∧ Reads fmt dir r (readShards cs) := by
  rcases hshards : dir.shards with - | ⟨sh, post⟩
  · exact absurd hshards hne
  have hshards' : dir.shards = [] ++ sh :: post := hshards
  rw [hshards] at hcs
  rcases hcs with - | ⟨hes, hpost⟩
  refine ⟨⟨sh.name, sh.data⟩, ?_, ?_⟩
  · rw [newDirectoryReader, openNext, hsorted, hshards]
    exact openShard_eq hshards' hnd
  · exact Reads.append hfmt hes (reads_end hfmt hsorted hnd hshards' hpost)

end Shards

end Log
