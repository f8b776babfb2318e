import Isle.Log.Reader
import Isle.Log.Retention
import Isle.Log.Sessions

/-!
# Reading a log that is being written

A `DirectoryReader` on a directory that sessions of writers go on with. A call of `Next` is not one
step: between the end of a shard, the listing of the directory, and the opening of the next shard,
a writer may rotate and prune. What is open can be read after it was removed. Without interference
the steps make up `DirectoryReader.next` (`Tail.call_of_next`).

`openNext` looks for the name of the shard the reader is at **in the new listing**. If that shard
was pruned in the meantime it finds no place to go on from, and returns `io.EOF` whatever is listed.

What is read is in the order in which it was written, whatever happens (`Following.sublist`). The
end is reported only when there is nothing newer exactly if no listing misses the reader's shard and
has a newer one (`follows_throughout_iff`).
-/

namespace Log

/-! ### The reader -/

/-- Where a call of the reader has come to. -/
inductive Stage
  /-- No call, or one that is about to decode. -/
  | ready
  /-- The decoder has returned an error, and `openNext` is about to list the directory. -/
  | ended
  /-- `openNext` is about to open a shard. -/
  | found (target : String)
  /-- `Next` is about to decode from the shard it has opened. -/
  | opened
  deriving DecidableEq, Repr

/-- `DirectoryReader`: the name of the shard it is at, how far its decoder has come in it, and
whether the file was closed. -/
structure Tail where
  cur : String
  pos : ℕ
  closed : Bool
  stage : Stage
  deriving DecidableEq, Repr

/-- A reader in `NewDirectoryReader`, in front of `openNext`. -/
def Tail.start : Tail := ⟨"", 0, true, .ended⟩

/-- What a step of a call returns, if it ends the call. -/
inductive Answer (Id : Type*)
  | more
  | entry (e : Entry Id)
  /-- `io.EOF` from `openNext`. -/
  | eof
  /-- The error of `os.Open`, or of the decoder on the shard that was opened. -/
  | error
  deriving DecidableEq, Repr

namespace Answer

variable {Id : Type*}

/-- The entry that an answer gives. -/
def entries : Answer Id → List (Entry Id)
  | entry e => [e]
  | more | eof | error => []

/-- The answer says that there is no more. -/
def isEof : Answer Id → Bool
  | eof => true
  | more | entry _ | error => false

end Answer

section Step

variable {Id : Type*} (fmt : Codec UInt8 (Entry Id)) (dir : Dir Id)

/-- What the file with a name holds, removed or not. -/
def Dir.bytesOf (name : String) : Bytes :=
  ((dir.all.find? fun sh ↦ sh.name = name).map Shard.data).getD []

/-- `Reader.Next`: an entry, and how many bytes it takes. -/
def Tail.decode (r : Tail) : Option (Entry Id × ℕ) :=
  if r.closed then none
  else
    match fmt.next ((dir.bytesOf r.cur).drop r.pos) with
    | .item e n => some (e, n)
    | _ => none

/-- The shard `openNext` goes on with: the first, or the one listed behind the reader's. -/
def Tail.target (r : Tail) : Option String :=
  if r.cur = "" then dir.readDir.head? else nextAfter r.cur dir.readDir

/-- One step of `NewDirectoryReader` or `Next`. -/
def Tail.step (r : Tail) : Option (Answer Id × Tail) :=
  match r.stage with
  | .ready =>
    match r.decode fmt dir with
    | some (e, n) => some (.entry e, { r with pos := r.pos + n })
    | none => some (.more, { r with stage := .ended })
  | .ended =>
    -- the file is closed before the directory is listed
    match r.target dir with
    | some target => some (.more, { r with closed := true, stage := .found target })
    | none =>
      -- `entries[0]` panics if there is nothing to begin with
      if r.cur = "" then none else some (.eof, { r with closed := true, stage := .ready })
  | .found target =>
    if target ∈ dir.shards.map Shard.name then
      some (.more, ⟨target, 0, false, if r.cur = "" then .ready else .opened⟩)
    else some (.error, { r with stage := if r.cur = "" then .ended else .ready })
  | .opened =>
    match r.decode fmt dir with
    | some (e, n) => some (.entry e, { r with pos := r.pos + n, stage := .ready })
    | none => some (.error, { r with stage := .ready })

/-- The directory has a shard newer than the one the reader is at. -/
def Tail.Newer (r : Tail) : Prop := r.cur ≠ "" ∧ ∃ name ∈ dir.readDir, r.cur < name

instance (r : Tail) : Decidable (r.Newer dir) := inferInstanceAs (Decidable (_ ∧ ∃ name ∈ _, _))

variable {fmt dir} {r r' : Tail} {a : Answer Id}

theorem Tail.step_of_target (hstage : r.stage = .ended) {target : String}
    (h : r.target dir = some target) :
    r.step fmt dir = some (.more, { r with closed := true, stage := .found target }) := by
  rw [Tail.step, hstage]
  simp only [h]

theorem Tail.step_of_target_eq_none (hstage : r.stage = .ended) (hcur : r.cur ≠ "")
    (h : r.target dir = none) :
    r.step fmt dir = some (.eof, { r with closed := true, stage := .ready }) := by
  rw [Tail.step, hstage]
  simp only [h, if_neg hcur]

theorem Tail.step_of_mem {target : String} (hstage : r.stage = .found target)
    (h : target ∈ dir.shards.map Shard.name) : r.step fmt dir =
      some (.more, ⟨target, 0, false, if r.cur = "" then .ready else .opened⟩) := by
  rw [Tail.step, hstage]
  simp only [if_pos h]

/-- What a step can do: read an entry, fail to, list the directory, or open a shard. -/
theorem Tail.step_cases (h : r.step fmt dir = some (a, r')) :
    (∃ e n, r.stage ≠ .ended ∧ r.decode fmt dir = some (e, n) ∧ a = .entry e ∧
      r' = { r with pos := r.pos + n, stage := .ready }) ∨
    (∃ stage, r.stage ≠ .ended ∧ (∀ name, stage ≠ .found name) ∧ (a = .more ∨ a = .error) ∧
      r' = { r with stage := stage }) ∨
    (∃ target, r.stage = .ended ∧ r.target dir = some target ∧ a = .more ∧
      r' = { r with closed := true, stage := .found target }) ∨
    (r.stage = .ended ∧ r.cur ≠ "" ∧ r.target dir = none ∧ a = .eof ∧
      r' = { r with closed := true, stage := .ready }) ∨
    ∃ target stage, r.stage = .found target ∧ (∀ name, stage ≠ .found name) ∧ a = .more ∧
      r' = ⟨target, 0, false, stage⟩ := by
  rw [Tail.step] at h
  rcases hstage : r.stage with - | - | target | - <;> rw [hstage] at h
  · rcases hdecode : r.decode fmt dir with - | ⟨e, n⟩ <;> rw [hdecode] at h <;> cases h
    · exact .inr (.inl ⟨.ended, by simp, by simp, .inl rfl, rfl⟩)
    · exact .inl ⟨e, n, by simp, rfl, rfl, rfl⟩
  · rcases htarget : r.target dir with - | target <;> simp only [htarget] at h
    · split_ifs at h with hcur
      cases h
      exact .inr (.inr (.inr (.inl ⟨rfl, hcur, rfl, rfl, rfl⟩)))
    · cases h
      exact .inr (.inr (.inl ⟨target, rfl, rfl, rfl, rfl⟩))
  · simp only at h
    by_cases hthere : target ∈ dir.shards.map Shard.name
    · rw [if_pos hthere] at h
      cases h
      refine .inr (.inr (.inr (.inr ⟨target, _, rfl, fun name ↦ ?_, rfl, rfl⟩)))
      split_ifs <;> simp
    · rw [if_neg hthere] at h
      cases h
      refine .inr (.inl ⟨_, by simp, fun name ↦ ?_, .inr rfl, rfl⟩)
      split_ifs <;> simp
  · rcases hdecode : r.decode fmt dir with - | ⟨e, n⟩ <;> rw [hdecode] at h <;> cases h
    · exact .inr (.inl ⟨.ready, by simp, by simp, .inr rfl, rfl⟩)
    · exact .inl ⟨e, n, by simp, rfl, rfl, rfl⟩

/-- The end is reported by a listing in which there is nothing to go on with. -/
theorem Tail.isEof_iff_of_step (h : r.step fmt dir = some (a, r')) :
    a.isEof = true ↔ r.stage = .ended ∧ r.cur ≠ "" ∧ nextAfter r.cur dir.readDir = none := by
  rcases Tail.step_cases h with ⟨e, n, hstage, -, rfl, -⟩ | ⟨stage, hstage, -, ha, -⟩ |
    ⟨target, -, htarget, rfl, -⟩ | ⟨hstage, hcur, htarget, rfl, -⟩ |
    ⟨target, stage, hstage, -, rfl, -⟩
  · exact iff_of_false Bool.false_ne_true fun h' ↦ hstage h'.1
  · refine iff_of_false ?_ fun h' ↦ hstage h'.1
    rcases ha with rfl | rfl
    · exact Bool.false_ne_true
    · exact Bool.false_ne_true
  · refine iff_of_false Bool.false_ne_true ?_
    rintro ⟨-, hcur, hnone⟩
    rw [Tail.target, if_neg hcur, hnone] at htarget
    cases htarget
  · rw [Tail.target, if_neg hcur] at htarget
    exact iff_of_true rfl ⟨hstage, hcur, htarget⟩
  · refine iff_of_false Bool.false_ne_true fun h' ↦ ?_
    rw [hstage] at h'
    exact Stage.noConfusion h'.1

end Step

/-! ### Writers and a reader -/

/-- Sessions on a directory and a reader on it: what was given to be written, what was read, and
whether the end was reported with something newer there. -/
structure Follow (Id : Type*) where
  site : Site Id
  tail : Tail
  written : List (Entry Id)
  out : List (Entry Id)
  missed : Bool

/-- An empty directory. -/
def Follow.start {Id : Type*} : Follow Id := ⟨.idle .empty, .start, [], [], false⟩

/-- **The reader follows the log**: what it has read is a subsequence of what was written, and it
has not reported the end with a newer shard there. -/
structure Follows {Id : Type*} (s : Follow Id) : Prop where
  sublist : s.out.Sublist s.written
  missed : s.missed = false

section Machine

variable {Id : Type*} [LinearOrder Id] {U : Ulid Id} (fmt : Codec UInt8 (Entry Id))

/-- A call on the writer's side, or a step of the reader. -/
inductive FollowCall (U : Ulid Id)
  /-- A call of a writer. -/
  | site (a : SiteCall U)
  /-- A step of the reader. -/
  | read

/-- One of these, and what is then written and read. -/
def followStep (s : Follow Id) : FollowCall U → Option (Follow Id)
  | .site a => (siteStep fmt s.site a).map fun site ↦
      { s with site := site, written := s.written ++ a.entries }
  | .read => (s.tail.step fmt s.site.dir).map fun r ↦
      { s with
        tail := r.2
        out := s.out ++ r.1.entries
        missed := s.missed || (r.1.isEof && s.tail.Newer s.site.dir) }

variable {fmt} in
theorem followStep_site {s : Follow Id} {a : SiteCall U} {site : Site Id}
    (h : siteStep fmt s.site a = some site) : followStep fmt s (.site a) =
      some { s with site := site, written := s.written ++ a.entries } := by
  rw [followStep, h, Option.map_some]

variable {fmt} in
theorem followStep_read {s : Follow Id} {a : Answer Id} {r : Tail}
    (h : s.tail.step fmt s.site.dir = some (a, r)) : followStep fmt s (.read : FollowCall U) =
      some { s with
        tail := r
        out := s.out ++ a.entries
        missed := s.missed || (a.isEof && s.tail.Newer s.site.dir) } := by
  rw [followStep, h, Option.map_some]

/-- The ids drawn so far and in the call increase. -/
def FollowRises (s : Follow Id) : FollowCall U → Prop
  | .site a => Rises fmt s.site a
  | .read => True

/-- A listing has the shard the reader is at, or nothing newer. -/
def Listed (s : Follow Id) : FollowCall U → Prop
  | .site _ => True
  | .read => s.tail.stage = .ended →
      s.tail.cur ∈ s.site.dir.readDir ∨ ¬ s.tail.Newer s.site.dir

instance (s : Follow Id) : ∀ a : FollowCall U, Decidable (FollowRises fmt s a)
  | .site a => inferInstanceAs (Decidable (Rises fmt s.site a))
  | .read => isTrue trivial

instance (s : Follow Id) : ∀ a : FollowCall U, Decidable (Listed s a)
  | .site _ => isTrue trivial
  | .read => inferInstanceAs (Decidable (_ → _))

end Machine

/-! ### The place in a listing -/

section NextAfter

variable {cur target : String} {names : List String}

theorem mem_of_nextAfter (h : nextAfter cur names = some target) : target ∈ names := by
  induction names with
  | nil => cases h
  | cons n ns ih =>
    rw [nextAfter] at h
    split_ifs at h
    · exact List.mem_cons_of_mem n (List.mem_of_head? h)
    · exact List.mem_cons_of_mem n (ih h)

theorem lt_of_nextAfter (h : names.Pairwise (· < ·)) (htarget : nextAfter cur names = some target) :
    cur < target := by
  induction names with
  | nil => cases htarget
  | cons n ns ih =>
    obtain ⟨hn, hns⟩ := List.pairwise_cons.1 h
    rw [nextAfter] at htarget
    split_ifs at htarget with heq
    · exact heq ▸ hn target (List.mem_of_head? htarget)
    · exact ih hns htarget

/-- Without the name there is no place to go on from. -/
theorem nextAfter_of_notMem (h : cur ∉ names) : nextAfter cur names = none := by
  induction names with
  | nil => rfl
  | cons n ns ih =>
    obtain ⟨hne, hns⟩ := not_or.1 (mt List.mem_cons.2 h)
    rw [nextAfter, if_neg (Ne.symm hne), ih hns]

/-- With it, nothing is found only if there is nothing newer. -/
theorem not_lt_of_nextAfter (h : names.Pairwise (· < ·)) (hcur : cur ∈ names)
    (hnone : nextAfter cur names = none) : ∀ name ∈ names, ¬ cur < name := by
  induction names with
  | nil => cases hcur
  | cons n ns ih =>
    obtain ⟨hn, hns⟩ := List.pairwise_cons.1 h
    rw [nextAfter] at hnone
    split_ifs at hnone with heq
    · obtain rfl := List.head?_eq_none_iff.1 hnone
      intro name hname
      rw [List.mem_singleton.1 hname, heq]
      exact lt_irrefl cur
    · have hmem : cur ∈ ns := (List.mem_cons.1 hcur).resolve_left (Ne.symm heq)
      intro name hname
      rcases List.mem_cons.1 hname with rfl | hname
      · exact (hn cur hmem).not_gt
      · exact ih hns hmem hnone name hname

end NextAfter

/-! ### A call that nothing interferes with -/

section Call

variable {Id : Type*} (fmt : Codec UInt8 (Entry Id)) (dir : Dir Id)

/-- A whole call on a directory that does not change: steps up to the one that ends it. -/
inductive Tail.Call : Tail → Answer Id → Tail → Prop
  | done {r r' : Tail} {a : Answer Id} (h : r.step fmt dir = some (a, r')) (ha : a ≠ .more) :
      Call r a r'
  | more {r r' r'' : Tail} {a : Answer Id} (h : r.step fmt dir = some (.more, r'))
      (hrest : Call r' a r'') : Call r a r''

/-- The reader as one of a directory that does not change: with what it has not read. -/
def Tail.reader (r : Tail) : DirectoryReader := ⟨r.cur, (dir.bytesOf r.cur).drop r.pos⟩

variable {fmt dir} {r : Tail}

variable (fmt dir) in
theorem Tail.decode_reader (hopen : r.closed = false) :
    (r.reader dir).decode fmt =
      (r.decode fmt dir).map fun p ↦ (p.1, Tail.reader dir { r with pos := r.pos + p.2 }) := by
  rw [DirectoryReader.decode, Tail.decode, hopen, if_neg Bool.false_ne_true]
  rw [show (r.reader dir).rest = (dir.bytesOf r.cur).drop r.pos from rfl]
  rcases fmt.next ((dir.bytesOf r.cur).drop r.pos) with ⟨e, n⟩ | - | -
  · simp only [Option.map_some, Tail.reader, List.drop_drop]
  · rfl
  · rfl

/-- A shard in the directory is opened at its beginning. -/
theorem Tail.openShard_reader {name : String} (h : name ∈ dir.shards.map Shard.name)
    (stage : Stage) : dir.openShard name = some (Tail.reader dir ⟨name, 0, false, stage⟩) := by
  obtain ⟨sh, hsh⟩ : ∃ sh, dir.shards.find? (fun sh ↦ decide (sh.name = name)) = some sh := by
    obtain ⟨sh, hsh, rfl⟩ := List.mem_map.1 h
    exact Option.isSome_iff_exists.1 (List.find?_isSome.2 ⟨sh, hsh, decide_eq_true rfl⟩)
  rw [Dir.openShard, hsh, Option.map_some, Tail.reader, Dir.bytesOf, Dir.all, List.find?_append,
    hsh, Option.some_or, Option.map_some, Option.getD_some, List.drop_zero]

/-- **Without interference a call in steps is `DirectoryReader.Next`**: it returns the entry that
one returns and is left as that one is, and where that one fails it returns an error. -/
theorem Tail.call_of_next (hstage : r.stage = .ready) (hopen : r.closed = false)
    (hcur : r.cur ≠ "") :
    match (r.reader dir).next fmt dir with
    | some (e, r') => ∃ t, r.Call fmt dir (.entry e) t ∧ t.stage = .ready ∧ t.closed = false ∧
        t.reader dir = r'
    | none => ∃ a t, r.Call fmt dir a t ∧ (a = .eof ∨ a = .error) := by
  rw [DirectoryReader.next, Tail.decode_reader fmt dir hopen]
  rcases hdecode : r.decode fmt dir with - | ⟨e, n⟩
  · -- the shard is read: list, open, decode
    have hended : r.step fmt dir = some (.more, { r with stage := .ended }) := by
      rw [Tail.step, hstage]
      simp only [hdecode]
    have htarget : Tail.target dir { r with stage := .ended } = nextAfter r.cur dir.readDir :=
      if_neg hcur
    rcases hnext : nextAfter r.cur dir.readDir with - | target
    · simp only [Option.map_none, openNext, show (r.reader dir).cur = r.cur from rfl, hnext]
      exact ⟨.eof, _, .more hended (.done (Tail.step_of_target_eq_none rfl hcur
        (htarget.trans hnext)) (by simp)), .inl rfl⟩
    · have hmem : target ∈ dir.shards.map Shard.name :=
        (List.mergeSort_perm _ _).mem_iff.1 (mem_of_nextAfter hnext)
      have hopened : Tail.step fmt dir ⟨r.cur, r.pos, true, .found target⟩ =
          some (.more, ⟨target, 0, false, .opened⟩) := by
        rw [Tail.step_of_mem rfl hmem, if_neg hcur]
      have hcall : ∀ {a : Answer Id} {t : Tail}, a ≠ .more →
          Tail.step fmt dir ⟨target, 0, false, .opened⟩ = some (a, t) → r.Call fmt dir a t :=
        fun ha h ↦ .more hended (.more (Tail.step_of_target rfl (htarget.trans hnext))
          (.more hopened (.done h ha)))
      have hsecond := Tail.decode_reader fmt dir (r := ⟨target, 0, false, .opened⟩) rfl
      simp only [Option.map_none, openNext, show (r.reader dir).cur = r.cur from rfl, hnext,
        Option.bind_eq_bind, Option.bind_some, Tail.openShard_reader hmem .opened, hsecond]
      rcases hdecode' : Tail.decode fmt dir ⟨target, 0, false, .opened⟩ with - | ⟨e, n⟩
      · refine ⟨.error, ⟨target, 0, false, .ready⟩, hcall (by simp) ?_, .inr rfl⟩
        simp only [Tail.step, hdecode']
      · refine ⟨⟨target, 0 + n, false, .ready⟩, hcall (by simp) ?_, rfl, rfl, rfl⟩
        simp only [Tail.step, hdecode']
  · simp only [Option.map_some]
    refine ⟨{ r with pos := r.pos + n }, .done ?_ (by simp), hstage, hopen, rfl⟩
    rw [Tail.step, hstage]
    simp only [hdecode]

end Call

/-! ### What is decoded -/

section Place

variable {Id : Type*} [LinearOrder Id] {U : Ulid Id} {fmt : Codec UInt8 (Entry Id)} {dir : Dir Id}
  {segs : Segments Id} {id : Id} {read rest : List (Entry Id)} {bs : Bytes} {e : Entry Id}
  {n : ℕ}

theorem shardName_ne_empty : shardName U id ≠ "" := fun h ↦ by
  have hlist := congrArg String.toList h
  rw [toList_shardName] at hlist
  simp at hlist

/-- Behind the entries already read of a shard comes the next of those given to it. -/
theorem Chronicle.next_bytesOf (h : Chronicle U fmt dir segs) (hs : (id, read ++ rest) ∈ segs)
    (hread : fmt.encodeAll read = some bs)
    (hnext : fmt.next ((dir.bytesOf (shardName U id)).drop bs.length) = .item e n) :
    ∃ rest' b, rest = e :: rest' ∧ fmt.encode e = some b ∧ b.length = n := by
  rw [Dir.bytesOf] at hnext
  rcases hfind : dir.all.find? (fun sh ↦ decide (sh.name = shardName U id)) with - | sh
  · rw [hfind, Option.map_none, Option.getD_none, List.drop_nil, Codec.next_nil] at hnext
    cases hnext
  rw [hfind, Option.map_some, Option.getD_some] at hnext
  have hname : sh.name = shardName U id := by simpa using List.find?_some hfind
  obtain ⟨all, hall, hpart⟩ := h.holds sh (List.mem_of_find?_eq_some hfind) _ hs hname
  obtain ⟨bs₁, bs', hbs₁, hbs', rfl⟩ := Codec.encodeAll_append_eq_some.1 hall
  obtain rfl := Option.some.inj (hread.symm.trans hbs₁)
  have hdrop := hpart.drop bs.length
  rw [List.drop_left] at hdrop
  rcases rest with - | ⟨e', rest'⟩
  · cases hbs'
    rw [List.prefix_nil.1 hdrop, Codec.next_nil] at hnext
    cases hnext
  · obtain ⟨b, b', hb, -, rfl⟩ := Codec.encodeAll_cons_eq_some.1 hbs'
    rcases fmt.next_of_prefix hb hdrop with hinc | ⟨-, -, -, hitem⟩
    · rw [hinc] at hnext
      cases hnext
    · rw [hitem] at hnext
      cases hnext
      exact ⟨rest', b, rfl, hb, rfl⟩

/-- A listing is sorted, and has shards of the chronicle. -/
theorem Chronicle.readDir_sorted (h : Chronicle U fmt dir segs)
    (hdrawn : dir.drawn.Pairwise (· < ·)) :
    dir.readDir.Pairwise (· < ·) ∧ ∀ name ∈ dir.readDir, ∃ s ∈ segs, name = shardName U s.1 := by
  obtain ⟨segs', hsub, hnamed⟩ := h.exists_named
  have hids : (segs'.map Prod.fst).Pairwise (· < ·) :=
    hdrawn.sublist (((hsub.map Prod.fst).trans (ids_sublist_stamps segs)).trans h.drawn)
  rw [hnamed.readDir_eq hids]
  refine ⟨List.pairwise_map.2 (hids.imp shardName_lt_shardName), fun name hname ↦ ?_⟩
  obtain ⟨id, hid, rfl⟩ := List.mem_map.1 hname
  obtain ⟨s, hs, rfl⟩ := List.mem_map.1 hid
  exact ⟨s, hsub.subset hs, rfl⟩

/-! ### The place in the chronicle -/

/-- **The reader's place in a chronicle**: it is in front of the first shard, or it has read some
entries of its shard, and nothing but entries up to there. -/
structure Reading (U : Ulid Id) (fmt : Codec UInt8 (Entry Id)) (segs : Segments Id)
    (out : List (Entry Id)) (r : Tail) : Prop where
  place : (r.cur = "" ∧ out = [] ∧ r.closed = true) ∨
    ∃ pre id read rest post bs, segs = pre ++ (id, read ++ rest) :: post ∧
      r.cur = shardName U id ∧ fmt.encodeAll read = some bs ∧
      (r.closed = false → bs.length = r.pos) ∧ out.Sublist (pre.flatMap Prod.snd ++ read)
  /-- The shard to be opened comes behind. -/
  target : ∀ target, r.stage = .found target →
    ∃ s ∈ segs, target = shardName U s.1 ∧ (r.cur ≠ "" → r.cur < target)

variable {segs' : Segments Id} {out new : List (Entry Id)} {r : Tail}

theorem Reading.start : Reading U fmt [] [] .start :=
  ⟨.inl ⟨rfl, rfl, rfl⟩, fun _ h ↦ Stage.noConfusion h⟩

theorem Reading.sublist (h : Reading U fmt segs out r) :
    out.Sublist (segs.flatMap Prod.snd) := by
  rcases h.place with ⟨-, rfl, -⟩ | ⟨pre, id, read, rest, post, bs, rfl, -, -, -, hout⟩
  · exact List.nil_sublist _
  · rw [List.flatMap_append, List.flatMap_cons]
    refine hout.trans ((List.Sublist.refl _).append ?_)
    rw [List.append_assoc]
    exact List.sublist_append_left _ _

/-- A chronicle that goes on does not move the reader. -/
theorem Reading.continues (h : Reading U fmt segs out r) (hsegs : Continues segs segs' new) :
    Reading U fmt segs' out r := by
  constructor
  · rcases h.place with hstart | ⟨pre, id, read, rest, post, bs, heq, hplace⟩
    · exact .inl hstart
    · obtain ⟨es', post', heq'⟩ := hsegs.segment _ _ _ _ heq
      exact .inr ⟨pre, id, read, rest ++ es', post', bs, by rw [heq', List.append_assoc], hplace⟩
  · intro target htarget
    obtain ⟨⟨id, es⟩, hs, hname⟩ := h.target target htarget
    obtain ⟨pre, post, heq⟩ := List.append_of_mem hs
    obtain ⟨es', post', heq'⟩ := hsegs.segment _ _ _ _ heq
    exact ⟨(id, es ++ es'), by rw [heq']; simp, hname⟩

/-- A step that reads nothing, and closes the file at most, does not move it. -/
theorem Reading.silent {r' : Tail} {a : Answer Id} (h : Reading U fmt segs out r)
    (ha : a.entries = []) (hcur : r'.cur = r.cur)
    (hpos : r'.closed = false → r.closed = false ∧ r'.pos = r.pos)
    (htarget : ∀ target, r'.stage = .found target →
      ∃ s ∈ segs, target = shardName U s.1 ∧ (r.cur ≠ "" → r.cur < target)) :
    Reading U fmt segs (out ++ a.entries) r' := by
  rw [ha, List.append_nil]
  refine ⟨?_, by rwa [hcur]⟩
  rcases h.place with ⟨hempty, hout, hclosed⟩ |
    ⟨pre, id, read, rest, post, bs, heq, hname, hread, hbs, hout⟩
  · refine .inl ⟨hcur.trans hempty, hout, ?_⟩
    by_contra hopen
    rw [Bool.not_eq_true] at hopen
    rw [(hpos hopen).1] at hclosed
    cases hclosed
  · refine .inr ⟨pre, id, read, rest, post, bs, heq, hcur.trans hname, hread, fun hopen ↦ ?_, hout⟩
    obtain ⟨hclosed, hsame⟩ := hpos hopen
    rw [hsame]
    exact hbs hclosed

/-- **An entry is read**: the next of those given to the shard. -/
theorem Reading.decode (h : Reading U fmt segs out r) (hdir : Chronicle U fmt dir segs)
    (hdecode : r.decode fmt dir = some (e, n)) :
    Reading U fmt segs (out ++ [e]) { r with pos := r.pos + n, stage := .ready } := by
  rw [Tail.decode] at hdecode
  split_ifs at hdecode with hclosed
  rw [Bool.not_eq_true] at hclosed
  rcases h.place with ⟨-, -, hclosed'⟩ |
    ⟨pre, id, read, rest, post, bs, rfl, hname, hread, hbs, hout⟩
  · rw [hclosed] at hclosed'
    cases hclosed'
  rw [hname, ← hbs hclosed] at hdecode
  obtain ⟨rest', b, rfl, hb, rfl⟩ : ∃ rest' b, rest = e :: rest' ∧ fmt.encode e = some b ∧
      b.length = n := by
    split at hdecode
    · rename_i e' n' hnext
      cases hdecode
      exact hdir.next_bytesOf (List.mem_append_right _ List.mem_cons_self) hread hnext
    · cases hdecode
  refine ⟨.inr ⟨pre, id, read ++ [e], rest', post, bs ++ b, by simp, hname,
    Codec.encodeAll_append hread (Codec.encodeAll_singleton hb), fun _ ↦ ?_, ?_⟩,
    fun _ hstage ↦ Stage.noConfusion hstage⟩
  · rw [List.length_append, hbs hclosed]
  · rw [← List.append_assoc]
    exact hout.append (List.Sublist.refl _)

/-- In a list sorted by a key, what comes up to an element with a smaller key comes before. -/
private theorem prefix_of_key_lt {α : Type*} {f : α → Id} {l pre post pre' post' : List α} {x y : α}
    (h : (l.map f).Pairwise (· < ·)) (hx : l = pre ++ x :: post) (hy : l = pre' ++ y :: post')
    (hlt : f x < f y) : pre ++ [x] <+: pre' := by
  rcases List.append_eq_append_iff.1 (hx.symm.trans hy) with ⟨mid, rfl, hmid⟩ | ⟨mid, rfl, hmid⟩
  · rcases mid with - | ⟨z, mid⟩
    · obtain ⟨rfl, -⟩ := List.cons_eq_cons.1 hmid
      exact absurd hlt (lt_irrefl _)
    · obtain ⟨rfl, -⟩ := List.cons_eq_cons.1 hmid
      exact ⟨mid, by simp⟩
  · rcases mid with - | ⟨z, mid⟩
    · obtain ⟨rfl, -⟩ := List.cons_eq_cons.1 hmid
      exact absurd hlt (lt_irrefl _)
    · obtain ⟨rfl, -⟩ := List.cons_eq_cons.1 hmid
      rw [hx, List.map_append, List.pairwise_append] at h
      have hgt := h.2.2 (f y) (List.mem_map_of_mem (by simp)) (f x) (List.mem_map_of_mem (by simp))
      exact absurd hlt hgt.not_gt

/-- **The next shard is opened**, in front of its first entry. -/
theorem Reading.opened (h : Reading U fmt segs out r) (hids : (segs.map Prod.fst).Pairwise (· < ·))
    {target : String} (hstage : r.stage = .found target) {stage : Stage}
    (hstage' : ∀ name, stage ≠ .found name) : Reading U fmt segs out ⟨target, 0, false, stage⟩ := by
  obtain ⟨⟨id', es'⟩, hs, rfl, hlt⟩ := h.target target hstage
  obtain ⟨pre', post', heq'⟩ := List.append_of_mem hs
  refine ⟨.inr ⟨pre', id', [], es', post', [], heq', rfl, rfl, fun _ ↦ rfl, ?_⟩,
    fun name hname ↦ absurd hname (hstage' name)⟩
  rw [List.append_nil]
  rcases h.place with ⟨-, rfl, -⟩ | ⟨pre, id, read, rest, post, bs, heq, hname, -, -, hout⟩
  · exact List.nil_sublist _
  · have hid : id < id' := by
      rw [hname] at hlt
      by_contra hle
      rcases (not_lt.1 hle).lt_or_eq with hgt | rfl
      · exact absurd (hlt shardName_ne_empty) (shardName_lt_shardName hgt).not_gt
      · exact lt_irrefl _ (hlt shardName_ne_empty)
    obtain ⟨mid, rfl⟩ := prefix_of_key_lt hids heq heq' hid
    refine hout.trans ?_
    rw [List.flatMap_append, List.flatMap_append, List.flatMap_singleton, List.append_assoc]
    refine (List.Sublist.refl _).append ?_
    rw [List.append_assoc]
    exact List.sublist_append_left _ _

/-- Every step of a call. -/
theorem Reading.step (h : Reading U fmt segs out r) (hdir : Chronicle U fmt dir segs)
    (hdrawn : dir.drawn.Pairwise (· < ·)) {a : Answer Id} {r' : Tail}
    (hstep : r.step fmt dir = some (a, r')) : Reading U fmt segs (out ++ a.entries) r' := by
  have hids : (segs.map Prod.fst).Pairwise (· < ·) :=
    hdrawn.sublist ((ids_sublist_stamps segs).trans hdir.drawn)
  obtain ⟨hsorted, hmem⟩ := hdir.readDir_sorted hdrawn
  have hready : ∀ name, Stage.ready ≠ .found name := fun _ h' ↦ Stage.noConfusion h'
  rcases Tail.step_cases hstep with ⟨e, n, -, hdecode, rfl, rfl⟩ | ⟨stage, -, hstage, ha, rfl⟩ |
    ⟨target, -, htarget, rfl, rfl⟩ | ⟨-, -, -, rfl, rfl⟩ | ⟨target, stage, hfound, hstage, rfl, rfl⟩
  · exact h.decode hdir hdecode
  · refine h.silent ?_ rfl (fun hopen ↦ ⟨hopen, rfl⟩) fun name h' ↦ absurd h' (hstage name)
    rcases ha with rfl | rfl
    · rfl
    · rfl
  · refine h.silent rfl rfl (fun hopen ↦ absurd hopen.symm Bool.false_ne_true) ?_
    rintro name ⟨⟩
    rw [Tail.target] at htarget
    split_ifs at htarget with hcur
    · obtain ⟨s, hs, hname⟩ := hmem _ (List.mem_of_head? htarget)
      exact ⟨s, hs, hname, fun hne ↦ absurd hcur hne⟩
    · obtain ⟨s, hs, hname⟩ := hmem _ (mem_of_nextAfter htarget)
      exact ⟨s, hs, hname, fun _ ↦ lt_of_nextAfter hsorted htarget⟩
  · exact h.silent rfl rfl (fun hopen ↦ absurd hopen.symm Bool.false_ne_true)
      fun name h' ↦ absurd h' (hready name)
  · rw [Answer.entries, List.append_nil]
    exact h.opened hids hfound hstage

end Place

/-! ### Runs -/

section Runs

variable {Id : Type*} [LinearOrder Id] {U : Ulid Id} {fmt : Codec UInt8 (Entry Id)}
  {s s' : Follow Id} {a : FollowCall U}

/-- The reader has its place in a chronicle of the directory, of entries that were written. -/
structure Following (U : Ulid Id) (fmt : Codec UInt8 (Entry Id)) (s : Follow Id) : Prop where
  drawn : s.site.dir.drawn.Pairwise (· < ·)
  reading : ∃ segs, s.site.Kept U fmt segs ∧ (segs.flatMap Prod.snd).Sublist s.written ∧
    Reading U fmt segs s.out s.tail

theorem Following.start : Following U fmt .start :=
  ⟨.nil, [], Chronicle.empty, .slnil, .start⟩

/-- What is read is in the order in which it was written. -/
theorem Following.sublist (h : Following U fmt s) : s.out.Sublist s.written := by
  obtain ⟨segs, -, hwritten, hreading⟩ := h.reading
  exact hreading.sublist.trans hwritten

theorem Following.step (h : Following U fmt s) (hrises : FollowRises fmt s a)
    (hstep : followStep fmt s a = some s') : Following U fmt s' := by
  obtain ⟨segs, hkept, hwritten, hreading⟩ := h.reading
  cases a with
  | site a =>
    obtain ⟨site, hsite, rfl⟩ := Option.map_eq_some_iff.1 hstep
    have hdrawn := hrises site hsite
    obtain ⟨segs', hkept', hcontinues⟩ := hkept.step hsite hdrawn
    refine ⟨hdrawn, segs', hkept', ?_, hreading.continues hcontinues⟩
    exact hcontinues.entries.trans (hwritten.append (List.Sublist.refl _))
  | read =>
    obtain ⟨⟨ans, r⟩, hread, rfl⟩ := Option.map_eq_some_iff.1 hstep
    exact ⟨h.drawn, segs, hkept, hwritten, hreading.step hkept.chronicle h.drawn hread⟩

/-- **A step reports the end with something newer there exactly if it lists the directory without
the reader's shard.** -/
theorem Following.missed_iff (h : Following U fmt s) (hmissed : s.missed = false)
    (hstep : followStep fmt s a = some s') : s'.missed = false ↔ Listed s a := by
  cases a with
  | site a =>
    obtain ⟨site, -, rfl⟩ := Option.map_eq_some_iff.1 hstep
    exact iff_of_true hmissed trivial
  | read =>
    obtain ⟨⟨ans, r⟩, hread, rfl⟩ := Option.map_eq_some_iff.1 hstep
    obtain ⟨segs, hkept, -⟩ := h.reading
    obtain ⟨hsorted, -⟩ := hkept.chronicle.readDir_sorted h.drawn
    have heof := Tail.isEof_iff_of_step hread
    simp only [hmissed, Bool.false_or, Bool.and_eq_false_imp, decide_eq_false_iff_not]
    constructor
    · intro hnot hended
      by_cases hcur : s.tail.cur ∈ s.site.dir.readDir
      · exact .inl hcur
      · exact .inr fun hnewer ↦
          hnot (heof.2 ⟨hended, hnewer.1, nextAfter_of_notMem hcur⟩) hnewer
    · rintro hlisted hans ⟨hne, name, hname, hlt⟩
      obtain ⟨hended, -, hnone⟩ := heof.1 hans
      rcases hlisted hended with hcur | hnewer
      · exact not_lt_of_nextAfter hsorted hcur hnone name hname hlt
      · exact hnewer ⟨hne, name, hname, hlt⟩

/-- **A reader under pruning.** In every run of sessions and a reader, in which ids increase: what
is read is a subsequence of what was written and the end is never reported with a newer shard there,
exactly if every listing has the shard the reader is at, or nothing newer. -/
theorem follows_throughout_iff {as : List (FollowCall U)}
    (h : RunWhile (followStep fmt) (FollowRises fmt) .start as s) :
    Throughout (followStep fmt) Follows .start as ↔
      RunWhile (followStep fmt) Listed .start as s := by
  refine h.throughout_iff_of_invariant (I := fun s ↦ Following U fmt s ∧ s.missed = false)
    (fun s hs ↦ ⟨hs.1.sublist, hs.2⟩) (fun s a t hs hrises hstep ↦ ?_)
    (fun s a t hs hrises hlisted hstep ↦ ?_) ⟨.start, rfl⟩
  · have hnext := hs.1.step hrises hstep
    exact ⟨fun ht ↦ (hs.1.missed_iff hs.2 hstep).1 ht.missed,
      fun hlisted ↦ ⟨hnext.sublist, (hs.1.missed_iff hs.2 hstep).2 hlisted⟩⟩
  · exact ⟨hs.1.step hrises hstep, (hs.1.missed_iff hs.2 hstep).2 hlisted⟩

end Runs

/-! ### A reader of one shard -/

theorem Dir.readDir_singleton {Id : Type*} {dir : Dir Id} {name : String}
    (h : dir.shards.map Shard.name = [name]) : dir.readDir = [name] := by
  rw [Dir.readDir, h, List.mergeSort_singleton]

/-- A reader opens the shard of the first writer. -/
theorem run_open {Id : Type*} [LinearOrder Id] {U : Ulid Id} (fmt : Codec UInt8 (Entry Id))
    {max shards : ℤ} {id : Id} {d : DirectoryWriter Id}
    (hd : newDirectoryWriter U .empty max shards (some id) true = .ok d) :
    RunWhile (followStep fmt) (fun s (a : FollowCall U) ↦ FollowRises fmt s a ∧ Listed s a) .start
      [.site (.new max shards (some id) true), .read, .read]
      ⟨.writing d, ⟨shardName U id, 0, false, .ready⟩, [], [], false⟩ := by
  have hnew : siteStep fmt (.idle .empty) (SiteCall.new (U := U) max shards (some id) true) =
      some (.writing d) := by
    simp only [siteStep, Site.dir, hd]
  have hshards : d.dir.shards.map Shard.name = [shardName U id] := by
    cases hd
    rfl
  have hdrawn : d.dir.drawn = [id] := by
    cases hd
    rfl
  have hlist : followStep fmt ⟨.writing d, .start, [], [], false⟩ (.read : FollowCall U) =
      some ⟨.writing d, ⟨"", 0, true, .found (shardName U id)⟩, [], [], false⟩ := by
    have htarget : Tail.start.target d.dir = some (shardName U id) := by
      rw [Tail.target, Dir.readDir_singleton hshards]
      rfl
    exact (followStep_read (Tail.step_of_target rfl (by exact htarget))).trans rfl
  have hopen : followStep fmt ⟨.writing d, ⟨"", 0, true, .found (shardName U id)⟩, [], [], false⟩
      (.read : FollowCall U) =
      some ⟨.writing d, ⟨shardName U id, 0, false, .ready⟩, [], [], false⟩ :=
    followStep_read (Tail.step_of_mem rfl (hshards ▸ List.mem_singleton_self _))
  refine .cons ⟨fun s hs ↦ ?_, trivial⟩ (followStep_site hnew)
    (.cons ⟨trivial, fun _ ↦ .inr fun h ↦ h.1 rfl⟩ hlist
      (.cons ⟨trivial, fun h ↦ Stage.noConfusion h⟩ hopen (.nil _)))
  obtain rfl := Option.some.inj (hnew.symm.trans hs)
  exact hdrawn ▸ List.pairwise_singleton _ _

/-- A reader opens the only shard, reads the entry that was written meanwhile, and reports the
end. -/
def followOne : List (FollowCall ulid128) :=
  [.site (.new 1000 1 (some (ulidAt 0 1)) true), .read, .read] ++
    ([.site (.write (rotatingWrite (ulidAt 1 0) (ulidAt 1 1))), .site .close, .read, .read] ++
      [.read])

/-- An entry is followed through a rotation. -/
theorem follows_followOne :
    ∃ s, RunWhile (followStep cborEntry) (FollowRises cborEntry) .start followOne s ∧
      s.out = [⟨ulidAt 1 0, [97]⟩] ∧
      Throughout (followStep cborEntry) Follows .start followOne := by
  have hopen := run_open cborEntry (show newDirectoryWriter ulid128 .empty 1000 1
    (some (ulidAt 0 1)) true = .ok { eagerWriter (ulidAt 0 1) 1 with max := 1000 } from rfl)
  obtain ⟨s₁, hmid, htail, hnames, hout⟩ : ∃ s₁, RunWhile (followStep cborEntry)
      (fun s (a : FollowCall ulid128) ↦ FollowRises cborEntry s a ∧ Listed s a)
      ⟨.writing { eagerWriter (ulidAt 0 1) 1 with max := 1000 },
        ⟨shardName ulid128 (ulidAt 0 1), 0, false, .ready⟩, [], [], false⟩
      [.site (.write (rotatingWrite (ulidAt 1 0) (ulidAt 1 1))), .site .close, .read, .read] s₁ ∧
      s₁.tail = ⟨shardName ulid128 (ulidAt 0 1), 28, false, .ended⟩ ∧
      s₁.site.dir.shards.map Shard.name = [shardName ulid128 (ulidAt 0 1)] ∧
      s₁.out = [⟨ulidAt 1 0, [97]⟩] :=
    ⟨_, runWhile_iff_foldlM.2 rfl, rfl, rfl, rfl⟩
  have htarget : s₁.tail.target s₁.site.dir = none := by
    rw [Tail.target, Dir.readDir_singleton hnames, htail]
    decide +kernel
  have hlisted : Listed s₁ (.read : FollowCall ulid128) := fun _ ↦ .inl <| by
    rw [Dir.readDir_singleton hnames, htail]
    exact List.mem_singleton_self _
  have hend : followStep cborEntry s₁ (.read : FollowCall ulid128) = some _ :=
    followStep_read (Tail.step_of_target_eq_none (by rw [htail])
      (by rw [htail]; exact shardName_ne_empty) htarget)
  have hrun : RunWhile (followStep cborEntry) _ .start followOne _ :=
    hopen.append (hmid.append (.cons ⟨trivial, hlisted⟩ hend (.nil _)))
  have hrises := hrun.mono fun _ _ hguard ↦ hguard.1
  refine ⟨_, hrises, ?_, (follows_throughout_iff hrises).2 (hrun.mono fun _ _ hguard ↦ hguard.2)⟩
  exact (List.append_nil _).trans hout

/-- A writer that rotates at every write, after one write: its first shard was removed. -/
def rotatedWriter : DirectoryWriter (Fin (2 ^ 128)) :=
  (((eagerWriter (ulidAt 0 1) 1).taken (ulidAt 1 0)
    ((cborEntry.encode ⟨ulidAt 1 0, [97]⟩).getD [])).release.attach ulid128 (ulidAt 1 1)).remove
    [shardName ulid128 (ulidAt 0 1)]

theorem write_eagerWriter :
    (eagerWriter (ulidAt 0 1) 1).write cborEntry (rotatingWrite (ulidAt 1 0) (ulidAt 1 1)).env
      (rotatingWrite (ulidAt 1 0) (ulidAt 1 1)).data = (none, rotatedWriter) := by
  have hnamed : Named ulid128 ((eagerWriter (ulidAt 0 1) 1).taken (ulidAt 1 0)
      ((cborEntry.encode ⟨ulidAt 1 0, [97]⟩).getD [])).dir [ulidAt 0 1] :=
    Named.taken ⟨rfl, List.nodup_singleton _⟩ _ _
  have hfresh : shardName ulid128 (ulidAt 1 1) ∉ ((eagerWriter (ulidAt 0 1) 1).taken (ulidAt 1 0)
      ((cborEntry.encode ⟨ulidAt 1 0, [97]⟩).getD [])).dir.shards.map Shard.name := by
    rw [hnamed.names]
    decide +kernel
  have hrotate : DirectoryWriter.rotate (rotatingWrite (ulidAt 1 0) (ulidAt 1 1)).env.toRotateEnv
      _ = _ :=
    rotate_eq ⟨hnamed, rfl, hfresh, rfl, rfl, le_refl (1 : ℤ)⟩
  have hsort : (SortBy.stable fun e : Fin (2 ^ 128) × String ↦ ulid128.time e.1).sort
      (([ulidAt 0 1] ++ [ulidAt 1 1]).map fun id ↦ (id, shardName ulid128 id)) =
      ([ulidAt 0 1] ++ [ulidAt 1 1]).map fun id ↦ (id, shardName ulid128 id) :=
    List.mergeSort_of_pairwise (by decide +kernel)
  rw [removed, diskEntries_eq (hnamed.attach hfresh) (by decide +kernel),
    show RotateEnv.sort _ = SortBy.stable _ from rfl, hsort] at hrotate
  exact hrotate

/-- The writer goes on to a new shard and prunes the one the reader is at. -/
def prunedUnderReader : List (FollowCall ulid128) :=
  [.site (.new 1 1 (some (ulidAt 0 1)) true), .read, .read] ++
    [.site (.write (rotatingWrite (ulidAt 1 0) (ulidAt 1 1))), .read, .read, .read]

/-- **The end is reported with a newer shard there.** The reader reads the entry of its shard, which
was removed, and finds no place in the listing to go on from. -/
theorem exists_not_follows :
    ∃ s, RunWhile (followStep cborEntry) (FollowRises cborEntry) .start prunedUnderReader s ∧
      s.tail.cur = shardName ulid128 (ulidAt 0 1) ∧
      s.site.dir.readDir = [shardName ulid128 (ulidAt 1 1)] ∧ ¬ Follows s := by
  have hopen := (run_open cborEntry (show newDirectoryWriter ulid128 .empty 1 1
    (some (ulidAt 0 1)) true = .ok (eagerWriter (ulidAt 0 1) 1) from rfl)).mono
      fun _ _ hguard ↦ hguard.1
  have hwrite : siteStep cborEntry (.writing (eagerWriter (ulidAt 0 1) 1))
      (.write (rotatingWrite (ulidAt 1 0) (ulidAt 1 1))) = some (.writing rotatedWriter) := by
    simp only [siteStep, write_eagerWriter]
    rfl
  have hread : rotatedWriter.dir.readDir = [shardName ulid128 (ulidAt 1 1)] :=
    Dir.readDir_singleton (by decide +kernel)
  have htarget : Tail.target rotatedWriter.dir
      ⟨shardName ulid128 (ulidAt 0 1), 28, false, .ended⟩ = none := by
    rw [Tail.target, hread]
    decide +kernel
  have hnewer : Tail.Newer rotatedWriter.dir
      ⟨shardName ulid128 (ulidAt 0 1), 28, false, .ended⟩ := by
    rw [Tail.Newer, hread]
    decide +kernel
  have hmissed : RunWhile (followStep cborEntry) (FollowRises cborEntry)
      ⟨.writing (eagerWriter (ulidAt 0 1) 1), ⟨shardName ulid128 (ulidAt 0 1), 0, false, .ready⟩,
        [], [], false⟩
      [.site (.write (rotatingWrite (ulidAt 1 0) (ulidAt 1 1))), .read, .read, .read]
      ⟨.writing rotatedWriter, ⟨shardName ulid128 (ulidAt 0 1), 28, true, .ready⟩,
        [⟨ulidAt 1 0, [97]⟩], [⟨ulidAt 1 0, [97]⟩], true⟩ := by
    refine .cons (fun s hs ↦ ?_) (followStep_site hwrite) (.cons trivial rfl (.cons trivial rfl
      (.cons trivial ?_ (.nil _))))
    · obtain rfl := Option.some.inj (hwrite.symm.trans hs)
      decide +kernel
    · refine (followStep_read (Tail.step_of_target_eq_none rfl shardName_ne_empty
        (by exact htarget))).trans ?_
      exact congrArg (fun missed ↦ some (Follow.mk _ _ _ _ missed)) (decide_eq_true hnewer)
  exact ⟨_, hopen.append hmissed, rfl, hread, fun h ↦ Bool.noConfusion h.missed⟩

end Log
