import Isle.Foundation.Sorting
import Isle.Log.Entry

/-!
# The directory writer

The writer of `pkg/clog/writer.go`: entries are encoded into a buffer in front of a shard file, and
when the shard has taken `max` bytes `rotate` goes on in a new one and prunes the oldest.

A `DirectoryWriter` here is the writer **and** the directory it writes to, with the shards in the
order of their creation. Three things of the source are kept apart because the difference matters:

* `cur` is the file the writer was opened with. It is the one `rotate` and `Close` close, and it is
  never replaced: after the first rotation the file written to is another one, which nothing closes.
* The buffer is that of `bufio.Writer`: `Writer.put` follows its loop, an error on the file stays,
  and `flush` does nothing once there was one. Only a write to a closed file fails.
* `rotate` looks at none of the errors of `flush` and `Close`, and has closed the file before it
  knows whether there will be another.

What the environment decides in a call (the ids drawn, whether a file is created and the directory
read, how `sort.Slice` orders equal times, which files cannot be removed) is in a `WriteEnv`.
-/

namespace Log

/-! ### The buffered writer -/

/-- The size of the buffer of `bufio.NewWriter`. -/
def bufSize : ℕ := 4096

/-- `Writer`: the file, what is buffered, whether the buffer has an error, and the bytes counted by
the size tracker. -/
structure Writer where
  file : String
  buf : Bytes
  failed : Bool
  sz : ℕ
  deriving DecidableEq, Repr

namespace Writer

/-- `NewWriter` -/
def new (file : String) : Writer := ⟨file, [], false, 0⟩

/-- A write to the file itself, with what reaches it. -/
def direct (opened : Bool) (w : Writer) (p : Bytes) : Writer × Bytes :=
  if opened then (w, p) else ({ w with failed := true }, [])

/-- `Flush`, with what reaches the file. -/
def flush (opened : Bool) (w : Writer) : Writer × Bytes :=
  if w.failed ∨ w.buf = [] then (w, [])
  else if opened then ({ w with buf := [] }, w.buf)
  else ({ w with failed := true }, [])

/-- The second turn of the loop of `bufio.Writer.Write`, after a flush: the rest is buffered if it
fits and goes to the file directly otherwise. -/
def rest (opened : Bool) (r : Writer × Bytes) (q : Bytes) : Writer × Bytes :=
  if r.1.failed then r
  else if q.length ≤ bufSize then ({ r.1 with buf := q }, r.2)
  else ((r.1.direct opened q).1, r.2 ++ (r.1.direct opened q).2)

/-- `bufio.Writer.Write`, with what reaches the file: what fits is buffered; what does not goes to
the file directly if nothing is buffered, and otherwise fills the buffer, which is flushed, and goes
on with the rest. -/
def put (opened : Bool) (w : Writer) (p : Bytes) : Writer × Bytes :=
  if w.failed then (w, [])
  else if p.length ≤ bufSize - w.buf.length then ({ w with buf := w.buf ++ p }, [])
  else if w.buf = [] then w.direct opened p
  else
    rest opened (flush opened { w with buf := w.buf ++ p.take (bufSize - w.buf.length) })
      (p.drop (bufSize - w.buf.length))

variable {opened : Bool} {w : Writer} {p q : Bytes} {r : Writer × Bytes}

@[simp] theorem direct_file : (w.direct opened p).1.file = w.file := by
  cases opened <;> rfl

@[simp] theorem direct_sz : (w.direct opened p).1.sz = w.sz := by
  cases opened <;> rfl

@[simp] theorem direct_closed : (w.direct false p).2 = [] := rfl

@[simp] theorem direct_opened : w.direct true p = (w, p) := rfl

@[simp] theorem flush_file : (w.flush opened).1.file = w.file := by
  unfold flush
  split_ifs <;> rfl

@[simp] theorem flush_sz : (w.flush opened).1.sz = w.sz := by
  unfold flush
  split_ifs <;> rfl

@[simp] theorem rest_file : (rest opened r q).1.file = r.1.file := by
  unfold rest
  split_ifs <;> simp

@[simp] theorem rest_sz : (rest opened r q).1.sz = r.1.sz := by
  unfold rest
  split_ifs <;> simp

@[simp] theorem put_file : (w.put opened p).1.file = w.file := by
  unfold put
  split_ifs <;> simp

@[simp] theorem put_sz : (w.put opened p).1.sz = w.sz := by
  unfold put
  split_ifs <;> simp

/-! With the file open, nothing fails. -/

/-- Flushing moves the buffer to the file. -/
theorem flush_opened (h : w.failed = false) : w.flush true = ({ w with buf := [] }, w.buf) := by
  unfold flush
  by_cases hbuf : w.buf = []
  · rw [if_pos (.inr hbuf), ← hbuf]
  · rw [if_neg (by simp [h, hbuf]), if_pos rfl]

private theorem rest_opened {out : Bytes} (h : w.failed = false) (hbuf : w.buf = []) :
    (rest true (w, out) q).1.failed = false ∧
      (rest true (w, out) q).2 ++ (rest true (w, out) q).1.buf = out ++ q := by
  unfold rest
  rw [if_neg (by simp [h])]
  split_ifs
  · exact ⟨h, rfl⟩
  · exact ⟨h, by simp [hbuf]⟩

/-- **Everything written is in the file or behind it in the buffer.** -/
theorem put_opened (h : w.failed = false) :
    (w.put true p).1.failed = false ∧ (w.put true p).2 ++ (w.put true p).1.buf = w.buf ++ p := by
  unfold put
  rw [if_neg (by simp [h])]
  split_ifs with hfit hbuf
  · exact ⟨h, rfl⟩
  · exact ⟨h, by simp [hbuf]⟩
  · rw [flush_opened (by exact h)]
    refine (rest_opened (by exact h) rfl).imp_right fun hrest ↦ hrest.trans ?_
    rw [List.append_assoc, List.take_append_drop]

/-! With the file closed, nothing reaches it. -/

@[simp] theorem flush_closed : (w.flush false).2 = [] := by
  unfold flush
  by_cases h : w.failed ∨ w.buf = []
  · rw [if_pos h]
  · rw [if_neg h]
    rfl

@[simp] theorem put_closed : (w.put false p).2 = [] := by
  unfold put
  split_ifs
  · rfl
  · rfl
  · exact direct_closed
  · unfold rest
    split_ifs <;> simp

/-- On a closed file a write succeeds only by fitting into the buffer. -/
theorem fits_of_put_closed (h : (w.put false p).1.failed = false) :
    w.failed = false ∧ p.length ≤ bufSize - w.buf.length := by
  unfold put at h
  split_ifs at h with hfailed hfit hbuf
  · simp [hfailed] at h
  · exact ⟨by simpa using hfailed, hfit⟩
  · cases h
  · -- what is buffered is not flushed, so the buffer has its error
    have hflush : (flush false { w with
        buf := w.buf ++ p.take (bufSize - w.buf.length) }).1.failed = true := by
      simp [flush, hfailed, hbuf]
    rw [rest, if_pos hflush, hflush] at h
    cases h

end Writer

/-! ### The directory -/

/-- A shard file. -/
structure Shard where
  name : String
  data : Bytes
  deriving DecidableEq, Repr

/-- More bytes at the end of the shard with a name. -/
def Shard.extend (name : String) (out : Bytes) (sh : Shard) : Shard :=
  if sh.name = name then { sh with data := sh.data ++ out } else sh

theorem Shard.extend_name {sh : Shard} (name : String) (out : Bytes) :
    (sh.extend name out).name = sh.name := by
  unfold Shard.extend
  split_ifs <;> rfl

theorem Shard.extend_nil {sh : Shard} (name : String) : sh.extend name [] = sh := by
  unfold Shard.extend
  split_ifs
  · rw [List.append_nil]
  · rfl

/-- The directory: its shards in the order of their creation, those that were removed, and the ids
drawn so far. A removed shard that is still open is written to as before. -/
structure Dir (Id : Type*) where
  shards : List Shard
  pruned : List Shard
  drawn : List Id
  deriving DecidableEq, Repr

namespace Dir

variable {Id : Type*}

/-- The directory before the first writer. -/
def empty : Dir Id := ⟨[], [], []⟩

/-- Every shard there was. -/
def all (d : Dir Id) : List Shard := d.shards ++ d.pruned

/-- Bytes at the end of a file, which may have been removed. -/
def append (d : Dir Id) (name : String) (out : Bytes) : Dir Id :=
  { d with
    shards := d.shards.map (Shard.extend name out)
    pruned := d.pruned.map (Shard.extend name out) }

/-- `os.Create`: an existing file is truncated. -/
def create (d : Dir Id) (name : String) : Dir Id :=
  if name ∈ d.shards.map Shard.name then
    { d with shards := d.shards.map fun sh ↦ if sh.name = name then ⟨name, []⟩ else sh }
  else { d with shards := d.shards ++ [⟨name, []⟩] }

/-- Remove the shards with the given names. -/
def remove (d : Dir Id) (names : List String) : Dir Id :=
  { d with
    shards := d.shards.filter fun sh ↦ sh.name ∉ names
    pruned := d.pruned ++ d.shards.filter fun sh ↦ sh.name ∈ names }

/-- `ioutil.ReadDir`: the names in sorted order. -/
def readDir (d : Dir Id) : List String :=
  (d.shards.map Shard.name).mergeSort fun a b ↦ decide (a ≤ b)

variable {d : Dir Id} {name : String} {names : List String} {out : Bytes}

/-- A file that is not there is added. -/
theorem create_shards (h : name ∉ d.shards.map Shard.name) :
    (d.create name).shards = d.shards ++ [⟨name, []⟩] := by
  rw [create, if_neg h]

@[simp] theorem create_pruned : (d.create name).pruned = d.pruned := by
  unfold create
  split_ifs <;> rfl

@[simp] theorem create_drawn : (d.create name).drawn = d.drawn := by
  unfold create
  split_ifs <;> rfl

/-- Besides the file that is added there are those there were. -/
theorem mem_all_create (h : name ∉ d.shards.map Shard.name) {sh : Shard} :
    sh ∈ (d.create name).all ↔ sh ∈ d.all ∨ sh = ⟨name, []⟩ := by
  rw [all, create_shards h, create_pruned, all]
  simp only [List.mem_append, List.mem_singleton]
  exact or_right_comm

theorem all_append : (d.append name out).all = d.all.map (Shard.extend name out) := by
  rw [all, append, all, List.map_append]

private theorem map_name_extend (l : List Shard) :
    (l.map (Shard.extend name out)).map Shard.name = l.map Shard.name := by
  rw [List.map_map]
  exact List.map_congr_left fun sh _ ↦ Shard.extend_name _ _

theorem names_all_append : (d.append name out).all.map Shard.name = d.all.map Shard.name := by
  rw [all_append, map_name_extend]

theorem names_append : (d.append name out).shards.map Shard.name = d.shards.map Shard.name :=
  map_name_extend d.shards

theorem names_remove : (d.remove names).shards.map Shard.name =
    (d.shards.map Shard.name).filter fun n ↦ n ∉ names := by
  rw [List.filter_map]
  rfl

/-- Removing moves shards, it loses none. -/
theorem all_remove : (d.remove names).all.Perm d.all := by
  have hsplit : (d.shards.filter fun sh ↦ sh.name ∉ names) ++
      (d.shards.filter fun sh ↦ sh.name ∈ names) |>.Perm d.shards := by
    refine List.perm_append_comm.trans ?_
    simpa using List.filter_append_perm (fun sh : Shard ↦ decide (sh.name ∈ names)) d.shards
  refine (List.perm_append_comm.append_left _).trans ?_
  rw [← List.append_assoc]
  exact hsplit.append_right _

end Dir

/-! ### The directory writer -/

/-- Why a call on the writer failed; `panic` is the slice expression of `pruneEntries`. -/
inductive LogError
  | ulid
  | encode
  | write
  | create
  | readDir
  | panic
  | closed
  deriving DecidableEq, Repr

/-- `DirectoryWriter`, with its directory. -/
structure DirectoryWriter (Id : Type*) where
  dir : Dir Id
  writer : Writer
  /-- The name of the file `cur`, and whether it was closed. -/
  cur : String
  closed : Bool
  max : ℤ
  shards : ℤ
  deriving DecidableEq, Repr

/-- What the environment decides in a rotation. -/
structure RotateEnv {Id : Type*} [LinearOrder Id] (U : Ulid Id) where
  /-- The id of the new shard, if one is drawn. -/
  id : Option Id
  /-- Whether the file is created. -/
  create : Bool
  /-- Whether the directory is read. -/
  readDir : Bool
  /-- How `sort.Slice` sorts by time. -/
  sort : SortBy fun e : Id × String ↦ U.time e.1
  /-- The capacity of the slice of ids beyond its length. -/
  spare : ℕ
  /-- The files that are not removed. -/
  stuck : String → Bool

/-- What the environment decides in a write. -/
structure WriteEnv {Id : Type*} [LinearOrder Id] (U : Ulid Id) extends RotateEnv U where
  /-- The id of the entry, if one is drawn. -/
  ts : Option Id

/-- An environment in which nothing fails. -/
def WriteEnv.ordinary {Id : Type*} [LinearOrder Id] (U : Ulid Id) (ts id : Id) : WriteEnv U where
  id := some id
  create := true
  readDir := true
  sort := SortBy.stable _
  spare := 0
  stuck _ := false
  ts := some ts

namespace DirectoryWriter

section Parts

variable {Id : Type*}

/-- Whether the file of the writer is open: only `cur` is ever closed. -/
def opened (d : DirectoryWriter Id) : Bool := !(d.closed && d.writer.file == d.cur)

/-- An id was drawn. -/
def draw (d : DirectoryWriter Id) (id : Id) : DirectoryWriter Id :=
  { d with dir := { d.dir with drawn := d.dir.drawn ++ [id] } }

/-- The writer goes on, and bytes reach its file. -/
def emit (d : DirectoryWriter Id) (r : Writer × Bytes) : DirectoryWriter Id :=
  { d with writer := r.1, dir := d.dir.append r.1.file r.2 }

/-- `sizeTracker.Write` -/
def count (d : DirectoryWriter Id) (n : ℕ) : DirectoryWriter Id :=
  { d with writer := { d.writer with sz := d.writer.sz + n } }

/-- Bytes for the file of the writer. -/
def put (d : DirectoryWriter Id) (p : Bytes) : DirectoryWriter Id :=
  d.emit (d.writer.put d.opened p)

/-- What is in the buffer is written. -/
def flush (d : DirectoryWriter Id) : DirectoryWriter Id := d.emit (d.writer.flush d.opened)

/-- The first two lines of `rotate`: `d.Flush(); d.cur.Close()`. -/
def release (d : DirectoryWriter Id) : DirectoryWriter Id := { d.flush with closed := true }

/-- `Close`: what it returns is what closing `cur` returns. -/
def close (d : DirectoryWriter Id) : Option LogError × DirectoryWriter Id :=
  (if d.closed then some .closed else none, d.release)

end Parts

variable {Id : Type*} [LinearOrder Id] (U : Ulid Id)

/-- A new shard, and the writer on it. -/
def attach (d : DirectoryWriter Id) (id : Id) : DirectoryWriter Id :=
  { d.draw id with
    dir := (d.draw id).dir.create (shardName U id)
    writer := Writer.new (shardName U id) }

variable {U}

/-- The directory writer, with shards removed from its directory. -/
def remove (d : DirectoryWriter Id) (names : List String) : DirectoryWriter Id :=
  { d with dir := d.dir.remove names }

/-- The files `pruneEntries` removes, if its slice expression is in range. -/
def toRemove (env : RotateEnv U) (d : DirectoryWriter Id) : Option (List String) :=
  let ids := d.dir.readDir.filterMap (diskEntry U)
  let cut : ℤ := ids.length - d.shards
  if cut < 0 ∨ ids.length + env.spare < cut then none
  else some (((env.sort.sort ids).take cut.toNat).map Prod.snd)

/-- The shards that are too many are removed, but for those that the system keeps. -/
def pruneEntries (env : RotateEnv U) (d : DirectoryWriter Id) :
    Option LogError × DirectoryWriter Id :=
  match d.toRemove env with
  | none => (some .panic, d)
  | some names => (none, d.remove (names.filter fun n ↦ !env.stuck n))

/-- The end of `rotate`, on the new shard. -/
def settle (env : RotateEnv U) (d : DirectoryWriter Id) : Option LogError × DirectoryWriter Id :=
  if env.readDir then
    if d.shards ≤ d.dir.shards.length then d.pruneEntries env else (none, d)
  else (some .readDir, d)

/-- `rotate`: the old file is closed before a new one is there, and an error leaves it so. -/
def rotate (env : RotateEnv U) (d : DirectoryWriter Id) : Option LogError × DirectoryWriter Id :=
  match env.id with
  | none => (some .ulid, d.release)
  | some id =>
    if env.create then (d.release.attach U id).settle env else (some .create, d.release.draw id)

variable (fmt : Codec UInt8 (Entry Id))

/-- `Writer.Write` -/
def writeEntry (env : WriteEnv U) (d : DirectoryWriter Id) (data : Bytes) :
    Option LogError × DirectoryWriter Id :=
  match env.ts with
  | none => (some .ulid, d)
  | some ts =>
    let d := d.draw ts
    match fmt.encode ⟨ts, data⟩ with
    | none => (some .encode, d)
    | some bs =>
      let d := d.put bs
      -- the size tracker comes second: it does not see a write that failed
      if d.writer.failed then (some .write, d) else (none, d.count bs.length)

/-- `DirectoryWriter.Write` -/
def write (env : WriteEnv U) (d : DirectoryWriter Id) (data : Bytes) :
    Option LogError × DirectoryWriter Id :=
  match d.writeEntry fmt env data with
  | (some e, d) => (some e, d)
  | (none, d) => if d.max ≤ d.writer.sz then d.rotate env.toRotateEnv else (none, d)

/-! ### What a call can do -/

section Cases

variable {d : DirectoryWriter Id} {data : Bytes}

omit [LinearOrder Id] in
@[simp] theorem remove_nil : d.remove [] = d := by
  cases d
  simp [remove, Dir.remove]

/-- What the end of `rotate` can do: remove shards. -/
theorem settle_cases (env : RotateEnv U) (d : DirectoryWriter Id) :
    ∃ names e, (e = none → env.readDir = true) ∧ d.settle env = (e, d.remove names) := by
  unfold settle pruneEntries
  split_ifs with hread
  · split
    · exact ⟨[], _, fun _ ↦ hread, by rw [remove_nil]⟩
    · exact ⟨_, none, fun _ ↦ hread, rfl⟩
  · exact ⟨[], none, fun _ ↦ hread, by rw [remove_nil]⟩
  · exact ⟨[], some .readDir, nofun, by rw [remove_nil]⟩

/-- A rotation that has an id and a file. -/
theorem rotate_of_create {env : RotateEnv U} {id : Id} (hid : env.id = some id)
    (hcreate : env.create = true) : d.rotate env = (d.release.attach U id).settle env := by
  rw [rotate, hid]
  exact if_pos hcreate

/-- What `rotate` can do, for a rotation that need not succeed. -/
theorem rotate_cases (env : RotateEnv U) (d : DirectoryWriter Id) :
    d.rotate env = (some .ulid, d.release) ∨
    (∃ id, d.rotate env = (some .create, d.release.draw id)) ∨
    ∃ id names e, env.id = some id ∧ env.create = true ∧ (e = none → env.readDir = true) ∧
      d.rotate env = (e, (d.release.attach U id).remove names) := by
  unfold rotate
  rcases hid : env.id with - | id
  · exact .inl rfl
  by_cases hcreate : env.create = true
  · obtain ⟨names, e, hread, heq⟩ := settle_cases env (d.release.attach U id)
    exact .inr (.inr ⟨id, names, e, rfl, hcreate, hread, by simp only [if_pos hcreate, heq]⟩)
  · exact .inr (.inl ⟨id, if_neg hcreate⟩)

/-- What a rotation that succeeds does. -/
theorem rotate_eq_none {env : RotateEnv U} {d' : DirectoryWriter Id}
    (h : d.rotate env = (none, d')) :
    ∃ id, env.id = some id ∧ env.create = true ∧
      ((((d.release.attach U id).dir.shards.length : ℤ) < d.shards ∧ d' = d.release.attach U id) ∨
        d.shards ≤ (d.release.attach U id).dir.shards.length ∧
          ∃ names, (d.release.attach U id).toRemove env = some names ∧
            d' = (d.release.attach U id).remove (names.filter fun n ↦ !env.stuck n)) := by
  unfold rotate at h
  rcases hid : env.id with - | id <;> rw [hid] at h
  · cases h
  by_cases hcreate : env.create = true
  · simp only [if_pos hcreate] at h
    refine ⟨id, rfl, hcreate, ?_⟩
    unfold settle pruneEntries at h
    split_ifs at h with hread hfull
    · rcases hnames : (d.release.attach U id).toRemove env with - | names <;> rw [hnames] at h
      · cases h
      · cases h
        exact .inr ⟨hfull, names, rfl, rfl⟩
    · cases h
      exact .inl ⟨not_le.1 hfull, rfl⟩
    · cases h
  · simp only [if_neg hcreate] at h
    cases h

/-- The writer after an entry was encoded and counted. -/
def taken (d : DirectoryWriter Id) (ts : Id) (bs : Bytes) : DirectoryWriter Id :=
  ((d.draw ts).put bs).count bs.length

variable {env : WriteEnv U}

variable {fmt} in
/-- An entry that has an id and an encoding is refused by the buffer, or taken. -/
theorem writeEntry_eq {ts : Id} {bs : Bytes} (hts : env.ts = some ts)
    (hbs : fmt.encode ⟨ts, data⟩ = some bs) :
    d.writeEntry fmt env data =
      if ((d.draw ts).put bs).writer.failed then (some .write, (d.draw ts).put bs)
      else (none, d.taken ts bs) := by
  simp only [writeEntry, hts, hbs]
  rfl

/-- What `Write` can do: fail in front of the buffer or at it, take the entry, or take it and
rotate. -/
theorem write_cases (env : WriteEnv U) (d : DirectoryWriter Id) (data : Bytes) :
    (∃ e, d.write fmt env data = (some e, d)) ∨
    (∃ ts e, d.write fmt env data = (some e, d.draw ts)) ∨
    ∃ ts bs, env.ts = some ts ∧ fmt.encode ⟨ts, data⟩ = some bs ∧
      (d.write fmt env data = (some .write, (d.draw ts).put bs) ∨
        ((d.draw ts).put bs).writer.failed = false ∧
          (((d.taken ts bs).writer.sz : ℤ) < d.max ∧ d.write fmt env data = (none, d.taken ts bs) ∨
            d.max ≤ (d.taken ts bs).writer.sz ∧
              d.write fmt env data = (d.taken ts bs).rotate env.toRotateEnv)) := by
  rcases hts : env.ts with - | ts
  · exact .inl ⟨.ulid, by simp only [write, writeEntry, hts]⟩
  rcases hbs : fmt.encode ⟨ts, data⟩ with - | bs
  · exact .inr (.inl ⟨ts, .encode, by simp only [write, writeEntry, hts, hbs]⟩)
  refine .inr (.inr ⟨ts, bs, rfl, hbs, ?_⟩)
  rw [write, writeEntry_eq hts hbs]
  by_cases hfailed : ((d.draw ts).put bs).writer.failed = true
  · exact .inl (by rw [if_pos hfailed])
  · refine .inr ⟨by simpa using hfailed, ?_⟩
    rw [if_neg hfailed]
    by_cases hfull : d.max ≤ (d.taken ts bs).writer.sz
    · exact .inr ⟨hfull, if_pos hfull⟩
    · exact .inl ⟨not_le.1 hfull, if_neg hfull⟩

variable {fmt} in
/-- A write that is acknowledged took the entry, or took it and rotated. -/
theorem write_cases_of_ack (hack : (d.write fmt env data).1 = none) :
    ∃ ts bs, env.ts = some ts ∧ fmt.encode ⟨ts, data⟩ = some bs ∧
      ((d.draw ts).put bs).writer.failed = false ∧
        (((d.taken ts bs).writer.sz : ℤ) < d.max ∧ d.write fmt env data = (none, d.taken ts bs) ∨
          d.max ≤ (d.taken ts bs).writer.sz ∧
            d.write fmt env data = (d.taken ts bs).rotate env.toRotateEnv) := by
  rcases write_cases fmt env d data with ⟨e, hw⟩ | ⟨ts, e, hw⟩ | ⟨ts, bs, hts, hbs, hw | htook⟩
  · simp [hw] at hack
  · simp [hw] at hack
  · simp [hw] at hack
  · exact ⟨ts, bs, hts, hbs, htook⟩

/-- What no call changes: the file `cur`, the number of shards to be kept, and that `cur` was
closed. -/
structure Same (d d' : DirectoryWriter Id) : Prop where
  cur : d'.cur = d.cur
  shards : d'.shards = d.shards
  closed : d.closed = true → d'.closed = true

/-- **A rotation leaves `cur` as it is.** -/
theorem same_rotate (env : RotateEnv U) (d : DirectoryWriter Id) : Same d (d.rotate env).2 := by
  rcases rotate_cases env d with heq | ⟨id, heq⟩ | ⟨id, names, e, -, -, -, heq⟩
  · rw [heq]
    exact ⟨rfl, rfl, fun _ ↦ rfl⟩
  · rw [heq]
    exact ⟨rfl, rfl, fun _ ↦ rfl⟩
  · rw [heq]
    exact ⟨rfl, rfl, fun _ ↦ rfl⟩

theorem same_write (env : WriteEnv U) (d : DirectoryWriter Id) (data : Bytes) :
    Same d (d.write fmt env data).2 := by
  rcases write_cases fmt env d data with
    ⟨e, hw⟩ | ⟨ts, e, hw⟩ | ⟨ts, bs, -, -, hw | ⟨-, ⟨-, hw⟩ | ⟨-, hw⟩⟩⟩
  · rw [hw]
    exact ⟨rfl, rfl, fun h ↦ h⟩
  · rw [hw]
    exact ⟨rfl, rfl, fun h ↦ h⟩
  · rw [hw]
    exact ⟨rfl, rfl, fun h ↦ h⟩
  · rw [hw]
    exact ⟨rfl, rfl, fun h ↦ h⟩
  · rw [hw]
    have hsame := same_rotate env.toRotateEnv (d.taken ts bs)
    exact ⟨hsame.cur, hsame.shards, hsame.closed⟩

variable {fmt} in
/-- A write that is taken and fills the shard goes on with `rotate`. -/
theorem write_eq_rotate {ts : Id} {bs : Bytes} (hts : env.ts = some ts)
    (hbs : fmt.encode ⟨ts, data⟩ = some bs) (hok : ((d.draw ts).put bs).writer.failed = false)
    (hfull : d.max ≤ (d.taken ts bs).writer.sz) :
    d.write fmt env data = (d.taken ts bs).rotate env.toRotateEnv := by
  rw [write, writeEntry_eq hts hbs, if_neg (Bool.eq_false_iff.1 hok)]
  exact if_pos hfull

end Cases

end DirectoryWriter

/-- `DefaultMax` -/
def defaultMax : ℤ := 1024 * 1024

/-- `DefaultShards` -/
def defaultShards : ℤ := 10

/-- `NewDirectoryWriter`, with the id drawn for the first shard and whether its file is created. -/
def newDirectoryWriter {Id : Type*} [LinearOrder Id] (U : Ulid Id) (dir : Dir Id) (max shards : ℤ)
    (id : Option Id) (create : Bool) : Except LogError (DirectoryWriter Id) :=
  match id with
  | none => .error .ulid
  | some id =>
    if create then
      let name := shardName U id
      .ok {
        dir := { dir with drawn := dir.drawn ++ [id] }.create name
        writer := Writer.new name
        cur := name
        closed := false
        max := if max = 0 then defaultMax else max
        shards := if shards = 0 then defaultShards else shards }
    else .error .create

/-- A new writer on an empty directory that rotates at every write. -/
def eagerWriter (id : Fin (2 ^ 128)) (shards : ℤ) : DirectoryWriter (Fin (2 ^ 128)) where
  dir := ⟨[⟨shardName ulid128 id, []⟩], [], [id]⟩
  writer := Writer.new (shardName ulid128 id)
  cur := shardName ulid128 id
  closed := false
  max := 1
  shards := shards

/-! ### Runs of writes -/

section Runs

variable {Id : Type*} [LinearOrder Id] {U : Ulid Id}

/-- An id that is drawn for a shard names no other. -/
def Fresh (d : DirectoryWriter Id) (env : RotateEnv U) : Prop :=
  ∀ id ∈ env.id, shardName U id ∉ d.dir.all.map Shard.name

instance (d : DirectoryWriter Id) (env : RotateEnv U) : Decidable (Fresh d env) :=
  inferInstanceAs (Decidable (∀ id ∈ env.id, _))

/-- A writer, with the entries whose `Write` returned nil. -/
structure Acked (Id : Type*) where
  d : DirectoryWriter Id
  acked : List (Entry Id)

/-- A call of `Write`. -/
structure WriteCall (U : Ulid Id) where
  data : Bytes
  env : WriteEnv U

/-- One call; none comes back from a panic. -/
def writeStep (fmt : Codec UInt8 (Entry Id)) (s : Acked Id) (c : WriteCall U) : Option (Acked Id) :=
  let r := s.d.write fmt c.env c.data
  if Fresh s.d c.env.toRotateEnv ∧ r.1 ≠ some .panic then
    some ⟨r.2, if r.1 = none then s.acked ++ (c.env.ts.map (Entry.mk · c.data)).toList else s.acked⟩
  else none

end Runs

end Log
