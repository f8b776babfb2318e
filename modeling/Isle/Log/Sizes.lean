import Isle.Log.Durable
import Isle.Log.Handles

/-!
# The sizes of shards

How many bytes a shard has when the writer goes on from it. The size tracker counts what is encoded,
beside the buffer it goes through, and `Write` asks for a rotation when the count has come to `max`;
with the writer of the new shard it begins again. So a shard has at least `max` bytes and had fewer
without its last entry, provided that the rotation it asked for goes on to another. A rotation that
has no id or no file leaves the writer on a shard that is full:

* on the first one, whose file `rotate` closed before it knew: what is written next is counted, and
  never reaches the file;
* on a later one, which nothing closes: it takes more and more, until a rotation succeeds.

A `Sizing` is a writer with the entries it was given, shard by shard. `sized_throughout_iff` is the
exact condition, along every run of writes: a full shard whose file is closed takes nothing, and one
whose file is open is not gone on from.
-/

namespace Log

variable {Id : Type*}

/-! ### What is to hold -/

/-- A writer, with the entries its shard has taken and the shards it has gone on from, each with the
entries it had taken, as they were encoded. -/
structure Sizing (Id : Type*) where
  d : DirectoryWriter Id
  entries : List Bytes
  left : List (String × List Bytes)

/-- The entries come to `max` bytes, and without the last one they do not. -/
def Filled (max : ℤ) (entries : List Bytes) : Prop :=
  ∃ before last, entries = before ++ [last] ∧ max ≤ entries.flatten.length ∧
    (before.flatten.length : ℤ) < max

/-- The shard with a name will hold these bytes. -/
def DirectoryWriter.Stores (d : DirectoryWriter Id) (name : String) (bs : Bytes) : Prop :=
  name ∈ d.dir.all.map Shard.name ∧ ∀ sh ∈ d.dir.all, sh.name = name → d.content sh = bs

/-- **What is to hold of the sizes.** Every shard holds the entries it has taken, whole and no
others; the count is the number of their bytes; and a shard that was gone on from, or whose file was
closed, was filled by its last entry. -/
structure Sized (s : Sizing Id) : Prop where
  stored : s.d.Stores s.d.writer.file s.entries.flatten
  counted : s.d.writer.sz = s.entries.flatten.length
  left : ∀ p ∈ s.left, s.d.Stores p.1 p.2.flatten ∧ Filled s.d.max p.2
  closed : s.d.opened = false → Filled s.d.max s.entries

/-- The record after a call that has left this writer, and these entries in the shard. -/
def Sizing.after (s : Sizing Id) (d : DirectoryWriter Id) (entries : List Bytes) :
    Sizing Id :=
  if d.writer.file = s.d.writer.file then ⟨d, entries, s.left⟩
  else ⟨d, [], s.left ++ [(s.d.writer.file, entries)]⟩

section Machine

variable [LinearOrder Id] {U : Ulid Id} (fmt : Codec UInt8 (Entry Id))

/-- One call. An entry was taken if `Writer.Write` returned nil. -/
def sizeStep (s : Sizing Id) (c : WriteCall U) : Option (Sizing Id) :=
  if Fresh s.d c.env.toRotateEnv then
    some (s.after (s.d.write fmt c.env c.data).2
      (if (s.d.writeEntry fmt c.env c.data).1 = none then
        s.entries ++ (c.env.ts.bind fun ts ↦ fmt.encode ⟨ts, c.data⟩).toList
      else s.entries))
  else none

/-- The call leaves a full shard alone: where its file is closed the entry is refused, and where it
is open the rotation has again no id or no file. -/
def Spares (s : Sizing Id) (c : WriteCall U) : Prop :=
  s.d.max ≤ s.d.writer.sz → ∀ ts ∈ c.env.ts, ∀ bs ∈ fmt.encode ⟨ts, c.data⟩,
    if s.d.opened then c.env.id ≠ none → c.env.create = false else ¬ s.d.Takes bs.length

instance (s : Sizing Id) (c : WriteCall U) : Decidable (Spares fmt s c) :=
  inferInstanceAs (Decidable (_ → ∀ ts ∈ c.env.ts, _))

end Machine

variable {entries : List Bytes}

theorem filled_append_iff {max : ℤ} {bs : Bytes} :
    Filled max (entries ++ [bs]) ↔
      max ≤ (entries ++ [bs]).flatten.length ∧ (entries.flatten.length : ℤ) < max := by
  constructor
  · rintro ⟨before, last, heq, hfull, hlt⟩
    obtain rfl := List.append_inj_left' heq rfl
    exact ⟨hfull, hlt⟩
  · rintro ⟨hfull, hlt⟩
    exact ⟨entries, bs, rfl, hfull, hlt⟩

theorem Filled.dropLast_lt {max : ℤ} (h : Filled max entries) :
    (entries.dropLast.flatten.length : ℤ) < max := by
  obtain ⟨before, last, rfl, -, hlt⟩ := h
  rwa [List.dropLast_concat]

theorem length_flatten_append {bs : Bytes} :
    (entries ++ [bs]).flatten.length = entries.flatten.length + bs.length := by
  simp

/-! ### What the parts of a write do to a shard -/

namespace DirectoryWriter

variable {d : DirectoryWriter Id} {name : String} {bs p : Bytes} {r : Writer × Bytes}

namespace Stores

private theorem of_extend {f : Bytes → Bytes} (h : d.Stores name bs)
    (hcontent : ∀ sh : Shard, sh.name = name →
      (d.emit r).content (sh.extend r.1.file r.2) = f (d.content sh)) :
    (d.emit r).Stores name (f bs) := by
  refine ⟨?_, fun sh' hsh' hname ↦ ?_⟩
  · rw [emit, Dir.names_all_append]
    exact h.1
  · rw [emit, Dir.all_append] at hsh'
    obtain ⟨sh, hsh, rfl⟩ := List.mem_map.1 hsh'
    rw [Shard.extend_name] at hname
    rw [hcontent sh hname, h.2 sh hsh hname]

theorem emit_of_opened (h : d.Stores name bs) (ho : d.opened = true)
    (hfile : r.1.file = d.writer.file) (hbuf : r.2 ++ r.1.buf = d.writer.buf ++ p) :
    (d.emit r).Stores name (bs ++ if name = d.writer.file then p else []) :=
  h.of_extend (f := fun bs ↦ bs ++ if name = d.writer.file then p else []) fun sh hname ↦ by
    rw [content_emit_of_opened ho hfile hbuf, hname]

theorem emit_of_closed (h : d.Stores name bs) (ho : d.opened = false)
    (hfile : r.1.file = d.writer.file) (hout : r.2 = []) : (d.emit r).Stores name bs :=
  h.of_extend (f := id) fun _ _ ↦ content_emit_of_closed ho hfile hout

theorem put_of_closed (h : d.Stores name bs) (ho : d.opened = false) :
    (d.put p).Stores name bs := by
  rw [put, ho]
  exact h.emit_of_closed ho Writer.put_file Writer.put_closed

/-- An entry that is taken on an open file is in its shard, and no other changes. -/
theorem taken (h : d.Stores name bs) (ho : d.opened = true) (hok : d.writer.failed = false)
    (ts : Id) (p : Bytes) :
    (d.taken ts p).Stores name (bs ++ if name = d.writer.file then p else []) := by
  have hput : (d.put p).Stores name (bs ++ if name = d.writer.file then p else []) := by
    rw [put, ho]
    exact h.emit_of_opened ho Writer.put_file (Writer.put_opened hok).2
  exact hput

theorem flush (h : d.Stores name bs) (hok : d.opened = true → d.writer.failed = false) :
    d.flush.Stores name bs := by
  rw [DirectoryWriter.flush]
  rcases ho : d.opened with - | -
  · exact h.emit_of_closed ho Writer.flush_file Writer.flush_closed
  · rw [Writer.flush_opened (hok ho)]
    have hemit := h.emit_of_opened (p := []) (r := ({ d.writer with buf := [] }, d.writer.buf)) ho
      rfl rfl
    rwa [ite_self, List.append_nil] at hemit

/-- Nothing is lost when the buffer is flushed and `cur` closed. -/
theorem release (h : d.Stores name bs) (hok : d.opened = true → d.writer.failed = false) :
    d.release.Stores name bs := by
  refine ⟨(h.flush hok).1, fun sh hsh hname ↦ ?_⟩
  rw [content_release hok, ← content_flush hok]
  exact (h.flush hok).2 sh hsh hname

theorem remove (h : d.Stores name bs) (names : List String) : (d.remove names).Stores name bs :=
  ⟨(Dir.all_remove.map Shard.name).mem_iff.2 h.1, fun sh hsh hname ↦
    h.2 sh (Dir.all_remove.mem_iff.1 hsh) hname⟩

section Attach

variable [LinearOrder Id] {U : Ulid Id} {id : Id}

/-- A new shard changes no other. -/
theorem attach (h : d.Stores name bs) (hdata : ∀ sh, d.content sh = sh.data)
    (hid : shardName U id ∉ d.dir.all.map Shard.name) : (d.attach U id).Stores name bs := by
  obtain ⟨sh₀, hsh₀, rfl⟩ := List.mem_map.1 h.1
  refine ⟨List.mem_map_of_mem ((mem_all_attach hid).2 (.inl hsh₀)), fun sh hsh hname ↦ ?_⟩
  rw [content_of_buf_nil rfl]
  rcases (mem_all_attach hid).1 hsh with hsh | rfl
  · rw [← hdata]
    exact h.2 sh hsh hname
  · exact absurd h.1 (hname ▸ hid)

/-- The new shard is empty. -/
theorem attach_self (hid : shardName U id ∉ d.dir.all.map Shard.name) :
    (d.attach U id).Stores (shardName U id) [] := by
  refine ⟨List.mem_map.2 ⟨_, (mem_all_attach hid).2 (.inr rfl), rfl⟩, fun sh hsh hname ↦ ?_⟩
  rw [content_of_buf_nil rfl]
  rcases (mem_all_attach hid).1 hsh with hsh | rfl
  · exact absurd (List.mem_map.2 ⟨sh, hsh, hname⟩) hid
  · rfl

end Attach

end Stores

/-- The writer, with other ids drawn so far. -/
def withDrawn (d : DirectoryWriter Id) (drawn : List Id) : DirectoryWriter Id :=
  { d with dir := { d.dir with drawn := drawn } }

theorem names_taken (ts : Id) (bs : Bytes) :
    (d.taken ts bs).dir.all.map Shard.name = d.dir.all.map Shard.name :=
  Dir.names_all_append

/-- A write that is taken enters no name, and neither does closing `cur`. -/
theorem names_taken_release (ts : Id) (bs : Bytes) :
    (d.taken ts bs).release.dir.all.map Shard.name = d.dir.all.map Shard.name :=
  Dir.names_all_append.trans (names_taken ts bs)

theorem opened_taken (ts : Id) (bs : Bytes) : (d.taken ts bs).opened = d.opened :=
  opened_emit (d := d.draw ts) Writer.put_file

theorem failed_release (hok : d.opened = true → d.writer.failed = false)
    (h : d.release.opened = true) : d.release.writer.failed = false := by
  have ho := opened_of_release h
  show (d.writer.flush d.opened).1.failed = false
  rw [ho, Writer.flush_opened (hok ho)]
  exact hok ho

theorem sz_release : d.release.writer.sz = d.writer.sz := Writer.flush_sz

/-- A rotation stays with its shard, for want of an id or a file, or goes on to a new one. -/
theorem rotate_stays_or_goes [LinearOrder Id] {U : Ulid Id} (env : RotateEnv U)
    (d : DirectoryWriter Id) :
    ((env.id ≠ none → env.create = false) ∧
      ∃ drawn, (d.rotate env).2 = d.release.withDrawn drawn) ∨
    ∃ id names, env.id = some id ∧ env.create = true ∧
      (d.rotate env).2 = (d.release.attach U id).remove names := by
  by_cases hstays : env.id ≠ none → env.create = false
  · refine .inl ⟨hstays, ?_⟩
    rcases rotate_of_none (d := d) hstays with heq | ⟨id, heq⟩
    · exact ⟨d.release.dir.drawn, heq⟩
    · exact ⟨d.release.dir.drawn ++ [id], heq⟩
  · simp only [not_forall, Bool.not_eq_false] at hstays
    obtain ⟨hsome, hcreate⟩ := hstays
    obtain ⟨id, hid⟩ := Option.ne_none_iff_exists'.1 hsome
    obtain ⟨names, e, -, hsettle⟩ := settle_cases env (d.release.attach U id)
    exact .inr ⟨id, names, hid, hcreate, by rw [rotate_of_create hid hcreate, hsettle]⟩

end DirectoryWriter

/-! ### What a call can do -/

section Step

open DirectoryWriter

variable [LinearOrder Id] {U : Ulid Id} {fmt : Codec UInt8 (Entry Id)} {s t : Sizing Id}
  {c : WriteCall U}

/-- A call has no entry, or one that is refused, or one that is taken: the shard is not full with
it, or the rotation stays with it, or it goes on to a new shard. -/
theorem sizeStep_cases (h : sizeStep fmt s c = some t)
    (hfile : s.d.writer.file ∈ s.d.dir.all.map Shard.name) :
    (c.env.ts.bind (fun ts ↦ fmt.encode ⟨ts, c.data⟩) = none ∧
      ∃ drawn, t = { s with d := s.d.withDrawn drawn }) ∨
    ∃ ts bs, c.env.ts = some ts ∧ fmt.encode ⟨ts, c.data⟩ = some bs ∧
      (¬ s.d.Takes bs.length ∧ t = { s with d := (s.d.draw ts).put bs } ∨
        s.d.Takes bs.length ∧
          ((s.d.writer.sz + bs.length : ℤ) < s.d.max ∧
              t = ⟨s.d.taken ts bs, s.entries ++ [bs], s.left⟩ ∨
            s.d.max ≤ s.d.writer.sz + bs.length ∧
              ((c.env.id ≠ none → c.env.create = false) ∧
                  (∃ drawn, t = ⟨(s.d.taken ts bs).release.withDrawn drawn, s.entries ++ [bs],
                    s.left⟩) ∨
                ∃ id names, c.env.id = some id ∧ c.env.create = true ∧
                  shardName U id ∉ s.d.dir.all.map Shard.name ∧
                  t = ⟨((s.d.taken ts bs).release.attach U id).remove names, [],
                    s.left ++ [(s.d.writer.file, s.entries ++ [bs])]⟩))) := by
  obtain ⟨hfresh, ht⟩ := guarded_eq_some h
  rcases hts : c.env.ts with - | ts
  · refine .inl ⟨rfl, s.d.dir.drawn, ?_⟩
    simp only [write, writeEntry, hts] at ht
    rw [← ht]
    exact if_pos rfl
  rcases hbs : fmt.encode ⟨ts, c.data⟩ with - | bs
  · refine .inl ⟨hbs, s.d.dir.drawn ++ [ts], ?_⟩
    simp only [write, writeEntry, hts, hbs] at ht
    rw [← ht]
    exact if_pos rfl
  refine .inr ⟨ts, bs, rfl, hbs, ?_⟩
  rw [write, writeEntry_eq hts hbs, hts, Option.bind_some, hbs] at ht
  by_cases htakes : s.d.Takes bs.length
  · refine .inr ⟨htakes, ?_⟩
    rw [if_neg (Bool.eq_false_iff.1 ((takes_iff ts bs).2 htakes))] at ht
    replace ht : s.after (if s.d.max ≤ (s.d.taken ts bs).writer.sz then
      (s.d.taken ts bs).rotate c.env.toRotateEnv else (none, s.d.taken ts bs)).2
        (s.entries ++ [bs]) = t := ht
    have hsz : ((s.d.taken ts bs).writer.sz : ℤ) = s.d.writer.sz + bs.length := by
      rw [sz_taken, Nat.cast_add]
    rw [← hsz]
    by_cases hfull : s.d.max ≤ (s.d.taken ts bs).writer.sz
    · refine .inr ⟨hfull, ?_⟩
      rw [if_pos hfull] at ht
      rcases rotate_stays_or_goes c.env.toRotateEnv (s.d.taken ts bs) with
        ⟨hstays, drawn, heq⟩ | ⟨id, names, hid, hcreate, heq⟩
      · rw [heq, Sizing.after, if_pos (by exact file_release.trans (file_taken ts bs))] at ht
        exact .inl ⟨hstays, drawn, ht.symm⟩
      · -- the new shard has another name, so the entries are those of a shard left
        have hnew := hfresh id hid
        have hmoved : shardName U id ≠ s.d.writer.file := fun heq ↦ hnew (heq ▸ hfile)
        rw [heq, Sizing.after, if_neg (by exact hmoved)] at ht
        exact .inr ⟨id, names, hid, hcreate, hnew, ht.symm⟩
    · rw [if_neg hfull, Sizing.after, if_pos (file_taken ts bs)] at ht
      exact .inl ⟨not_le.1 hfull, ht.symm⟩
  · refine .inl ⟨htakes, ?_⟩
    have hfailed : ((s.d.draw ts).put bs).writer.failed = true := by
      rw [← Bool.not_eq_false]
      exact fun hok ↦ htakes ((takes_iff ts bs).1 hok)
    rw [if_pos hfailed] at ht
    rw [← ht]
    exact if_pos Writer.put_file

/-! ### Where the writer is -/

/-- What every call keeps: the shards of the record are there, and only the current one is written
to; its buffer has no error while its file is open, and its file is closed only when it is full;
until a file is closed it is not. -/
structure Placed (s : Sizing Id) : Prop where
  cur_mem : s.d.cur ∈ s.d.dir.all.map Shard.name
  file_mem : s.d.writer.file ∈ s.d.dir.all.map Shard.name
  ok : s.d.opened = true → s.d.writer.failed = false
  full : s.d.opened = false → s.d.max ≤ s.d.writer.sz
  below : s.d.closed = false → (s.d.writer.sz : ℤ) < s.d.max
  left : ∀ p ∈ s.left, p.1 ∈ s.d.dir.all.map Shard.name ∧ p.1 ≠ s.d.writer.file

namespace Placed

variable {entries : List Bytes} {ts : Id} {bs : Bytes}

omit [LinearOrder Id]

/-- A file that takes an entry without being full is open. -/
theorem opened_of_lt (h : Placed s) (hlt : (s.d.writer.sz : ℤ) < s.d.max) : s.d.opened = true := by
  rw [← Bool.not_eq_false]
  exact fun hclosed ↦ absurd (h.full hclosed) hlt.not_ge

/-- On an open file an entry leaves no error. -/
theorem ok_taken (h : Placed s) (ho : s.d.opened = true) (ts : Id) (bs : Bytes) :
    (s.d.taken ts bs).opened = true → (s.d.taken ts bs).writer.failed = false := fun _ ↦
  (takes_iff ts bs).2 ⟨h.ok ho, .inl ho⟩

/-- Only on a closed file is an entry refused. -/
theorem closed_of_not_takes (h : Placed s) (hrefused : ¬ s.d.Takes bs.length) :
    s.d.opened = false := by
  rw [← Bool.not_eq_true]
  exact fun ho ↦ hrefused ⟨h.ok ho, .inl ho⟩

/-- An entry that is refused changes no size. -/
theorem refused (h : Placed s) (hrefused : ¬ s.d.Takes bs.length) :
    Placed { s with d := (s.d.draw ts).put bs } := by
  have hnames : ((s.d.draw ts).put bs).dir.all.map Shard.name = s.d.dir.all.map Shard.name :=
    Dir.names_all_append
  have hfile : ((s.d.draw ts).put bs).writer.file = s.d.writer.file := Writer.put_file
  have hsz : ((s.d.draw ts).put bs).writer.sz = s.d.writer.sz := Writer.put_sz
  have hclosed : ((s.d.draw ts).put bs).opened = false :=
    (opened_emit (d := s.d.draw ts) Writer.put_file).trans (h.closed_of_not_takes hrefused)
  refine ⟨?_, ?_, fun ho ↦ ?_, fun _ ↦ ?_, fun hc ↦ ?_, ?_⟩
  · rw [hnames]
    exact h.cur_mem
  · rw [hnames, hfile]
    exact h.file_mem
  · exact absurd (hclosed.symm.trans ho) Bool.false_ne_true
  · rw [hsz]
    exact h.full (h.closed_of_not_takes hrefused)
  · rw [hsz]
    exact h.below hc
  · rw [hnames, hfile]
    exact h.left

/-- An entry was taken, and the shard is not full. -/
theorem taken (h : Placed s) (htakes : s.d.Takes bs.length)
    (hlt : (s.d.writer.sz + bs.length : ℤ) < s.d.max) :
    Placed ⟨s.d.taken ts bs, entries, s.left⟩ := by
  have hsz : (s.d.taken ts bs).writer.sz = s.d.writer.sz + bs.length := sz_taken ts bs
  refine ⟨?_, ?_, fun _ ↦ (takes_iff ts bs).2 htakes, fun hclosed ↦ ?_, fun _ ↦ ?_, ?_⟩
  · rw [names_taken]
    exact h.cur_mem
  · rw [names_taken, file_taken]
    exact h.file_mem
  · rw [opened_taken] at hclosed
    have := h.full hclosed
    exact absurd this (by omega)
  · show ((s.d.taken ts bs).writer.sz : ℤ) < s.d.max
    omega
  · rw [names_taken, file_taken]
    exact h.left

/-- An entry was taken, and the rotation stays. -/
theorem release (h : Placed s) (htakes : s.d.Takes bs.length)
    (hfull : s.d.max ≤ s.d.writer.sz + bs.length) :
    Placed ⟨(s.d.taken ts bs).release, entries, s.left⟩ := by
  refine ⟨?_, ?_, ?_, fun _ ↦ ?_, nofun, ?_⟩
  · rw [names_taken_release]
    exact h.cur_mem
  · rw [names_taken_release, file_release, file_taken]
    exact h.file_mem
  · exact failed_release fun _ ↦ (takes_iff ts bs).2 htakes
  · rw [sz_release, sz_taken]
    exact hfull.trans_eq (Nat.cast_add _ _).symm
  · rw [names_taken_release, file_release, file_taken]
    exact h.left

end Placed

variable {ts id : Id} {bs : Bytes}

/-- An entry was taken, and the rotation goes on to a new shard. -/
theorem Placed.attach (h : Placed s) (hid : shardName U id ∉ s.d.dir.all.map Shard.name)
    (names : List String) (entries : List Bytes) :
    Placed ⟨((s.d.taken ts bs).release.attach U id).remove names, [],
      s.left ++ [(s.d.writer.file, entries)]⟩ := by
  have hnames := names_taken_release (d := s.d) ts bs
  rw [← hnames] at hid
  have hmem : ∀ n ∈ s.d.dir.all.map Shard.name,
      n ∈ (((s.d.taken ts bs).release.attach U id).remove names).dir.all.map Shard.name := by
    intro n hn
    rw [← hnames] at hn
    obtain ⟨sh, hsh, rfl⟩ := List.mem_map.1 hn
    exact List.mem_map_of_mem (Dir.all_remove.mem_iff.2 ((mem_all_attach hid).2 (.inl hsh)))
  have hnew : (⟨shardName U id, []⟩ : Shard) ∈
      (((s.d.taken ts bs).release.attach U id).remove names).dir.all :=
    Dir.all_remove.mem_iff.2 ((mem_all_attach hid).2 (.inr rfl))
  have hopened := opened_attach (by rw [hnames]; exact h.cur_mem) hid
  have hne : ∀ n ∈ s.d.dir.all.map Shard.name, n ≠ shardName U id := fun n hn heq ↦
    hid (by rwa [hnames, ← heq])
  refine ⟨hmem _ h.cur_mem, List.mem_map.2 ⟨_, hnew, rfl⟩, fun _ ↦ rfl, fun hclosed ↦ ?_, nofun,
    fun p hp ↦ ?_⟩
  · exact absurd (hopened.symm.trans hclosed) Bool.false_ne_true.symm
  · rcases List.mem_append.1 hp with hp | hp
    · exact ⟨hmem _ (h.left p hp).1, hne _ (h.left p hp).1⟩
    · rw [List.mem_singleton.1 hp]
      exact ⟨hmem _ h.file_mem, hne _ h.file_mem⟩

/-- **One call** keeps it, whatever becomes of it. -/
theorem Placed.step (h : Placed s) (hstep : sizeStep fmt s c = some t) : Placed t := by
  rcases sizeStep_cases hstep h.file_mem with ⟨-, drawn, rfl⟩ | ⟨ts, bs, -, -, ⟨hrefused, rfl⟩ |
    ⟨htakes, ⟨hlt, rfl⟩ | ⟨hfull, ⟨-, drawn, rfl⟩ | ⟨id, names, -, -, hnew, rfl⟩⟩⟩⟩
  · exact ⟨h.cur_mem, h.file_mem, h.ok, h.full, h.below, h.left⟩
  · exact h.refused hrefused
  · exact h.taken htakes hlt
  · have hrel : Placed ⟨(s.d.taken ts bs).release, s.entries ++ [bs], s.left⟩ :=
      h.release htakes hfull
    exact ⟨hrel.cur_mem, hrel.file_mem, hrel.ok, hrel.full, hrel.below, hrel.left⟩
  · exact h.attach hnew names _

/-! ### One call and the sizes -/

namespace Sized

variable {ts : Id} {bs : Bytes}

omit [LinearOrder Id]

/-- An entry that is refused changes nothing. -/
theorem refused (hs : Sized s) (hclosed : s.d.opened = false) :
    Sized { s with d := (s.d.draw ts).put bs } := by
  have hput : ∀ {name : String} {held : Bytes}, s.d.Stores name held →
      ((s.d.draw ts).put bs).Stores name held := fun h ↦
    Stores.put_of_closed (d := s.d.draw ts) h hclosed
  have hfile : ((s.d.draw ts).put bs).writer.file = s.d.writer.file := Writer.put_file
  have hsz : ((s.d.draw ts).put bs).writer.sz = s.d.writer.sz := Writer.put_sz
  refine ⟨?_, ?_, fun p hp ↦ ⟨hput (hs.left p hp).1, (hs.left p hp).2⟩, fun _ ↦ hs.closed hclosed⟩
  · rw [hfile]
    exact hput hs.stored
  · rw [hsz]
    exact hs.counted

variable (hs : Sized s) (h : Placed s) (ho : s.d.opened = true)
include hs h ho

/-- An entry that is taken on an open file is in its shard. -/
theorem stores_taken :
    (s.d.taken ts bs).Stores s.d.writer.file (s.entries ++ [bs]).flatten := by
  have htaken := hs.stored.taken ho (h.ok ho) ts bs
  rw [if_pos rfl] at htaken
  rwa [List.flatten_append, List.flatten_singleton]

/-- The shards that were gone on from do not change. -/
theorem stores_left {p : String × List Bytes} (hp : p ∈ s.left) :
    (s.d.taken ts bs).Stores p.1 p.2.flatten := by
  have htaken := (hs.left p hp).1.taken ho (h.ok ho) ts bs
  rwa [if_neg (h.left p hp).2, List.append_nil] at htaken

omit h ho in
theorem sz_taken_eq : (s.d.taken ts bs).writer.sz = (s.entries ++ [bs]).flatten.length := by
  rw [sz_taken, hs.counted, length_flatten_append]

theorem taken : Sized ⟨s.d.taken ts bs, s.entries ++ [bs], s.left⟩ := by
  refine ⟨?_, hs.sz_taken_eq, fun p hp ↦ ⟨hs.stores_left h ho hp, (hs.left p hp).2⟩,
    fun hclosed ↦ ?_⟩
  · rw [file_taken]
    exact hs.stores_taken h ho
  · rw [opened_taken, ho] at hclosed
    exact absurd hclosed.symm Bool.false_ne_true

/-- The rotation stays: with `cur` closed, the shard is filled or its file is another. -/
theorem release (hfilled : s.d.writer.file = s.d.cur → Filled s.d.max (s.entries ++ [bs])) :
    Sized ⟨(s.d.taken ts bs).release, s.entries ++ [bs], s.left⟩ := by
  have hok := h.ok_taken ho ts bs
  refine ⟨?_, ?_, fun p hp ↦ ⟨(hs.stores_left h ho hp).release hok, (hs.left p hp).2⟩,
    fun hclosed ↦ hfilled ?_⟩
  · rw [file_release, file_taken]
    exact (hs.stores_taken h ho).release hok
  · rw [sz_release]
    exact hs.sz_taken_eq
  · rw [opened_release, file_taken, Bool.not_eq_false'] at hclosed
    exact beq_iff_eq.1 hclosed

end Sized

/-- The rotation goes on to a new shard, which is empty. -/
theorem Sized.attach (hs : Sized s) (h : Placed s) (ho : s.d.opened = true)
    (hid : shardName U id ∉ s.d.dir.all.map Shard.name)
    (hfilled : Filled s.d.max (s.entries ++ [bs])) (names : List String) :
    Sized ⟨((s.d.taken ts bs).release.attach U id).remove names, [],
      s.left ++ [(s.d.writer.file, s.entries ++ [bs])]⟩ := by
  have hok := h.ok_taken ho ts bs
  have hnames := names_taken_release (d := s.d) ts bs
  rw [← hnames] at hid
  have hkept : ∀ {name : String} {held : Bytes}, (s.d.taken ts bs).Stores name held →
      (((s.d.taken ts bs).release.attach U id).remove names).Stores name held := fun hstores ↦
    ((hstores.release hok).attach (content_release hok) hid).remove names
  have hopened := opened_attach (by rw [hnames]; exact h.cur_mem) hid
  refine ⟨(Stores.attach_self hid).remove names, rfl, fun p hp ↦ ?_, fun hclosed ↦ ?_⟩
  · rcases List.mem_append.1 hp with hp | hp
    · exact ⟨hkept (hs.stores_left h ho hp), (hs.left p hp).2⟩
    · rw [List.mem_singleton.1 hp]
      exact ⟨hkept (hs.stores_taken h ho), hfilled⟩
  · exact absurd (hopened.symm.trans hclosed) Bool.false_ne_true.symm

/-- Where the entry is taken, a full shard is spared if its file is open and is stayed with. -/
theorem spares_iff (hts : c.env.ts = some ts) (hbs : fmt.encode ⟨ts, c.data⟩ = some bs)
    (htakes : s.d.Takes bs.length) :
    Spares fmt s c ↔ (s.d.writer.sz : ℤ) < s.d.max ∨
      s.d.opened = true ∧ (c.env.id ≠ none → c.env.create = false) := by
  constructor
  · intro h
    rcases lt_or_ge (s.d.writer.sz : ℤ) s.d.max with hlt | hfull
    · exact .inl hlt
    · have hfits := h hfull ts hts bs hbs
      split_ifs at hfits with ho
      · exact .inr ⟨ho, hfits⟩
      · exact absurd htakes hfits
  · rintro (hlt | ⟨ho, hstays⟩) hfull ts' hts' bs' hbs'
    · exact absurd hfull hlt.not_ge
    · rwa [if_pos ho]

omit [LinearOrder Id] in
/-- A file that is closed is `cur`, and a full one that is open is another. -/
theorem Placed.file_eq_cur_iff (h : Placed s) (hfull : s.d.max ≤ s.d.writer.sz) :
    s.d.writer.file = s.d.cur ↔ s.d.opened = false := by
  have hclosed : s.d.closed = true := by
    rw [← Bool.not_eq_false]
    exact fun hc ↦ absurd hfull (h.below hc).not_ge
  rw [opened, hclosed, Bool.true_and, Bool.not_eq_false', beq_iff_eq]

section Taken

variable {ts : Id} {bs : Bytes} (hs : Sized s) (h : Placed s)
  (hfull : s.d.max ≤ s.d.writer.sz + bs.length)
include hs

omit [LinearOrder Id] in
/-- A shard is filled by the entry if it was not full before. -/
theorem Sized.filled_iff : Filled s.d.max (s.entries ++ [bs]) ↔
    s.d.max ≤ s.d.writer.sz + bs.length ∧ (s.d.writer.sz : ℤ) < s.d.max := by
  rw [filled_append_iff, length_flatten_append, hs.counted, Nat.cast_add]

include h hfull

omit [LinearOrder Id] in
/-- To stay with a full shard keeps the sizes if its file is open. -/
theorem sized_release_iff (drawn : List Id) :
    Sized ⟨(s.d.taken ts bs).release.withDrawn drawn, s.entries ++ [bs], s.left⟩ ↔
      (s.d.writer.sz : ℤ) < s.d.max ∨ s.d.opened = true := by
  constructor
  · intro ht
    rcases lt_or_ge (s.d.writer.sz : ℤ) s.d.max with hbelow | hwas
    · exact .inl hbelow
    refine .inr ?_
    -- otherwise the entry is counted for a file that is closed and was full
    rw [← Bool.not_eq_false]
    intro ho
    have hclosed : (s.d.taken ts bs).release.opened = false := by
      rw [opened_release, file_taken, Bool.not_eq_false', beq_iff_eq]
      exact (h.file_eq_cur_iff hwas).2 ho
    exact absurd (hs.filled_iff.1 (ht.closed hclosed)).2 hwas.not_gt
  · intro hor
    have hrel : Sized ⟨(s.d.taken ts bs).release, s.entries ++ [bs], s.left⟩ := by
      rcases lt_or_ge (s.d.writer.sz : ℤ) s.d.max with hbelow | hwas
      · exact hs.release h (h.opened_of_lt hbelow) fun _ ↦ hs.filled_iff.2 ⟨hfull, hbelow⟩
      · have ho := hor.resolve_left hwas.not_gt
        refine hs.release h ho fun hcur ↦ ?_
        exact absurd (((h.file_eq_cur_iff hwas).1 hcur).symm.trans ho) Bool.false_ne_true
    exact ⟨hrel.stored, hrel.counted, hrel.left, hrel.closed⟩

/-- To go on from a shard keeps the sizes if the shard was not full before its last entry. -/
theorem sized_attach_iff {id : Id} (hnew : shardName U id ∉ s.d.dir.all.map Shard.name)
    (names : List String) :
    Sized ⟨((s.d.taken ts bs).release.attach U id).remove names, [],
        s.left ++ [(s.d.writer.file, s.entries ++ [bs])]⟩ ↔
      (s.d.writer.sz : ℤ) < s.d.max := by
  constructor
  · intro ht
    exact (hs.filled_iff.1 (ht.left _ (List.mem_append_right _ List.mem_cons_self)).2).2
  · intro hbelow
    exact hs.attach h (h.opened_of_lt hbelow) hnew (hs.filled_iff.2 ⟨hfull, hbelow⟩) names

end Taken

/-- **One call keeps the sizes exactly if it spares a full shard.** -/
theorem sized_step_iff (hs : Sized s) (h : Placed s) (hstep : sizeStep fmt s c = some t) :
    Sized t ↔ Spares fmt s c := by
  rcases sizeStep_cases hstep h.file_mem with ⟨hnone, drawn, rfl⟩ | ⟨ts, bs, hts, hbs,
    ⟨hrefused, rfl⟩ | ⟨htakes, hcases⟩⟩
  · refine iff_of_true ⟨hs.stored, hs.counted, hs.left, hs.closed⟩ fun _ ts hts bs hbs ↦ ?_
    rw [Option.mem_def.1 hts, Option.bind_some, Option.mem_def.1 hbs] at hnone
    cases hnone
  · have hclosed := h.closed_of_not_takes hrefused
    refine iff_of_true (hs.refused hclosed) fun _ ts' hts' bs' hbs' ↦ ?_
    obtain rfl := Option.some.inj (hts.symm.trans hts')
    obtain rfl := Option.some.inj (hbs.symm.trans hbs')
    rwa [hclosed, if_neg Bool.false_ne_true]
  · rw [spares_iff hts hbs htakes]
    rcases hcases with ⟨hlt, rfl⟩ | ⟨hfull, ⟨hstays, drawn, rfl⟩ | ⟨id, names, hid, hcreate, hnew,
      rfl⟩⟩
    · have hbelow : (s.d.writer.sz : ℤ) < s.d.max := by omega
      exact iff_of_true (hs.taken h (h.opened_of_lt hbelow)) (.inl hbelow)
    · rw [sized_release_iff hs h hfull, and_iff_left hstays]
    · rw [sized_attach_iff hs h hfull hnew]
      refine (or_iff_left fun ⟨_, hstays⟩ ↦ ?_).symm
      rw [hid, hcreate] at hstays
      exact Bool.noConfusion (hstays (Option.some_ne_none id))

/-! ### Runs -/

/-- A new writer is on an empty shard. -/
theorem sized_new {dir : Dir Id} {max shards : ℤ} {d : DirectoryWriter Id} (hmax : 1 ≤ max)
    (hid : shardName U id ∉ dir.all.map Shard.name)
    (hd : newDirectoryWriter U dir max shards (some id) true = .ok d) :
    Placed ⟨d, [], []⟩ ∧ Sized ⟨d, [], []⟩ := by
  have hself : d.Stores (shardName U id) [] := by
    cases hd
    exact Stores.attach_self (d := ⟨dir, Writer.new "", _, _, _, _⟩) hid
  have hmax' : d.max = max := by
    cases hd
    exact if_neg (by omega)
  have hwriter : d.writer = Writer.new (shardName U id) ∧ d.cur = shardName U id ∧
      d.closed = false := by
    cases hd
    exact ⟨rfl, rfl, rfl⟩
  obtain ⟨hw, hcur, hclosed⟩ := hwriter
  have hopened : d.opened = true := by
    rw [opened, hclosed]
    rfl
  have hnot : d.opened ≠ false := by
    rw [hopened]
    exact Bool.false_ne_true.symm
  refine ⟨⟨?_, ?_, fun _ ↦ ?_, fun ho ↦ absurd ho hnot, fun _ ↦ ?_,
    fun p hp ↦ absurd hp List.not_mem_nil⟩,
    ⟨?_, ?_, fun p hp ↦ absurd hp List.not_mem_nil, fun ho ↦ absurd ho hnot⟩⟩
  · rw [hcur]
    exact hself.1
  · rw [hw]
    exact hself.1
  · rw [hw]
    rfl
  · rw [hw, hmax']
    exact hmax
  · rw [hw]
    exact hself
  · rw [hw]
    rfl

/-- **The exact condition for the sizes.** In every run of writes on a new writer, whatever fails in
them: every shard holds the entries it has taken, the count is the number of their bytes, and every
shard that was gone on from or closed was filled by its last entry, in every state the run passes
through, exactly if every call spares a full shard. -/
theorem sized_throughout_iff {dir : Dir Id} {max shards : ℤ} {id : Id} {d : DirectoryWriter Id}
    (hmax : 1 ≤ max) (hid : shardName U id ∉ dir.all.map Shard.name)
    (hd : newDirectoryWriter U dir max shards (some id) true = .ok d) {cs : List (WriteCall U)}
    (hrun : Run (sizeStep fmt) ⟨d, [], []⟩ cs t) :
    Throughout (sizeStep fmt) Sized ⟨d, [], []⟩ cs ↔
      RunWhile (sizeStep fmt) (Spares fmt) ⟨d, [], []⟩ cs t := by
  obtain ⟨hplaced, hsized⟩ := sized_new hmax hid hd
  exact hrun.throughout_iff (fun _ _ _ h hstep ↦ h.step hstep)
    (fun _ _ _ h hs hstep ↦ sized_step_iff hs h hstep) hplaced hsized

/-- A rotation that fails on a shard other than the first leaves the sizes as they are to be. -/
theorem sized_of_failed_rotation :
    ∃ t, newDirectoryWriter ulid128 Dir.empty 1 10 (some (ulidAt 0 1)) true =
        .ok (eagerWriter (ulidAt 0 1) 10) ∧
      Run (sizeStep cborEntry) ⟨eagerWriter (ulidAt 0 1) 10, [], []⟩
        (failedSecondRotation.take 2) t ∧ t.left.length = 1 ∧
      Throughout (sizeStep cborEntry) Sized ⟨eagerWriter (ulidAt 0 1) 10, [], []⟩
        (failedSecondRotation.take 2) := by
  have hd : newDirectoryWriter ulid128 Dir.empty 1 10 (some (ulidAt 0 1)) true =
      .ok (eagerWriter (ulidAt 0 1) 10) := rfl
  obtain ⟨t, hspares, hleft⟩ : ∃ t, RunWhile (sizeStep cborEntry) (Spares cborEntry)
      ⟨eagerWriter (ulidAt 0 1) 10, [], []⟩ (failedSecondRotation.take 2) t ∧
        t.left.length = 1 :=
    ⟨_, runWhile_iff_foldlM.2 rfl, rfl⟩
  have hrun := hspares.mono fun _ _ _ ↦ trivial
  exact ⟨t, hd, hrun, hleft, (sized_throughout_iff (by decide) (by decide) hd hrun).2 hspares⟩

/-- The first rotation has no file, and the second has. -/
def failedFirstRotation : List (WriteCall ulid128) :=
  [⟨[97], { WriteEnv.ordinary ulid128 (ulidAt 0 2) (ulidAt 0 3) with create := false }⟩,
    ⟨[98], .ordinary ulid128 (ulidAt 0 4) (ulidAt 0 5)⟩]

/-- **A rotation that fails, and the next one succeeds.** On the first shard, the entry in between
is counted and not in the shard. On a later one it is in the shard, which was full without it. -/
theorem exists_not_sized :
    newDirectoryWriter ulid128 Dir.empty 1 10 (some (ulidAt 0 1)) true =
        .ok (eagerWriter (ulidAt 0 1) 10) ∧
      (∃ t, Run (sizeStep cborEntry) ⟨eagerWriter (ulidAt 0 1) 10, [], []⟩ failedFirstRotation t ∧
        (∃ p ∈ t.left, ∃ sh ∈ t.d.dir.all, sh.name = p.1 ∧
          (t.d.content sh).length < p.2.flatten.length) ∧ ¬ Sized t) ∧
      ∃ t, Run (sizeStep cborEntry) ⟨eagerWriter (ulidAt 0 1) 10, [], []⟩ failedSecondRotation t ∧
        (∃ p ∈ t.left, p.1 = shardName ulid128 (ulidAt 0 3) ∧ ¬ Filled 1 p.2) ∧ ¬ Sized t := by
  refine ⟨rfl, ?_, ?_⟩
  · obtain ⟨t, hrun, p, hp, sh, hsh, hname, hlt⟩ : ∃ t, Run (sizeStep cborEntry)
        ⟨eagerWriter (ulidAt 0 1) 10, [], []⟩ failedFirstRotation t ∧
        ∃ p ∈ t.left, ∃ sh ∈ t.d.dir.all, sh.name = p.1 ∧
          (t.d.content sh).length < p.2.flatten.length :=
      ⟨_, run_iff_foldlM.2 rfl, by decide +kernel⟩
    refine ⟨t, hrun, ⟨p, hp, sh, hsh, hname, hlt⟩, fun h ↦ ?_⟩
    rw [(h.left p hp).1.2 sh hsh hname] at hlt
    exact lt_irrefl _ hlt
  · obtain ⟨t, hrun, hmax, p, hp, hname, hwas⟩ : ∃ t, Run (sizeStep cborEntry)
        ⟨eagerWriter (ulidAt 0 1) 10, [], []⟩ failedSecondRotation t ∧ t.d.max = 1 ∧
        ∃ p ∈ t.left, p.1 = shardName ulid128 (ulidAt 0 3) ∧
          1 ≤ (p.2.dropLast.flatten.length : ℤ) :=
      ⟨_, run_iff_foldlM.2 rfl, rfl, by decide +kernel⟩
    have hnot : ¬ Filled 1 p.2 := fun h ↦ absurd h.dropLast_lt hwas.not_gt
    exact ⟨t, hrun, ⟨p, hp, hname, hnot⟩, fun h ↦ hnot (hmax ▸ (h.left p hp).2)⟩

end Step

end Log
