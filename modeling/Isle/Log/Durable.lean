import Isle.Foundation.Run
import Isle.Log.Writer

/-!
# Acknowledged writes

Whether an entry whose `Write` returned nil is in a shard once the writer is closed, for writers
whose rotations may fail.

What a shard **will hold** after `Close` is its `content`: the bytes in the file and, for the shard
being written, those still in the buffer. As long as the file of the writer is open this is kept by
every operation, a failed rotation included (`Sound`).

**Where a write can be lost.** A rotation that fails to create a file leaves the writer on the file
it has just closed if this is still the first one; from then on what is buffered has nowhere to go,
and the next rotation that succeeds takes the buffer away without looking. The write that is lost so
is the one `Unheard` describes (`exists_acked_write_lost`), and it is the only one
(`durable_of_runWhile`).

**What `Close` says of it.** `Close` returns what closing `cur` returns, and `cur` is the file of
the first shard for good: after any rotation, successful or not, it is closed already and `Close`
returns an error. So where `Close` returns nil no write went unheard (`heard_of_run`), and every
acknowledged entry is in a shard (`durable_of_close`).
-/

namespace Log

namespace DirectoryWriter

variable {Id : Type*}

/-! ### What a shard will hold -/

/-- What a shard holds once the buffer is flushed. -/
def content (d : DirectoryWriter Id) (sh : Shard) : Bytes :=
  if sh.name = d.writer.file ∧ d.opened then sh.data ++ d.writer.buf else sh.data

variable {d : DirectoryWriter Id} {sh : Shard} {r : Writer × Bytes} {p : Bytes}

theorem content_of_closed (h : d.opened = false) : d.content sh = sh.data :=
  if_neg fun h' ↦ by simp [h] at h'

theorem content_of_buf_nil (h : d.writer.buf = []) : d.content sh = sh.data := by
  unfold content
  split_ifs
  · rw [h, List.append_nil]
  · rfl

/-- What goes on in the same file leaves it open or closed. -/
theorem opened_emit (hfile : r.1.file = d.writer.file) : (d.emit r).opened = d.opened := by
  rw [opened, opened, emit, hfile]

/-- After the file `cur` was closed, every other one is open. -/
theorem opened_release : d.release.opened = !(d.writer.file == d.cur) := by
  rw [opened, show d.release.writer.file = d.writer.file from Writer.flush_file]
  rfl

/-- A file that is still open after `cur` was closed was open. -/
theorem opened_of_release (h : d.release.opened = true) : d.opened = true := by
  rw [opened_release, Bool.not_eq_true'] at h
  rw [opened, h, Bool.and_false]
  rfl

/-- A write on an open file: the content of its shard grows by what is written. -/
theorem content_emit_of_opened (ho : d.opened = true) (hfile : r.1.file = d.writer.file)
    (hbuf : r.2 ++ r.1.buf = d.writer.buf ++ p) :
    (d.emit r).content (sh.extend r.1.file r.2) =
      d.content sh ++ if sh.name = d.writer.file then p else [] := by
  have ho' : (d.emit r).opened = true := (opened_emit hfile).trans ho
  rw [content, content, ho, ho', Shard.extend_name, show (d.emit r).writer = r.1 from rfl, hfile]
  by_cases hname : sh.name = d.writer.file
  · simp only [Shard.extend, hname, true_and, if_true, List.append_assoc, hbuf]
  · simp only [Shard.extend, hname, false_and, if_false, List.append_nil]

/-- A write on a closed file changes no content. -/
theorem content_emit_of_closed (ho : d.opened = false) (hfile : r.1.file = d.writer.file)
    (hout : r.2 = []) : (d.emit r).content (sh.extend r.1.file r.2) = d.content sh := by
  have ho' : (d.emit r).opened = false := (opened_emit hfile).trans ho
  rw [content_of_closed ho, content_of_closed ho', hout, Shard.extend_nil]

/-! Flushed, a shard holds what it will hold. -/

section Flush

variable (hok : d.opened = true → d.writer.failed = false)
include hok

theorem content_flush (sh : Shard) : d.flush.content sh = sh.data := by
  cases ho : d.opened with
  | true =>
    refine content_of_buf_nil ?_
    rw [flush, ho, Writer.flush_opened (hok ho)]
    rfl
  | false => exact content_of_closed ((opened_emit Writer.flush_file).trans ho)

theorem content_release (sh : Shard) : d.release.content sh = sh.data := by
  rw [← content_flush hok sh]
  cases ho : d.opened with
  | true =>
    have hbuf : d.flush.writer.buf = [] := by
      rw [flush, ho, Writer.flush_opened (hok ho)]
      rfl
    rw [content_of_buf_nil hbuf, content_of_buf_nil (by exact hbuf)]
  | false =>
    -- the file was closed before
    have hclosed : d.closed = true := by
      simp only [opened, Bool.not_eq_false', Bool.and_eq_true] at ho
      exact ho.1
    rw [release, show ({ d.flush with closed := true } : DirectoryWriter Id) = d.flush by
      rw [← hclosed]; rfl]

end Flush

end DirectoryWriter

/-! ### What is kept -/

section Sound

open DirectoryWriter

variable {Id : Type*}

/-- The entry is one of those the bytes are the encoding of. -/
def Holds (fmt : Codec UInt8 (Entry Id)) (bs : Bytes) (e : Entry Id) : Prop :=
  ∃ es, fmt.encodeAll es = some bs ∧ e ∈ es

/-- The entries `es` will be in shards: the file of the writer, while it is open, will hold whole
entries, and each of `es` is in what some shard will hold. Once it is closed the writer wants to
rotate at every write. -/
structure Sound (fmt : Codec UInt8 (Entry Id)) (d : DirectoryWriter Id) (es : List (Entry Id)) :
    Prop where
  cur_mem : d.cur ∈ d.dir.all.map Shard.name
  ok : d.opened = true → d.writer.failed = false
  full : d.opened = false → d.max ≤ d.writer.sz
  live : d.opened = true → ∃ sh ∈ d.dir.all, sh.name = d.writer.file ∧
    ∃ es', fmt.encodeAll es' = some (d.content sh)
  stored : ∀ e ∈ es, ∃ sh ∈ d.dir.all, Holds fmt (d.content sh) e

namespace Sound

variable {fmt : Codec UInt8 (Entry Id)} {d : DirectoryWriter Id} {es es' : List (Entry Id)}
  {r : Writer × Bytes} {p : Bytes}

theorem mono (h : Sound fmt d es) (hes : es' ⊆ es) : Sound fmt d es' :=
  { h with stored := fun e he ↦ h.stored e (hes he) }

theorem draw (h : Sound fmt d es) (id : Id) : Sound fmt (d.draw id) es :=
  ⟨h.cur_mem, h.ok, h.full, h.live, h.stored⟩

theorem count (h : Sound fmt d es) (n : ℕ) : Sound fmt (d.count n) es :=
  ⟨h.cur_mem, h.ok, fun ho ↦ (h.full ho).trans (by simp [DirectoryWriter.count]), h.live, h.stored⟩

theorem remove (h : Sound fmt d es) (names : List String) : Sound fmt (d.remove names) es := by
  have hmem : ∀ sh, sh ∈ (d.remove names).dir.all ↔ sh ∈ d.dir.all := fun sh ↦
    Dir.all_remove.mem_iff
  refine ⟨?_, h.ok, h.full, fun ho ↦ ?_, fun e he ↦ ?_⟩
  · exact (Dir.all_remove.map Shard.name).mem_iff.2 h.cur_mem
  · obtain ⟨sh, hsh, hlive⟩ := h.live ho
    exact ⟨sh, (hmem sh).2 hsh, hlive⟩
  · obtain ⟨sh, hsh, hstored⟩ := h.stored e he
    exact ⟨sh, (hmem sh).2 hsh, hstored⟩

private theorem emit_mem {sh : Shard} (h : sh ∈ d.dir.all) :
    sh.extend r.1.file r.2 ∈ (d.emit r).dir.all := by
  rw [emit, Dir.all_append]
  exact List.mem_map_of_mem h

private theorem emit_cur_mem (h : Sound fmt d es) :
    (d.emit r).cur ∈ (d.emit r).dir.all.map Shard.name := by
  obtain ⟨sh, hsh, hname⟩ := List.mem_map.1 h.cur_mem
  exact List.mem_map.2 ⟨_, emit_mem hsh, (Shard.extend_name _ _).trans hname⟩

/-- A write of entries to an open file. -/
theorem emit_of_opened (h : Sound fmt d es) (ho : d.opened = true)
    (hfile : r.1.file = d.writer.file) (hok : r.1.failed = false)
    (hbuf : r.2 ++ r.1.buf = d.writer.buf ++ p) (hp : fmt.encodeAll es' = some p) :
    Sound fmt (d.emit r) (es ++ es') := by
  have ho' : (d.emit r).opened = true := (opened_emit hfile).trans ho
  have hcontent : ∀ sh : Shard, (d.emit r).content (sh.extend r.1.file r.2) = _ := fun sh ↦
    content_emit_of_opened ho hfile hbuf
  obtain ⟨live, hlive, hname, hwhole, henc⟩ := h.live ho
  have henc' : fmt.encodeAll (hwhole ++ es') =
      some ((d.emit r).content (live.extend r.1.file r.2)) := by
    rw [hcontent, if_pos hname]
    exact Codec.encodeAll_append henc hp
  refine ⟨emit_cur_mem h, fun _ ↦ hok, fun hc ↦ ?_, fun _ ↦ ?_, fun e he ↦ ?_⟩
  · rw [ho'] at hc
    cases hc
  · exact ⟨_, emit_mem hlive, by rw [Shard.extend_name, hname, ← hfile]; rfl, _, henc'⟩
  · rcases List.mem_append.1 he with he | he
    · obtain ⟨sh, hsh, es₁, henc₁, hmem⟩ := h.stored e he
      refine ⟨_, emit_mem hsh, ?_⟩
      rw [hcontent]
      by_cases hfile' : sh.name = d.writer.file
      · rw [if_pos hfile']
        exact ⟨_, Codec.encodeAll_append henc₁ hp, List.mem_append_left _ hmem⟩
      · rw [if_neg hfile', List.append_nil]
        exact ⟨es₁, henc₁, hmem⟩
    · exact ⟨_, emit_mem hlive, _, henc', List.mem_append_right _ he⟩

/-- A write to a closed file. -/
theorem emit_of_closed (h : Sound fmt d es) (ho : d.opened = false)
    (hfile : r.1.file = d.writer.file) (hsz : r.1.sz = d.writer.sz) (hout : r.2 = []) :
    Sound fmt (d.emit r) es := by
  have ho' : (d.emit r).opened = false := (opened_emit hfile).trans ho
  have hfull : d.max ≤ r.1.sz := by
    rw [hsz]
    exact h.full ho
  refine ⟨emit_cur_mem h, fun hc ↦ ?_, fun _ ↦ hfull, fun hc ↦ ?_, fun e he ↦ ?_⟩
  · rw [ho'] at hc
    cases hc
  · rw [ho'] at hc
    cases hc
  · obtain ⟨sh, hsh, hstored⟩ := h.stored e he
    refine ⟨_, emit_mem hsh, ?_⟩
    rwa [content_emit_of_closed ho hfile hout]

/-- **An entry written while the file is open is kept.** -/
theorem put_of_opened (h : Sound fmt d es) (ho : d.opened = true) {e : Entry Id}
    {bs : Bytes} (he : fmt.encode e = some bs) : Sound fmt (d.put bs) (es ++ [e]) := by
  obtain ⟨hok, hbuf⟩ := Writer.put_opened (p := bs) (h.ok ho)
  rw [DirectoryWriter.put, ho]
  exact h.emit_of_opened ho Writer.put_file hok hbuf (Codec.encodeAll_singleton he)

theorem put_of_closed (h : Sound fmt d es) (ho : d.opened = false) (bs : Bytes) :
    Sound fmt (d.put bs) es := by
  rw [DirectoryWriter.put, ho]
  exact h.emit_of_closed ho Writer.put_file Writer.put_sz Writer.put_closed

theorem flush (h : Sound fmt d es) : Sound fmt d.flush es := by
  rw [DirectoryWriter.flush]
  cases ho : d.opened with
  | true =>
    rw [Writer.flush_opened (h.ok ho)]
    rw [← List.append_nil es]
    exact h.emit_of_opened ho rfl (h.ok ho) rfl (Codec.encodeAll_nil fmt)
  | false => exact h.emit_of_closed ho Writer.flush_file Writer.flush_sz Writer.flush_closed

theorem release (h : Sound fmt d es) (hfull : d.max ≤ d.writer.sz) : Sound fmt d.release es := by
  have hflush := h.flush
  have hsame : ∀ sh, d.release.content sh = d.flush.content sh := fun sh ↦
    (content_release h.ok sh).trans (content_flush h.ok sh).symm
  have hopened : d.release.opened = true → d.flush.opened = true := fun ho ↦
    (opened_emit Writer.flush_file).trans (opened_of_release ho)
  refine ⟨hflush.cur_mem, fun ho ↦ hflush.ok (hopened ho), fun _ ↦ ?_, fun ho ↦ ?_, fun e he ↦ ?_⟩
  · rwa [DirectoryWriter.release, DirectoryWriter.flush, emit, Writer.flush_sz]
  · obtain ⟨sh, hsh, hname, hwhole⟩ := hflush.live (hopened ho)
    exact ⟨sh, hsh, hname, by rwa [hsame]⟩
  · obtain ⟨sh, hsh, hstored⟩ := hflush.stored e he
    exact ⟨sh, hsh, by rwa [hsame]⟩

end Sound

variable [LinearOrder Id] {U : Ulid Id} {fmt : Codec UInt8 (Entry Id)} {d : DirectoryWriter Id}
  {es : List (Entry Id)}

variable {id : Id} {s : Acked Id}

/-- A new shard is added to those there were. -/
theorem mem_all_attach (hid : shardName U id ∉ d.dir.all.map Shard.name) {sh : Shard} :
    sh ∈ (d.attach U id).dir.all ↔ sh ∈ d.dir.all ∨ sh = ⟨shardName U id, []⟩ := by
  have hshards : shardName U id ∉ (d.draw id).dir.shards.map Shard.name := fun hmem ↦
    hid (List.map_subset _ (List.subset_append_left _ _) hmem)
  exact Dir.mem_all_create hshards

/-- Its file is open: it is not `cur`. -/
theorem opened_attach (hcur : d.cur ∈ d.dir.all.map Shard.name)
    (hid : shardName U id ∉ d.dir.all.map Shard.name) : (d.attach U id).opened = true := by
  have hne : shardName U id ≠ d.cur := fun heq ↦ hid (heq ▸ hcur)
  simp [opened, DirectoryWriter.attach, DirectoryWriter.draw, Writer.new, hne]

/-- A new shard, for a writer with nothing buffered. -/
theorem Sound.attach (h : Sound fmt d es) (hdata : ∀ sh, d.content sh = sh.data)
    (hid : shardName U id ∉ d.dir.all.map Shard.name) : Sound fmt (d.attach U id) es := by
  have hall : ∀ sh, sh ∈ (d.attach U id).dir.all ↔ _ := fun sh ↦ mem_all_attach hid
  have ho := opened_attach h.cur_mem hid
  have hcontent : ∀ sh, (d.attach U id).content sh = sh.data := fun sh ↦ content_of_buf_nil rfl
  refine ⟨?_, fun _ ↦ rfl, fun hc ↦ ?_, fun _ ↦ ?_, fun e he ↦ ?_⟩
  · obtain ⟨sh, hsh, hname⟩ := List.mem_map.1 h.cur_mem
    exact List.mem_map.2 ⟨sh, (hall sh).2 (.inl hsh), hname⟩
  · rw [ho] at hc
    cases hc
  · refine ⟨⟨shardName U id, []⟩, (hall _).2 (.inr rfl), rfl, [], ?_⟩
    rw [hcontent]
    rfl
  · obtain ⟨sh, hsh, hstored⟩ := h.stored e he
    exact ⟨sh, (hall sh).2 (.inl hsh), by rwa [hcontent, ← hdata]⟩

/-- A rotation, whether it succeeds or fails, keeps what is kept. -/
theorem Sound.rotate (h : Sound fmt d es) (hfull : d.max ≤ d.writer.sz) {env : RotateEnv U}
    (hfresh : ∀ id ∈ env.id, shardName U id ∉ d.dir.all.map Shard.name) :
    Sound fmt (d.rotate env).2 es := by
  have hrel := h.release hfull
  rcases rotate_cases env d with heq | ⟨id, heq⟩ | ⟨id, names, e, hid, -, -, heq⟩
  · rwa [heq]
  · rw [heq]
    exact hrel.draw id
  · rw [heq]
    refine (hrel.attach (content_release h.ok) ?_).remove names
    rw [DirectoryWriter.release, DirectoryWriter.flush, emit, Dir.names_all_append]
    exact hfresh id hid

variable {env : WriteEnv U} {data : Bytes} {ts : Id} {bs : Bytes}

omit [LinearOrder Id] in
theorem Sound.taken_of_opened (h : Sound fmt d es) (ho : d.opened = true)
    (hbs : fmt.encode ⟨ts, data⟩ = some bs) : Sound fmt (d.taken ts bs) (es ++ [⟨ts, data⟩]) :=
  ((h.draw ts).put_of_opened ho hbs).count _

omit [LinearOrder Id] in
theorem Sound.taken (h : Sound fmt d es) (hbs : fmt.encode ⟨ts, data⟩ = some bs) :
    Sound fmt (d.taken ts bs) es := by
  cases ho : d.opened with
  | true => exact (h.taken_of_opened ho hbs).mono (List.subset_append_left _ _)
  | false => exact ((h.draw ts).put_of_closed ho bs).count _

/-- What an entry that was taken comes to: it stays, or there is a rotation. -/
private theorem Sound.settle (h : Sound fmt (d.taken ts bs) es) (hfresh : Fresh d env.toRotateEnv)
    (hw : ((d.taken ts bs).writer.sz : ℤ) < d.max ∧ d.write fmt env data = (none, d.taken ts bs) ∨
      d.max ≤ (d.taken ts bs).writer.sz ∧
        d.write fmt env data = (d.taken ts bs).rotate env.toRotateEnv) :
    Sound fmt (d.write fmt env data).2 es := by
  rcases hw with ⟨-, hw⟩ | ⟨hfull, hw⟩
  · rwa [hw]
  · rw [hw]
    refine h.rotate hfull fun id hid ↦ ?_
    rw [DirectoryWriter.taken, DirectoryWriter.count, DirectoryWriter.put, emit,
      Dir.names_all_append]
    exact hfresh id hid

/-- **A write keeps what is kept**, whatever becomes of it. -/
theorem Sound.write (h : Sound fmt d es) (hfresh : Fresh d env.toRotateEnv) :
    Sound fmt (d.write fmt env data).2 es := by
  rcases write_cases fmt env d data with
    ⟨e, hw⟩ | ⟨ts, e, hw⟩ | ⟨ts, bs, -, hbs, hw | ⟨-, hw⟩⟩
  · rwa [hw]
  · rw [hw]
    exact h.draw ts
  · rw [hw]
    cases ho : d.opened with
    | true =>
      exact ((h.draw ts).put_of_opened ho hbs).mono (List.subset_append_left _ _)
    | false => exact (h.draw ts).put_of_closed ho bs
  · exact (h.taken hbs).settle hfresh hw

/-- **A write to an open file that is acknowledged is kept.** -/
theorem Sound.write_of_opened (h : Sound fmt d es) (hfresh : Fresh d env.toRotateEnv)
    (ho : d.opened = true) (hack : (d.write fmt env data).1 = none) :
    ∃ ts, env.ts = some ts ∧ Sound fmt (d.write fmt env data).2 (es ++ [⟨ts, data⟩]) := by
  obtain ⟨ts, bs, hts, hbs, -, hw⟩ := write_cases_of_ack hack
  exact ⟨ts, hts, (h.taken_of_opened ho hbs).settle hfresh hw⟩

/-! ### Writes that are lost -/

/-- The write goes into the buffer of a closed file, and the rotation it asks for succeeds. -/
def Unheard (fmt : Codec UInt8 (Entry Id)) (d : DirectoryWriter Id) (env : WriteEnv U)
    (data : Bytes) : Prop :=
  d.opened = false ∧ d.writer.failed = false ∧
    (∃ bs ∈ env.ts.bind fun ts ↦ fmt.encode ⟨ts, data⟩,
      bs.length ≤ bufSize - d.writer.buf.length) ∧
    env.id.isSome ∧ env.create = true ∧ env.readDir = true

instance (fmt : Codec UInt8 (Entry Id)) (d : DirectoryWriter Id) (env : WriteEnv U)
    (data : Bytes) : Decidable (Unheard fmt d env data) :=
  inferInstanceAs (Decidable (_ ∧ _ ∧ _))

/-- On a closed file no other write is acknowledged. -/
theorem Sound.unheard (h : Sound fmt d es) (ho : d.opened = false)
    (hack : (d.write fmt env data).1 = none) : Unheard fmt d env data := by
  obtain ⟨ts, bs, hts, hbs, hok, ⟨hlt, -⟩ | ⟨-, hw⟩⟩ := write_cases_of_ack hack
  · -- the file was closed because it was full
    have hfull := (h.taken hbs).full ((opened_emit (d := d.draw ts) Writer.put_file).trans ho)
    exact absurd hlt hfull.not_gt
  · have hput : (d.writer.put d.opened bs).1.failed = false := hok
    rw [ho] at hput
    obtain ⟨hnot, hfits⟩ := Writer.fits_of_put_closed hput
    rw [hw] at hack
    rcases rotate_cases env.toRotateEnv (d.taken ts bs) with
      heq | ⟨id, heq⟩ | ⟨id, names, e, hid, hcreate, hread, heq⟩
    · rw [heq] at hack
      cases hack
    · rw [heq] at hack
      cases hack
    · rw [heq] at hack
      have hbs' : bs ∈ env.ts.bind fun ts ↦ fmt.encode ⟨ts, data⟩ := by
        rw [hts]
        exact hbs
      exact ⟨ho, hnot, ⟨bs, hbs', hfits⟩, by rw [hid]; rfl, hcreate, hread hack⟩

/-! ### Runs -/

/-- Every acknowledged entry is in some shard after `Close`, removed shards included. -/
def Durable (fmt : Codec UInt8 (Entry Id)) (s : Acked Id) : Prop :=
  ∀ e ∈ s.acked, ∃ sh ∈ s.d.close.2.dir.all, e ∈ fmt.decodeAll sh.data

instance (fmt : Codec UInt8 (Entry Id)) (s : Acked Id) : Decidable (Durable fmt s) :=
  inferInstanceAs (Decidable (∀ e ∈ s.acked, ∃ sh ∈ s.d.close.2.dir.all, _))

theorem Sound.step {s' : Acked Id} {c : WriteCall U} (h : Sound fmt s.d s.acked)
    (hc : ¬ Unheard fmt s.d c.env c.data) (hs : writeStep fmt s c = some s') :
    Sound fmt s'.d s'.acked := by
  obtain ⟨⟨hfresh, -⟩, rfl⟩ := guarded_eq_some hs
  by_cases hack : (s.d.write fmt c.env c.data).1 = none
  · simp only [if_pos hack]
    cases ho : s.d.opened with
    | true =>
      obtain ⟨ts, hts, hsound⟩ := h.write_of_opened hfresh ho hack
      rw [hts]
      exact hsound
    | false => exact absurd (h.unheard ho hack) hc
  · simp only [if_neg hack]
    exact h.write hfresh

omit [LinearOrder Id] in
/-- After `Close` the shards hold what they were to hold. -/
theorem Sound.durable (hfmt : fmt.Productive) (h : Sound fmt s.d s.acked) : Durable fmt s := by
  intro e he
  obtain ⟨sh, hsh, hstored⟩ := h.flush.stored e he
  rw [content_flush h.ok] at hstored
  obtain ⟨es, hes, hmem⟩ := hstored
  exact ⟨sh, hsh, hfmt.mem_decodeAll hes hmem⟩

/-- A new writer has nothing to keep. -/
theorem Sound.new {dir : Dir Id} {max shards : ℤ} (hid : shardName U id ∉ dir.shards.map Shard.name)
    (hd : newDirectoryWriter U dir max shards (some id) true = .ok d) : Sound fmt d [] := by
  have hnew : (⟨shardName U id, []⟩ : Shard) ∈ d.dir.all := by
    cases hd
    rw [Dir.all, Dir.create_shards (by exact hid)]
    simp
  cases hd
  refine ⟨List.mem_map.2 ⟨_, hnew, rfl⟩, fun _ ↦ rfl, fun h ↦ absurd h.symm Bool.false_ne_true,
    fun _ ↦ ⟨_, hnew, rfl, [], ?_⟩, fun _ he ↦ absurd he List.not_mem_nil⟩
  rw [content_of_buf_nil rfl]
  rfl

/-- **Acknowledged writes are durable as long as no write is unheard.** In every run of writes whose
rotations may fail in any way, but in which no write goes into the buffer of a closed file and
rotates, every entry whose `Write` returned nil is in a shard after `Close`. -/
theorem durable_of_runWhile (hfmt : fmt.Productive) {dir : Dir Id} {max shards : ℤ}
    {cs : List (WriteCall U)} (hid : shardName U id ∉ dir.shards.map Shard.name)
    (hd : newDirectoryWriter U dir max shards (some id) true = .ok d)
    (hrun : RunWhile (writeStep fmt) (fun s c ↦ ¬ Unheard fmt s.d c.env c.data) ⟨d, []⟩ cs s) :
    Durable fmt s :=
  (hrun.invariant (I := fun s ↦ Sound fmt s.d s.acked) (fun _ _ _ h hc hs ↦ h.step hc hs)
    (Sound.new hid hd)).durable hfmt

/-- Three writes, each with a rotation, the second of which fails. -/
def failedSecondRotation : List (WriteCall ulid128) :=
  [⟨[97], .ordinary ulid128 (ulidAt 0 2) (ulidAt 0 3)⟩,
    ⟨[98], { WriteEnv.ordinary ulid128 (ulidAt 0 4) (ulidAt 0 5) with create := false }⟩,
    ⟨[99], .ordinary ulid128 (ulidAt 0 6) (ulidAt 0 7)⟩]

/-- **An acknowledged write that is lost.** The first rotation fails to create a file; the next
write goes into the buffer of the file that was closed, its rotation succeeds, and `Write` returns
nil. `Close` then reports that its file is closed, as it does after every rotation. -/
theorem exists_acked_write_lost :
    newDirectoryWriter ulid128 Dir.empty 1 0 (some 1) true = .ok (eagerWriter 1 10) ∧
      ∃ s, Run (writeStep cborEntry) ⟨eagerWriter 1 10, []⟩
          [⟨[97], { WriteEnv.ordinary ulid128 2 3 with create := false }⟩,
            ⟨[98], .ordinary ulid128 4 5⟩] s ∧
        s.acked = [⟨4, [98]⟩] ∧ s.d.close.1 = some .closed ∧ ¬ Durable cborEntry s := by
  refine ⟨by decide +kernel, _, run_iff_foldlM.2 rfl, by decide +kernel, by decide +kernel,
    by decide +kernel⟩

/-! ### Writers that close -/

/-- A rotation has closed `cur`, whatever becomes of it. -/
theorem closed_rotate (env : RotateEnv U) (d : DirectoryWriter Id) :
    (d.rotate env).2.closed = true := by
  rcases rotate_cases env d with heq | ⟨id, heq⟩ | ⟨id, names, e, -, -, -, heq⟩
  all_goals
    rw [heq]
    rfl

/-- `cur` stays closed. -/
theorem closed_write (h : d.closed = true) : (d.write fmt env data).2.closed = true := by
  rcases write_cases fmt env d data with
    ⟨e, hw⟩ | ⟨ts, e, hw⟩ | ⟨ts, bs, -, -, hw | ⟨-, ⟨-, hw⟩ | ⟨-, hw⟩⟩⟩
  · rwa [hw]
  · rwa [hw]
  · rwa [hw]
  · rwa [hw]
  · rw [hw]
    exact closed_rotate _ _

/-- A run that leaves `cur` open found it open at every write, so none went unheard. -/
theorem heard_of_run {t : Acked Id} {cs : List (WriteCall U)} (h : Run (writeStep fmt) s cs t)
    (ht : t.d.closed = false) : s.d.closed = false ∧
      RunWhile (writeStep fmt) (fun s c ↦ ¬ Unheard fmt s.d c.env c.data) s cs t := by
  induction h with
  | nil s => exact ⟨ht, .nil s⟩
  | @cons s u t c cs _ head _ ih =>
    obtain ⟨hclosed, hrun⟩ := ih ht
    obtain ⟨-, rfl⟩ := guarded_eq_some head
    have hs : s.d.closed = false := by
      by_contra hne
      rw [Bool.not_eq_false] at hne
      exact Bool.false_ne_true (hclosed.symm.trans (closed_write hne))
    refine ⟨hs, .cons (fun hunheard ↦ ?_) head hrun⟩
    have hopened := hunheard.1
    rw [opened, hs] at hopened
    cases hopened

/-- **Acknowledged writes are durable.** After every run of writes, with ids, encodings, creations
and directory reads failing in any way, and a `Close` that returns nil, every entry whose `Write`
returned nil is in a shard. -/
theorem durable_of_close (hfmt : fmt.Productive) {dir : Dir Id} {max shards : ℤ} {id : Id}
    {s : Acked Id} {cs : List (WriteCall U)} (hid : shardName U id ∉ dir.shards.map Shard.name)
    (hd : newDirectoryWriter U dir max shards (some id) true = .ok d)
    (hrun : Run (writeStep fmt) ⟨d, []⟩ cs s) (hclose : s.d.close.1 = none) : Durable fmt s := by
  have hopen : s.d.closed = false := by
    by_contra hne
    rw [Bool.not_eq_false] at hne
    rw [close, if_pos hne] at hclose
    cases hclose
  exact durable_of_runWhile hfmt hid hd (heard_of_run hrun hopen).2

/-- Two writes that are acknowledged, and one between them for which no id is drawn, to a shard of
the default size. -/
theorem durable_of_close_three :
    ∃ s, Run (writeStep cborEntry) ⟨{ eagerWriter 1 10 with max := defaultMax }, []⟩
        [⟨[97], .ordinary ulid128 2 3⟩,
          ⟨[98], { WriteEnv.ordinary ulid128 4 5 with ts := none }⟩,
          ⟨[99], .ordinary ulid128 6 7⟩] s ∧
      s.acked = [⟨2, [97]⟩, ⟨6, [99]⟩] ∧ s.d.close.1 = none ∧ Durable cborEntry s := by
  have hd : newDirectoryWriter ulid128 Dir.empty 0 0 (some 1) true =
      .ok { eagerWriter 1 10 with max := defaultMax } := by
    decide +kernel
  obtain ⟨s, hrun, hacked, hclose⟩ : ∃ s, Run (writeStep cborEntry)
      ⟨{ eagerWriter 1 10 with max := defaultMax }, []⟩
        [⟨[97], .ordinary ulid128 2 3⟩,
          ⟨[98], { WriteEnv.ordinary ulid128 4 5 with ts := none }⟩,
          ⟨[99], .ordinary ulid128 6 7⟩] s ∧
      s.acked = [⟨2, [97]⟩, ⟨6, [99]⟩] ∧ s.d.close.1 = none :=
    ⟨_, run_iff_foldlM.2 rfl, by decide +kernel, by decide +kernel⟩
  exact ⟨s, hrun, hacked, hclose, durable_of_close cborEntry_productive (by decide) hd hrun hclose⟩

end Sound

end Log
