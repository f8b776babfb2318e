import Isle.Foundation.Run
import Isle.Log.Reader

/-!
# The round trip of a log

Sessions of writers on one directory, one after the other, and a reader after the last.

The two halves meet at what the shards hold. A session adds to the directory the shards `shardsOf`
cuts its entries into: a shard is left when its size reaches the maximum, and the last one is left
as it is at the end of the session, **empty** if nothing was written after the last rotation
(`Session.shards_of_run`). A reader gets the first shard and those behind it up to an empty one
(`readShards`). So it gets everything exactly if nothing is written in a session after one that
ended with an empty shard, the very first shard excepted (`reads_written_iff`).
-/

namespace Log

/-! ### Cutting entries into shards -/

section Cutting

variable {α : Type*} (size : α → ℕ) (max : ℤ)

/-- The shards entries are cut into, the first of which has some already: a shard that reaches the
maximum is left. -/
def shardsOf (cur : List α) : List α → List (List α)
  | [] => [cur]
  | e :: es =>
    if max ≤ ((cur ++ [e]).map size).sum then (cur ++ [e]) :: shardsOf [] es
    else shardsOf (cur ++ [e]) es

/-- The last of these shards: what comes after the last time one is left. -/
def lastShard (cur : List α) : List α → List α
  | [] => cur
  | e :: es =>
    if max ≤ ((cur ++ [e]).map size).sum then lastShard [] es else lastShard (cur ++ [e]) es

variable {size max} {cur es : List α}

theorem flatten_shardsOf : (shardsOf size max cur es).flatten = cur ++ es := by
  induction es generalizing cur with
  | nil => simp [shardsOf]
  | cons e es ih =>
    rw [shardsOf]
    split_ifs
    · rw [List.flatten_cons, ih, List.nil_append, List.append_assoc]
      rfl
    · rw [ih, List.append_assoc]
      rfl

/-- Only the last shard may be empty. -/
theorem shardsOf_eq : ∃ cs, shardsOf size max cur es = cs ++ [lastShard size max cur es] ∧
    ∀ c ∈ cs, c ≠ [] := by
  induction es generalizing cur with
  | nil => exact ⟨[], rfl, nofun⟩
  | cons e es ih =>
    rw [shardsOf, lastShard]
    split_ifs
    · obtain ⟨cs, hcs, hne⟩ := @ih []
      refine ⟨(cur ++ [e]) :: cs, by rw [hcs]; rfl, fun c hc ↦ ?_⟩
      rcases List.mem_cons.1 hc with rfl | hc
      · simp
      · exact hne c hc
    · exact ih

end Cutting

/-! ### Gaps -/

section Gaps

variable {α β : Type*}

/-- Everything is read exactly if nothing comes after an empty shard that is not the first. -/
theorem readShards_eq_iff (f : α → β) (cs : List (List α)) :
    (readShards cs).map f = cs.flatten.map f ↔
      ∀ a b, cs = a ++ [] :: b → a ≠ [] → b.flatten = [] := by
  cases cs with
  | nil => simp [readShards]
  | cons c cs =>
    have hread : (readShards (c :: cs)).map f = (c :: cs).flatten.map f ↔
        (cs.dropWhile (!·.isEmpty)).flatten = [] := by
      -- what is not read is behind the first empty shard but that at the front
      have hsplit : (c :: cs).flatten =
          readShards (c :: cs) ++ (cs.dropWhile (!·.isEmpty)).flatten := by
        rw [readShards, List.append_assoc, ← List.flatten_append, List.takeWhile_append_dropWhile,
          List.flatten_cons]
      rw [hsplit, List.map_append, List.self_eq_append_right, List.map_eq_nil_iff]
    rw [hread]
    constructor
    · rintro h (- | ⟨c', a⟩) b hab ha
      · exact absurd rfl ha
      obtain ⟨-, hcs⟩ := List.cons_eq_cons.1 hab
      rw [hcs, List.append_eq, List.dropWhile_append] at h
      split_ifs at h
      · simpa using h
      · simp only [List.flatten_append, List.append_eq_nil_iff, List.flatten_cons,
          List.nil_append] at h
        exact h.2
    · intro h
      rcases hdrop : cs.dropWhile (!·.isEmpty) with - | ⟨x, b⟩
      · rw [hdrop]
        rfl
      have hx : x = [] := by
        have hhead := List.head_dropWhile_not (fun c : List α ↦ !c.isEmpty) (l := cs)
          (by simp [hdrop])
        simpa [hdrop] using hhead
      have hcs : cs = cs.takeWhile (!·.isEmpty) ++ [] :: b := by
        rw [← hx, ← hdrop, List.takeWhile_append_dropWhile]
      have hb := h (c :: cs.takeWhile (!·.isEmpty)) b (by rw [List.cons_append, ← hcs]) (by simp)
      rw [hdrop, hx, List.flatten_cons, hb, List.nil_append]

/-- An element of the lists of several members is in that of one of them. -/
private theorem flatMap_eq_append_cons {f : α → List β} {l : List α} {a b : List β} {x : β}
    (h : l.flatMap f = a ++ x :: b) :
    ∃ pre s post c d, l = pre ++ s :: post ∧ f s = c ++ x :: d ∧ a = pre.flatMap f ++ c ∧
      b = d ++ post.flatMap f := by
  induction l generalizing a with
  | nil => simp at h
  | cons s l ih =>
    rw [List.flatMap_cons] at h
    rcases List.append_eq_append_iff.1 h with ⟨a', rfl, hrest⟩ | ⟨c', hs, hrest⟩
    · obtain ⟨pre, t, post, c, d, rfl, ht, rfl, rfl⟩ := ih hrest
      exact ⟨s :: pre, t, post, c, d, rfl, ht, by simp, rfl⟩
    · rcases c' with - | ⟨y, d⟩
      · obtain ⟨pre, t, post, c, d, rfl, ht, hpre, rfl⟩ := ih (a := []) (by simpa using hrest.symm)
        refine ⟨s :: pre, t, post, c, d, rfl, ht, ?_, rfl⟩
        rw [List.flatMap_cons, List.append_assoc, ← hpre, hs, List.append_nil, List.append_nil]
      · obtain ⟨rfl, rfl⟩ := List.cons_eq_cons.1 hrest
        exact ⟨[], s, l, a, d, rfl, hs, by simp, rfl⟩

end Gaps

/-! ### Sessions -/

section Sessions

variable {Id : Type*} [LinearOrder Id] {U : Ulid Id} (fmt : Codec UInt8 (Entry Id))

/-- A session of a writer: its limits, the id of its first shard, and its calls. -/
structure Session (U : Ulid Id) where
  max : ℤ
  shards : ℤ
  id : Id
  calls : List (WriteCall U)

/-- A write that returns nil. -/
def writeOk (d : DirectoryWriter Id) (c : WriteCall U) : Option (DirectoryWriter Id) :=
  match d.write fmt c.env c.data with
  | (none, d) => some d
  | (some _, _) => none

/-- The entries of some calls. -/
def entriesOf (cs : List (WriteCall U)) : List (Entry Id) :=
  cs.filterMap fun c ↦ c.env.ts.map (Entry.mk · c.data)

/-- The bytes an entry takes. -/
def entrySize (e : Entry Id) : ℕ := ((fmt.encode e).getD []).length

namespace Session

/-- `NewDirectoryWriter`, writes that all return nil, and `Close`. -/
def run (dir : Dir Id) (s : Session U) : Option (Dir Id) := do
  let d ← (newDirectoryWriter U dir s.max s.shards (some s.id) true).toOption
  let d ← s.calls.foldlM (writeOk fmt) d
  some d.close.2.dir

/-- The limit the writer works with. -/
def limit (s : Session U) : ℤ := if s.max = 0 then defaultMax else s.max

/-- The entries of the shards of the session. -/
def cut (s : Session U) : List (List (Entry Id)) :=
  shardsOf (entrySize fmt) s.limit [] (entriesOf s.calls)

/-- The entries the last shard of the session is left with. -/
def left (s : Session U) : List (Entry Id) :=
  lastShard (entrySize fmt) s.limit [] (entriesOf s.calls)

end Session

/-- The strings written in some sessions. -/
def written (ss : List (Session U)) : List Bytes :=
  ss.flatMap fun s ↦ s.calls.map WriteCall.data

/-- A reader opened on the directory and read up to its first error returns these strings. -/
def ReadsBack (dir : Dir Id) (strings : List Bytes) : Prop :=
  ∃ r es, newDirectoryReader dir = some r ∧ Reads fmt dir r es ∧ es.map Entry.data = strings

/-- No session writes after one that left its last shard empty, unless that is the very first
shard. -/
def NoGap (ss : List (Session U)) : Prop :=
  ∀ pre s post, ss = pre ++ s :: post → s.left fmt = [] →
    (pre = [] ∧ s.calls = []) ∨ ∀ t ∈ post, t.calls = []

/-! ### What a session adds -/

variable {fmt} {d d' : DirectoryWriter Id} {c : WriteCall U} {ts id : Id} {bs : Bytes}

/-- What a write that returns nil does. -/
theorem writeOk_cases (h : writeOk fmt d c = some d') :
    ∃ ts bs, c.env.ts = some ts ∧ fmt.encode ⟨ts, c.data⟩ = some bs ∧
      (((d.taken ts bs).writer.sz : ℤ) < d.max ∧ d' = d.taken ts bs ∨
        d.max ≤ (d.taken ts bs).writer.sz ∧
          ∃ id names, d' = ((d.taken ts bs).release.attach U id).remove names) := by
  have hw : d.write fmt c.env c.data = (none, d') := by
    unfold writeOk at h
    rcases hw : d.write fmt c.env c.data with ⟨- | e, d₁⟩ <;> rw [hw] at h <;> cases h
    rfl
  obtain ⟨ts, bs, hts, hbs, -, ⟨hlt, hw'⟩ | ⟨hfull, hw'⟩⟩ :=
    DirectoryWriter.write_cases_of_ack (congrArg Prod.fst hw) <;> rw [hw] at hw'
  · exact ⟨ts, bs, hts, hbs, .inl ⟨hlt, congrArg Prod.snd hw'⟩⟩
  · refine ⟨ts, bs, hts, hbs, .inr ⟨hfull, ?_⟩⟩
    obtain ⟨id, -, -, ⟨-, hd'⟩ | ⟨-, names, -, hd'⟩⟩ := DirectoryWriter.rotate_eq_none hw'.symm
    · exact ⟨id, [], by rw [hd', DirectoryWriter.remove_nil]⟩
    · exact ⟨id, _, hd'⟩

/-- What is drawn and pruned only grows. -/
structure Grows (a b : Dir Id) : Prop where
  drawn : a.drawn <+: b.drawn
  pruned : b.pruned = [] → a.pruned = []

omit [LinearOrder Id] in
theorem Grows.refl (a : Dir Id) : Grows a a := ⟨List.prefix_rfl, fun h ↦ h⟩

omit [LinearOrder Id] in
theorem Grows.trans {a b c : Dir Id} (h : Grows a b) (h' : Grows b c) : Grows a c :=
  ⟨h.drawn.trans h'.drawn, fun hc ↦ h.pruned (h'.pruned hc)⟩

omit [LinearOrder Id] in
theorem grows_taken : Grows d.dir (d.taken ts bs).dir :=
  ⟨List.prefix_append _ _, fun h ↦ List.map_eq_nil_iff.1 h⟩

theorem grows_attach : Grows d.dir (d.release.attach U id).dir := by
  constructor
  · rw [DirectoryWriter.attach, Dir.create_drawn]
    exact List.prefix_append _ _
  · intro h
    rw [DirectoryWriter.attach, Dir.create_pruned] at h
    exact List.map_eq_nil_iff.1 h

theorem grows_writeOk (h : writeOk fmt d c = some d') : Grows d.dir d'.dir := by
  obtain ⟨ts, bs, -, -, ⟨-, rfl⟩ | ⟨-, id, names, rfl⟩⟩ := writeOk_cases h
  · exact grows_taken
  · refine (grows_taken.trans grows_attach).trans ⟨List.prefix_rfl, fun hp ↦ ?_⟩
    exact (List.append_eq_nil_iff.1 hp).1

theorem grows_calls {cs : List (WriteCall U)} (h : cs.foldlM (writeOk fmt) d = some d') :
    Grows d.dir d'.dir :=
  (run_iff_foldlM.2 h).invariant (I := fun t ↦ Grows d.dir t.dir)
    (fun _ _ _ hg _ hs ↦ hg.trans (grows_writeOk hs)) (Grows.refl _)

variable {dir dir' : Dir Id} {s : Session U} {ss : List (Session U)}

/-- What a session does, call by call. -/
theorem Session.run_cases (h : s.run fmt dir = some dir') :
    ∃ d d', newDirectoryWriter U dir s.max s.shards (some s.id) true = .ok d ∧
      s.calls.foldlM (writeOk fmt) d = some d' ∧ d'.release.dir = dir' := by
  rcases hd : newDirectoryWriter U dir s.max s.shards (some s.id) true with e | d
  · cases hd
  simp only [Session.run, hd, Option.bind_eq_bind, Option.bind_eq_some_iff, Option.some.injEq] at h
  obtain ⟨d₁, hd₁, d', hd', rfl⟩ := h
  cases hd₁
  exact ⟨d, d', rfl, hd', rfl⟩

theorem Session.grows (h : s.run fmt dir = some dir') : Grows dir dir' := by
  obtain ⟨d, d', hd, hcalls, rfl⟩ := Session.run_cases h
  have hnew : Grows dir d.dir := by
    cases hd
    constructor
    · rw [Dir.create_drawn]
      exact List.prefix_append _ _
    · rw [Dir.create_pruned]
      exact fun h ↦ h
  exact (hnew.trans (grows_calls hcalls)).trans ⟨List.prefix_rfl, fun h ↦ List.map_eq_nil_iff.1 h⟩

theorem grows_sessions (h : ss.foldlM (Session.run fmt) dir = some dir') : Grows dir dir' :=
  (run_iff_foldlM.2 h).invariant (I := Grows dir) (fun _ _ _ hg _ hs ↦ hg.trans (Session.grows hs))
    (Grows.refl _)

/-- The shards are named by ids that were drawn, in the order they were drawn in. -/
def Ordered (U : Ulid Id) (dir : Dir Id) : Prop :=
  ∃ ids : List Id, dir.shards.map Shard.name = ids.map (shardName U) ∧ ids.Sublist dir.drawn

theorem Ordered.append (h : Ordered U dir) (name : String) (out : Bytes) :
    Ordered U (dir.append name out) := by
  obtain ⟨ids, hnames, hsub⟩ := h
  exact ⟨ids, Dir.names_append.trans hnames, hsub⟩

/-- A new shard comes last. -/
theorem Ordered.create (h : Ordered U dir) (id : Id) :
    Ordered U ({ dir with drawn := dir.drawn ++ [id] }.create (shardName U id)) := by
  obtain ⟨ids, hnames, hsub⟩ := h
  by_cases hmem : shardName U id ∈ dir.shards.map Shard.name
  · refine ⟨ids, ?_, ?_⟩
    · rw [← hnames, Dir.create, if_pos (by exact hmem), List.map_map]
      refine List.map_congr_left fun sh _ ↦ ?_
      by_cases hsh : sh.name = shardName U id
      · simp [hsh]
      · simp [hsh]
    · rw [Dir.create_drawn]
      exact hsub.trans (List.sublist_append_left _ _)
  · refine ⟨ids ++ [id], ?_, ?_⟩
    · rw [Dir.create_shards (by exact hmem), List.map_append, hnames, List.map_append]
      rfl
    · rw [Dir.create_drawn]
      exact hsub.append (List.Sublist.refl _)

theorem Ordered.remove (h : Ordered U dir) (names : List String) :
    Ordered U (dir.remove names) := by
  obtain ⟨ids, hnames, hsub⟩ := h
  refine ⟨ids.filter fun id ↦ shardName U id ∉ names, ?_, List.filter_sublist.trans hsub⟩
  rw [Dir.names_remove, hnames, List.filter_map]
  rfl

/-- An id above those drawn names no shard. -/
theorem Ordered.fresh (h : Ordered U dir) (hinc : (dir.drawn ++ [id]).Pairwise (· < ·)) :
    shardName U id ∉ dir.shards.map Shard.name := by
  obtain ⟨ids, hnames, hsub⟩ := h
  rw [hnames]
  intro hmem
  obtain ⟨id', hid', heq⟩ := List.mem_map.1 hmem
  have hlt := (List.pairwise_append.1 hinc).2.2 id' (hsub.subset hid') id List.mem_cons_self
  exact hlt.ne (shardName_injective heq)

/-- The directory of a writer with nothing in its way: `init` is behind it, `last` is the shard it
writes to, and what that will hold are the entries `cur`. -/
structure Filling (fmt : Codec UInt8 (Entry Id)) (d : DirectoryWriter Id) (init : List Shard)
    (last : Shard) (cur : List (Entry Id)) : Prop where
  shards : d.dir.shards = init ++ [last]
  file : last.name = d.writer.file
  fresh : last.name ∉ init.map Shard.name
  cur_mem : d.cur ∈ d.dir.shards.map Shard.name
  opened : d.opened = true
  ok : d.writer.failed = false
  content : fmt.encodeAll cur = some (last.data ++ d.writer.buf)
  size : d.writer.sz = (cur.map (entrySize fmt)).sum

namespace Filling

variable {init : List Shard} {last : Shard} {cur : List (Entry Id)}

omit [LinearOrder Id] in
/-- Only the last shard takes bytes. -/
theorem map_extend (h : Filling fmt d init last cur) (out : Bytes) :
    d.dir.shards.map (Shard.extend d.writer.file out) =
      init ++ [⟨last.name, last.data ++ out⟩] := by
  have hinit : init.map (Shard.extend d.writer.file out) = init := by
    refine (List.map_congr_left fun sh hsh ↦ if_neg fun hname ↦ h.fresh ?_).trans (List.map_id _)
    rw [h.file, ← hname]
    exact List.mem_map_of_mem hsh
  rw [h.shards, List.map_append, hinit, List.map_cons, Shard.extend, if_pos h.file, List.map_nil]

omit [LinearOrder Id] in
/-- An entry is taken. -/
theorem taken (h : Filling fmt d init last cur) {e : Entry Id} (he : fmt.encode e = some bs)
    (ts : Id) : ∃ last', Filling fmt (d.taken ts bs) init last' (cur ++ [e]) := by
  obtain ⟨hok, hbuf⟩ := Writer.put_opened (p := bs) h.ok
  have hput : (d.draw ts).put bs = (d.draw ts).emit (d.writer.put true bs) := by
    rw [← h.opened]
    rfl
  refine ⟨⟨last.name, last.data ++ (d.writer.put true bs).2⟩, ?_⟩
  have hshards : (d.taken ts bs).dir.shards =
      init ++ [⟨last.name, last.data ++ (d.writer.put true bs).2⟩] := by
    rw [DirectoryWriter.taken, hput, ← h.map_extend, ← Writer.put_file]
    rfl
  have hwriter : (d.taken ts bs).writer =
      { (d.writer.put true bs).1 with sz := d.writer.sz + bs.length } := by
    rw [DirectoryWriter.taken, hput, ← Writer.put_sz]
    rfl
  refine ⟨hshards, ?_, h.fresh, ?_, ?_, ?_, ?_, ?_⟩
  · rw [hwriter]
    exact h.file.trans Writer.put_file.symm
  · have hcur := h.cur_mem
    rw [h.shards, List.map_append] at hcur
    rwa [hshards, List.map_append]
  · rw [← h.opened, DirectoryWriter.opened, DirectoryWriter.opened, hwriter]
    simp only [Writer.put_file]
    rfl
  · rw [hwriter]
    exact hok
  · rw [hwriter, List.append_assoc, hbuf, ← List.append_assoc]
    exact Codec.encodeAll_append h.content (Codec.encodeAll_singleton he)
  · rw [hwriter, List.map_append, List.sum_append, ← h.size, List.map_singleton,
      List.sum_singleton, entrySize, he]
    rfl

omit [LinearOrder Id] in
/-- Released, the last shard holds its entries. -/
theorem release (h : Filling fmt d init last cur) :
    d.release.dir.shards = init ++ [⟨last.name, last.data ++ d.writer.buf⟩] := by
  have hflush : d.flush = d.emit ({ d.writer with buf := [] }, d.writer.buf) := by
    rw [DirectoryWriter.flush, h.opened, Writer.flush_opened h.ok]
  rw [DirectoryWriter.release, hflush]
  exact h.map_extend _

/-- A new shard behind those there are. -/
theorem attach (h : Filling fmt d init last cur)
    (hid : shardName U id ∉ d.dir.shards.map Shard.name) :
    Filling fmt (d.release.attach U id) (init ++ [⟨last.name, last.data ++ d.writer.buf⟩])
      ⟨shardName U id, []⟩ [] := by
  have hnames : (init ++ [(⟨last.name, last.data ++ d.writer.buf⟩ : Shard)]).map Shard.name =
      d.dir.shards.map Shard.name := by
    rw [h.shards, List.map_append, List.map_append]
    rfl
  have hshards : (d.release.attach U id).dir.shards =
      init ++ [⟨last.name, last.data ++ d.writer.buf⟩] ++ [⟨shardName U id, []⟩] := by
    rw [← h.release, DirectoryWriter.attach, Dir.create_shards]
    · rfl
    · rw [← hnames, ← h.release] at hid
      exact hid
  refine ⟨hshards, rfl, by rwa [hnames], ?_, ?_, rfl, rfl, rfl⟩
  · rw [hshards, List.map_append, hnames]
    exact List.mem_append_left _ h.cur_mem
  · have hcur : shardName U id ≠ d.cur := fun hcur ↦ hid (hcur ▸ h.cur_mem)
    have hopened : (d.release.attach U id).opened = !(true && shardName U id == d.cur) := rfl
    simpa [hopened] using hcur

end Filling

theorem Ordered.mono (h : Ordered U dir) (hshards : dir'.shards = dir.shards)
    (hdrawn : dir.drawn <+: dir'.drawn) : Ordered U dir' := by
  obtain ⟨ids, hnames, hsub⟩ := h
  exact ⟨ids, by rw [hshards, hnames], hsub.trans hdrawn.sublist⟩

theorem Ordered.taken (h : Ordered U d.dir) : Ordered U (d.taken ts bs).dir :=
  (h.append (d.writer.put d.opened bs).1.file (d.writer.put d.opened bs).2).mono rfl
    (List.prefix_append _ _)

theorem Ordered.attach (h : Ordered U d.dir) : Ordered U (d.release.attach U id).dir := by
  have hrel : Ordered U d.release.dir := h.append _ _
  exact hrel.create id

theorem Ordered.writeOk (h : Ordered U d.dir) (hw : writeOk fmt d c = some d') :
    Ordered U d'.dir ∧ d'.max = d.max := by
  obtain ⟨ts, bs, -, -, ⟨-, rfl⟩ | ⟨-, id, names, rfl⟩⟩ := writeOk_cases hw
  · exact ⟨h.taken, rfl⟩
  · exact ⟨h.taken.attach.remove names, rfl⟩

omit [LinearOrder Id] in
/-- Where nothing was pruned, nothing was removed. -/
private theorem remove_eq_self {names : List String} (h : (d.remove names).dir.pruned = []) :
    d.remove names = d := by
  obtain ⟨-, hnone⟩ := List.append_eq_nil_iff.1 h
  have hall : d.dir.shards.filter (fun sh ↦ sh.name ∉ names) = d.dir.shards :=
    List.filter_eq_self.2 fun sh hsh ↦ by simpa using List.filter_eq_nil_iff.1 hnone sh hsh
  rw [DirectoryWriter.remove, Dir.remove, hall, hnone, List.append_nil]

/-- **A write that returns nil and prunes nothing**: the entry goes into the last shard, and if that
is then full it is left for a new one. -/
theorem Filling.writeOk {init : List Shard} {last : Shard} {cur : List (Entry Id)}
    (h : Filling fmt d init last cur) (hord : Ordered U d.dir) (hw : writeOk fmt d c = some d')
    (hinc : d'.dir.drawn.Pairwise (· < ·)) (hpruned : d'.dir.pruned = []) :
    ∃ ts, c.env.ts = some ts ∧
      (¬ d.max ≤ ((cur ++ [Entry.mk ts c.data]).map (entrySize fmt)).sum ∧
          (∃ last', Filling fmt d' init last' (cur ++ [Entry.mk ts c.data])) ∨
        d.max ≤ ((cur ++ [Entry.mk ts c.data]).map (entrySize fmt)).sum ∧
          ∃ sh last', fmt.encodeAll (cur ++ [Entry.mk ts c.data]) = some sh.data ∧
            Filling fmt d' (init ++ [sh]) last' []) := by
  obtain ⟨ts, bs, hts, hbs, hcase⟩ := writeOk_cases hw
  obtain ⟨last', hfill⟩ := h.taken hbs ts
  refine ⟨ts, hts, ?_⟩
  rw [← hfill.size]
  rcases hcase with ⟨hlt, rfl⟩ | ⟨hfull, id, names, rfl⟩
  · exact .inl ⟨not_le.2 hlt, last', hfill⟩
  · rw [remove_eq_self hpruned] at hinc ⊢
    have hid : shardName U id ∉ (d.taken ts bs).dir.shards.map Shard.name := by
      refine hord.taken.fresh ?_
      rwa [DirectoryWriter.attach, Dir.create_drawn] at hinc
    exact .inr ⟨hfull, _, _, hfill.content, hfill.attach hid⟩

/-- **The shards of a session.** From a writer with some entries in its last shard, calls that all
return nil and prune nothing cut their entries into shards. -/
theorem Filling.calls {cs : List (WriteCall U)} {init : List Shard} {last : Shard}
    {cur : List (Entry Id)} (h : Filling fmt d init last cur) (hord : Ordered U d.dir)
    (hcs : cs.foldlM (Log.writeOk fmt) d = some d') (hinc : d'.dir.drawn.Pairwise (· < ·))
    (hpruned : d'.dir.pruned = []) :
    Ordered U d'.dir ∧ (entriesOf cs).map Entry.data = cs.map WriteCall.data ∧
      ∃ tail, d'.release.dir.shards = init ++ tail ∧
        Holding fmt tail (shardsOf (entrySize fmt) d.max cur (entriesOf cs)) := by
  induction cs generalizing d init last cur with
  | nil =>
    cases hcs
    exact ⟨hord, rfl, _, h.release, .cons h.content .nil⟩
  | cons c cs ih =>
    obtain ⟨d₁, hd₁, hrest⟩ := Option.bind_eq_some_iff.1 hcs
    have hgrows := grows_calls hrest
    obtain ⟨hord₁, hmax⟩ := hord.writeOk hd₁
    obtain ⟨ts, hts, hcase⟩ := h.writeOk hord hd₁ (hinc.sublist hgrows.drawn.sublist)
      (hgrows.pruned hpruned)
    have hentries : entriesOf (c :: cs) = ⟨ts, c.data⟩ :: entriesOf cs := by
      rw [entriesOf, List.filterMap_cons, hts]
      rfl
    rw [hentries, shardsOf]
    rcases hcase with ⟨hlt, last', hfill⟩ | ⟨hfull, sh, last', hsh, hfill⟩
    · obtain ⟨hord', hdata, tail, htail, hhold⟩ := ih hfill hord₁ hrest
      rw [if_neg hlt, ← hmax]
      exact ⟨hord', by rw [List.map_cons, hdata]; rfl, tail, htail, hhold⟩
    · obtain ⟨hord', hdata, tail, htail, hhold⟩ := ih hfill hord₁ hrest
      rw [if_pos hfull, ← hmax]
      refine ⟨hord', by rw [List.map_cons, hdata]; rfl, sh :: tail, ?_, .cons hsh hhold⟩
      rw [htail, List.append_assoc]
      rfl

/-- A session leaves its entries in shards behind those there were. -/
theorem Session.shards_of_run (hord : Ordered U dir) (h : s.run fmt dir = some dir')
    (hinc : dir'.drawn.Pairwise (· < ·)) (hpruned : dir'.pruned = []) :
    Ordered U dir' ∧ (entriesOf s.calls).map Entry.data = s.calls.map WriteCall.data ∧
      ∃ tail, dir'.shards = dir.shards ++ tail ∧ Holding fmt tail (s.cut fmt) := by
  obtain ⟨d, d', hd, hcalls, rfl⟩ := Session.run_cases h
  have hpruned' : d'.dir.pruned = [] := List.map_eq_nil_iff.1 hpruned
  have hinc₀ : (dir.drawn ++ [s.id]).Pairwise (· < ·) := by
    refine hinc.sublist (List.Sublist.trans ?_ (grows_calls hcalls).drawn.sublist)
    cases hd
    rw [Dir.create_drawn]
  have hord₀ : Ordered U d.dir := by
    cases hd
    exact hord.create s.id
  have hmax : d.max = s.limit := by
    cases hd
    rfl
  have hfill : Filling fmt d dir.shards ⟨shardName U s.id, []⟩ [] := by
    have hfresh := hord.fresh hinc₀
    cases hd
    have hshards := Dir.create_shards (d := { dir with drawn := dir.drawn ++ [s.id] }) hfresh
    refine ⟨hshards, rfl, hfresh, ?_, rfl, rfl, rfl, rfl⟩
    rw [hshards]
    simp
  obtain ⟨hord', hdata, tail, htail, hhold⟩ := hfill.calls hord₀ hcalls hinc hpruned'
  rw [hmax] at hhold
  exact ⟨hord'.append _ _, hdata, tail, htail, hhold⟩

omit [LinearOrder Id] in
private theorem eq_of_append_singleton_eq {cs c d : List (List (Entry Id))} {x : List (Entry Id)}
    (h : cs ++ [x] = c ++ [] :: d) (hcs : ∀ y ∈ cs, y ≠ []) : cs = c ∧ d = [] ∧ x = [] := by
  rcases List.eq_nil_or_concat d with rfl | ⟨d', y, rfl⟩
  · obtain ⟨rfl, hx⟩ := List.append_inj' h rfl
    exact ⟨rfl, rfl, (List.cons_eq_cons.1 hx).1⟩
  · rw [List.concat_eq_append, ← List.cons_append, ← List.append_assoc] at h
    obtain ⟨rfl, -⟩ := List.append_inj' h rfl
    exact absurd rfl (hcs [] (by simp))

theorem Session.cut_eq (fmt : Codec UInt8 (Entry Id)) (s : Session U) :
    ∃ cs, s.cut fmt = cs ++ [s.left fmt] ∧ ∀ c ∈ cs, c ≠ [] :=
  shardsOf_eq

/-- **The shards of several sessions.** -/
theorem shards_of_sessions (hord : Ordered U dir) (h : ss.foldlM (Session.run fmt) dir = some dir')
    (hinc : dir'.drawn.Pairwise (· < ·)) (hpruned : dir'.pruned = []) :
    Ordered U dir' ∧
      (∀ s ∈ ss, (entriesOf s.calls).map Entry.data = s.calls.map WriteCall.data) ∧
      ∃ tail, dir'.shards = dir.shards ++ tail ∧
        Holding fmt tail (ss.flatMap (Session.cut fmt)) := by
  induction ss generalizing dir with
  | nil =>
    cases h
    exact ⟨hord, nofun, [], (List.append_nil _).symm, .nil⟩
  | cons s ss ih =>
    obtain ⟨dir₁, hrun, hrest⟩ := Option.bind_eq_some_iff.1 h
    have hgrows := grows_sessions hrest
    obtain ⟨hord₁, hdata, tail, htail, hhold⟩ := Session.shards_of_run hord hrun
      (hinc.sublist hgrows.drawn.sublist) (hgrows.pruned hpruned)
    obtain ⟨hord', hdata', tail', htail', hhold'⟩ := ih hord₁ hrest
    refine ⟨hord', List.forall_mem_cons.2 ⟨hdata, hdata'⟩, tail ++ tail', ?_, ?_⟩
    · rw [htail', htail, List.append_assoc]
    · rw [List.flatMap_cons]
      exact List.rel_append hhold hhold'

/-! ### The round trip -/

/-- The shards of a session hold what it writes. -/
theorem Session.flatten_cut (s : Session U) : (s.cut fmt).flatten = entriesOf s.calls := by
  rw [Session.cut, flatten_shardsOf, List.nil_append]

theorem Session.cut_ne_nil (s : Session U) : s.cut fmt ≠ [] := by
  obtain ⟨cs, hcs, -⟩ := s.cut_eq fmt
  rw [hcs]
  exact List.append_ne_nil_of_right_ne_nil cs (List.cons_ne_nil _ _)

/-- The shards of sessions are empty exactly if the sessions write nothing. -/
theorem flatten_cuts_eq_nil_iff (hnil : ∀ s ∈ ss, entriesOf s.calls = [] ↔ s.calls = []) :
    (ss.flatMap (Session.cut fmt)).flatten = [] ↔ ∀ s ∈ ss, s.calls = [] := by
  rw [List.flatten_eq_nil_iff]
  constructor
  · intro h s hs
    have hcut : (s.cut fmt).flatten = [] := List.flatten_eq_nil_iff.2 fun c hc ↦
      h c (List.mem_flatMap.2 ⟨s, hs, hc⟩)
    rw [s.flatten_cut] at hcut
    exact (hnil s hs).1 hcut
  · intro h c hc
    obtain ⟨s, hs, hc⟩ := List.mem_flatMap.1 hc
    have hcut : (s.cut fmt).flatten = [] := s.flatten_cut.trans ((hnil s hs).2 (h s hs))
    exact List.flatten_eq_nil_iff.1 hcut c hc

/-- Every session leaves a shard. -/
theorem eq_nil_of_cuts_eq_nil {pre : List (Session U)} (h : pre.flatMap (Session.cut fmt) = []) :
    pre = [] :=
  List.eq_nil_iff_forall_not_mem.2 fun t ht ↦ t.cut_ne_nil (List.flatMap_eq_nil_iff.1 h t ht)

/-- Nothing comes after an empty shard exactly if no session writes after one that left its last
shard empty. -/
theorem noGap_iff
    (hdata : ∀ s ∈ ss, (entriesOf s.calls).map Entry.data = s.calls.map WriteCall.data) :
    NoGap fmt ss ↔
      ∀ a b, ss.flatMap (Session.cut fmt) = a ++ [] :: b → a ≠ [] → b.flatten = [] := by
  have hnil : ∀ s ∈ ss, entriesOf s.calls = [] ↔ s.calls = [] := fun s hs ↦ by
    rw [← List.map_eq_nil_iff, hdata s hs, List.map_eq_nil_iff]
  have hflat : ∀ {pre : List (Session U)} {s} {post}, ss = pre ++ s :: post →
      ((post.flatMap (Session.cut fmt)).flatten = [] ↔ ∀ t ∈ post, t.calls = []) := by
    intro pre s post hss
    refine flatten_cuts_eq_nil_iff fun t ht ↦ hnil t ?_
    rw [hss]
    exact List.mem_append_right _ (List.mem_cons_of_mem _ ht)
  constructor
  · intro hgap a b heq ha
    obtain ⟨pre, s, post, c, d, hss, hcut, rfl, rfl⟩ := flatMap_eq_append_cons heq
    obtain ⟨cs, hcs, hne⟩ := s.cut_eq fmt
    obtain ⟨rfl, rfl, hleft⟩ := eq_of_append_singleton_eq (hcs.symm.trans hcut) hne
    -- the empty shard is the last of its session
    rcases hgap pre s post hss hleft with ⟨rfl, hcalls⟩ | hpost
    · have hempty : s.cut fmt = [[]] := by
        rw [Session.cut, hcalls]
        rfl
      rw [hempty, hleft, ← List.nil_append [[]]] at hcs
      exact absurd (List.append_cancel_right hcs).symm (by simpa using ha)
    · exact (hflat hss).2 hpost
  · intro h pre s post hss hleft
    obtain ⟨cs, hcs, -⟩ := s.cut_eq fmt
    rw [hleft] at hcs
    have hsplit : ss.flatMap (Session.cut fmt) =
        (pre.flatMap (Session.cut fmt) ++ cs) ++ [] :: post.flatMap (Session.cut fmt) := by
      rw [hss, List.flatMap_append, List.flatMap_cons, hcs]
      simp
    by_cases hfirst : pre.flatMap (Session.cut fmt) ++ cs = []
    · obtain ⟨hpre, rfl⟩ := List.append_eq_nil_iff.1 hfirst
      have hempty : (s.cut fmt).flatten = [] := by
        rw [hcs]
        rfl
      rw [s.flatten_cut] at hempty
      exact .inl ⟨eq_nil_of_cuts_eq_nil hpre, (hnil s (by rw [hss]; simp)).1 hempty⟩
    · exact .inr ((hflat hss).1 (h _ _ hsplit hfirst))

/-- **What is read back** after sessions in which every write returned nil and nothing was pruned,
with ids that increase. -/
theorem readsBack_iff (hfmt : fmt.Productive)
    (hrun : ss.foldlM (Session.run fmt) Dir.empty = some dir) (hinc : dir.drawn.Pairwise (· < ·))
    (hpruned : dir.pruned = []) (strings : List Bytes) :
    ReadsBack fmt dir strings ↔
      ss ≠ [] ∧ (readShards (ss.flatMap (Session.cut fmt))).map Entry.data = strings := by
  have hempty : Ordered U (Dir.empty : Dir Id) := ⟨[], rfl, List.Sublist.refl _⟩
  obtain ⟨⟨ids, hnames, hsub⟩, -, tail, htail, hhold⟩ :=
    shards_of_sessions hempty hrun hinc hpruned
  obtain rfl : tail = dir.shards := htail.symm
  have hids : ids.Pairwise (· < ·) := hinc.sublist hsub
  have hnamed : Named U dir ids := ⟨hnames, hids.imp fun h ↦ h.ne⟩
  have hsorted : dir.readDir = dir.shards.map Shard.name :=
    (hnamed.readDir_eq hids).trans hnames.symm
  by_cases hss : ss = []
  · -- there is no directory to open
    rw [hss] at hhold
    have hshards : dir.shards = [] := List.forall₂_nil_right_iff.1 hhold
    refine iff_of_false ?_ fun h ↦ h.1 hss
    rintro ⟨r, -, hr, -⟩
    rw [newDirectoryReader, openNext, hsorted, hshards] at hr
    cases hr
  · have hne : dir.shards ≠ [] := fun hnil ↦ by
      rw [hnil] at hhold
      have hcut := List.forall₂_nil_left_iff.1 hhold
      obtain ⟨s, ss', rfl⟩ := List.exists_cons_of_ne_nil hss
      obtain ⟨cs, hcs, -⟩ := s.cut_eq fmt
      simp [hcs] at hcut
    have hnd : (dir.shards.map Shard.name).Nodup := by
      rw [hnames]
      exact hnamed.nodup.map shardName_injective
    obtain ⟨r, hr, hreads⟩ := reads_newDirectoryReader hfmt hsorted hnd hne hhold
    constructor
    · rintro ⟨r', es, hr', hes, heq⟩
      obtain rfl : r = r' := Option.some.inj (hr.symm.trans hr')
      exact ⟨hss, by rwa [hreads.unique hes]⟩
    · exact fun h ↦ ⟨r, _, hr, hreads, h.2⟩

/-- **The round trip, exactly.** After sessions in which every write returned nil and nothing was
pruned, with ids that increase, a reader gets back exactly the strings written, in their order, if
and only if there was a session and no session wrote after one that left its last shard empty, the
very first shard excepted. -/
theorem reads_written_iff (hfmt : fmt.Productive) {ss : List (Session U)} {dir : Dir Id}
    (hrun : ss.foldlM (Session.run fmt) Dir.empty = some dir) (hinc : dir.drawn.Pairwise (· < ·))
    (hpruned : dir.pruned = []) : ReadsBack fmt dir (written ss) ↔ ss ≠ [] ∧ NoGap fmt ss := by
  have hempty : Ordered U (Dir.empty : Dir Id) := ⟨[], rfl, List.Sublist.refl _⟩
  obtain ⟨-, hdata, -⟩ := shards_of_sessions hempty hrun hinc hpruned
  have hwritten : (ss.flatMap (Session.cut fmt)).flatten.map Entry.data = written ss := by
    rw [written, ← List.flatMap_id, List.flatMap_assoc, List.map_flatMap]
    refine List.flatMap_congr fun s hs ↦ ?_
    rw [List.flatMap_id, Session.cut, flatten_shardsOf, List.nil_append, hdata s hs]
  rw [readsBack_iff hfmt hrun hinc hpruned, ← hwritten, readShards_eq_iff, noGap_iff hdata]

end Sessions

/-- A session that writes one string for each id given. -/
def plainSession (id : Fin (2 ^ 128)) (writes : List (Fin (2 ^ 128) × Bytes)) :
    Session ulid128 where
  max := 0
  shards := 0
  id := id
  calls := writes.map fun w ↦ ⟨w.2, .ordinary ulid128 w.1 w.1⟩

/-- Two sessions that write. -/
def twoSessions : List (Session ulid128) :=
  [plainSession (ulidAt 0 1) [(ulidAt 0 2, [97])], plainSession (ulidAt 0 3) [(ulidAt 0 4, [98])]]

theorem readsBack_twoSessions :
    ∃ dir, twoSessions.foldlM (Session.run cborEntry) Dir.empty = some dir ∧
      ReadsBack cborEntry dir [[97], [98]] := by
  obtain ⟨dir, hrun, hinc, hpruned⟩ :
      ∃ dir, twoSessions.foldlM (Session.run cborEntry) Dir.empty = some dir ∧
        dir.drawn.Pairwise (· < ·) ∧ dir.pruned = [] :=
    ⟨_, rfl, by decide +kernel, by decide +kernel⟩
  have hleft : ∀ s ∈ twoSessions, s.left cborEntry ≠ [] :=
    List.forall_mem_cons.2 ⟨by decide +kernel, List.forall_mem_singleton.2 (by decide +kernel)⟩
  refine ⟨dir, hrun, (reads_written_iff cborEntry_productive hrun hinc hpruned).2
    ⟨List.cons_ne_nil _ _, fun pre s post hss hnil ↦ absurd hnil (hleft s ?_)⟩⟩
  rw [hss]
  exact List.mem_append_right _ List.mem_cons_self

/-- Three sessions, the second of which writes nothing. -/
def emptySecondSession : List (Session ulid128) :=
  [plainSession (ulidAt 0 1) [(ulidAt 0 2, [97])], plainSession (ulidAt 0 3) [],
    plainSession (ulidAt 0 4) [(ulidAt 0 5, [98])]]

/-- **A session that writes nothing hides those after it.** Only the string of the first session is
read back. -/
theorem not_readsBack_emptySecondSession :
    ∃ dir, emptySecondSession.foldlM (Session.run cborEntry) Dir.empty = some dir ∧
      dir.drawn.Pairwise (· < ·) ∧ dir.pruned = [] ∧
      ReadsBack cborEntry dir [[97]] ∧ ¬ ReadsBack cborEntry dir (written emptySecondSession) := by
  obtain ⟨dir, hrun, hinc, hpruned⟩ :
      ∃ dir, emptySecondSession.foldlM (Session.run cborEntry) Dir.empty = some dir ∧
        dir.drawn.Pairwise (· < ·) ∧ dir.pruned = [] :=
    ⟨_, rfl, by decide +kernel, by decide +kernel⟩
  have hiff := readsBack_iff cborEntry_productive hrun hinc hpruned
  refine ⟨dir, hrun, hinc, hpruned, ?_, fun h ↦ ?_⟩
  · exact (hiff _).2 ⟨List.cons_ne_nil _ _, by decide +kernel⟩
  · exact absurd ((hiff _).1 h).2 (by decide +kernel)

end Log
