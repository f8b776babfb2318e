import Isle.Foundation.Run
import Isle.Log.Directory

/-!
# The order of a log

Sessions of writers on one directory, with calls that may fail: a rotation for which no id is drawn
or no file created, a write to a file that was closed, a session that ends without `Close`.

The shards there have been, in the order of their creation and each with the entries given to it,
are a **chronicle** of the directory. Whatever fails, a shard holds an initial part of what its
entries are written as, and the ids of the chronicle, of shards and entries in their order, were
drawn in that order (`Site.Kept`). So with ids that increase, the names and the entries on the disk
are ordered all together: a shard's name comes after the entries of the shards before it and before
its own (`entries_ordered`).
-/

namespace Log

/-! ### Sessions -/

/-- A log directory, and the writer on it if there is one. -/
inductive Site (Id : Type*)
  | idle (dir : Dir Id)
  | writing (d : DirectoryWriter Id)

/-- The directory, with a writer on it or without. -/
def Site.dir {Id : Type*} : Site Id → Dir Id
  | .idle dir => dir
  | .writing d => d.dir

section Machine

variable {Id : Type*} [LinearOrder Id] {U : Ulid Id} (fmt : Codec UInt8 (Entry Id))

/-- A call of a session. -/
inductive SiteCall (U : Ulid Id)
  /-- `NewDirectoryWriter`, in a session that follows whatever came before. -/
  | new (max shards : ℤ) (id : Option Id) (create : Bool)
  | write (c : WriteCall U)
  | close

/-- One call. A panic ends the session. -/
def siteStep (s : Site Id) : SiteCall U → Option (Site Id)
  | .new max shards id create =>
    match newDirectoryWriter U s.dir max shards id create with
    | .ok d => some (.writing d)
    | .error _ => some (.idle { s.dir with drawn := s.dir.drawn ++ id.toList })
  | .write c =>
    match s with
    | .idle _ => none
    | .writing d =>
      let r := d.write fmt c.env c.data
      some (if r.1 = some .panic then .idle r.2.dir else .writing r.2)
  | .close =>
    match s with
    | .idle _ => none
    | .writing d => some (.writing d.close.2)

/-- The entry of a call that had an id for it. -/
def SiteCall.entries : SiteCall U → List (Entry Id)
  | .write c => (c.env.ts.map (Entry.mk · c.data)).toList
  | .new _ _ _ _ | .close => []

/-- The ids drawn so far and in the call increase: the clock does not go back. -/
def Rises (s : Site Id) (a : SiteCall U) : Prop :=
  ∀ s' ∈ siteStep fmt s a, s'.dir.drawn.Pairwise (· < ·)

instance (s : Site Id) (a : SiteCall U) : Decidable (Rises fmt s a) :=
  inferInstanceAs (Decidable (∀ s' ∈ siteStep fmt s a, _))

end Machine

/-! ### The buffered writer, failing or not -/

/-- What a write through the buffer comes to: what was not refused is in the file or behind it in
the buffer, and with an error nothing reaches the file. -/
structure Writer.Puts (w : Writer) (p : Bytes) (r : Writer × Bytes) : Prop where
  file : r.1.file = w.file
  ok : r.1.failed = false → w.failed = false ∧ r.2 ++ r.1.buf = w.buf ++ p
  error : r.1.failed = true → r.2 = []

/-- `put` appends to the file and the buffer together. -/
theorem Writer.puts_put (opened : Bool) (w : Writer) (p : Bytes) :
    w.Puts p (w.put opened p) := by
  refine ⟨Writer.put_file, fun hok ↦ ?_, fun herr ↦ ?_⟩
  · have hw : w.failed = false := by
      by_contra hfailed
      rw [Bool.not_eq_false] at hfailed
      rw [Writer.put, if_pos hfailed, hfailed] at hok
      cases hok
    refine ⟨hw, ?_⟩
    rcases opened with - | -
    · obtain ⟨-, hfit⟩ := Writer.fits_of_put_closed hok
      rw [Writer.put, if_neg (by rw [hw]; exact Bool.false_ne_true), if_pos hfit, List.nil_append]
    · exact (Writer.put_opened hw).2
  · rcases opened with - | -
    · exact Writer.put_closed
    · rcases hw : w.failed with - | -
      · rw [(Writer.put_opened hw).1] at herr
        cases herr
      · rw [Writer.put, if_pos hw]

theorem Writer.puts_flush (opened : Bool) (w : Writer) : w.Puts [] (w.flush opened) := by
  rcases hw : w.failed with - | -
  · rcases opened with - | -
    · refine ⟨Writer.flush_file, fun hok ↦ ⟨hw, ?_⟩, fun _ ↦ Writer.flush_closed⟩
      have hbuf : w.buf = [] := by
        by_contra hne
        rw [Writer.flush, if_neg (by simp [hw, hne])] at hok
        cases hok
      rw [Writer.flush, if_pos (.inr hbuf), List.nil_append, List.append_nil]
    · rw [Writer.flush_opened hw]
      exact ⟨rfl, fun _ ↦ ⟨hw, rfl⟩, fun herr ↦ absurd (hw.symm.trans herr) Bool.false_ne_true⟩
  · rw [Writer.flush, if_pos (.inl hw)]
    exact ⟨rfl, fun hok ↦ absurd (hok.symm.trans hw) Bool.false_ne_true, fun _ ↦ rfl⟩

/-! ### The chronicle of a directory -/

section Chronicle

variable {Id : Type*}

/-- The shards there have been, each with its id and the entries given to it. -/
abbrev Segments (Id : Type*) := List (Id × List (Entry Id))

/-- The ids of the shards and of their entries, in their order. -/
def stamps (segs : Segments Id) : List Id := segs.flatMap fun s ↦ s.1 :: s.2.map Entry.timestamp

theorem stamps_concat (segs : Segments Id) (id : Id) (es : List (Entry Id)) :
    stamps (segs ++ [(id, es)]) = stamps segs ++ id :: es.map Entry.timestamp := by
  rw [stamps, List.flatMap_append, List.flatMap_singleton, stamps]

theorem ids_sublist_stamps (segs : Segments Id) : (segs.map Prod.fst).Sublist (stamps segs) := by
  induction segs with
  | nil => exact .slnil
  | cons s segs ih =>
    rw [stamps, List.flatMap_cons, List.map_cons, List.cons_append]
    exact (ih.trans (List.sublist_append_right _ _)).cons_cons s.1

variable [LinearOrder Id]

/-- **A chronicle of the directory.** -/
structure Chronicle (U : Ulid Id) (fmt : Codec UInt8 (Entry Id)) (dir : Dir Id)
    (segs : Segments Id) : Prop where
  /-- The ids were drawn in their order. -/
  drawn : (stamps segs).Sublist dir.drawn
  nodup : (segs.map Prod.fst).Nodup
  /-- The directory has shards of the chronicle, in their order. -/
  shards : (dir.shards.map Shard.name).Sublist (segs.map fun s ↦ shardName U s.1)
  named : ∀ sh ∈ dir.all, sh.name ∈ segs.map fun s ↦ shardName U s.1
  /-- A shard holds an initial part of its entries. -/
  holds : ∀ sh ∈ dir.all, ∀ s ∈ segs, sh.name = shardName U s.1 →
    ∃ bs, fmt.encodeAll s.2 = some bs ∧ sh.data <+: bs

/-- The writer goes on with the last segment. Until it fails, its file and its buffer have all of
it. -/
structure Writing (U : Ulid Id) (fmt : Codec UInt8 (Entry Id)) (d : DirectoryWriter Id)
    (pre : Segments Id) (id : Id) (es : List (Entry Id)) : Prop where
  chronicle : Chronicle U fmt d.dir (pre ++ [(id, es)])
  file : d.writer.file = shardName U id
  live : ∃ bs, fmt.encodeAll es = some bs ∧ (d.writer.failed = false → ∀ sh ∈ d.dir.all,
    sh.name = shardName U id → sh.data ++ d.writer.buf = bs)

variable {U : Ulid Id} {fmt : Codec UInt8 (Entry Id)} {d : DirectoryWriter Id}
  {pre segs : Segments Id} {id : Id} {es es' : List (Entry Id)}

theorem Chronicle.empty : Chronicle U fmt Dir.empty [] where
  drawn := .slnil
  nodup := List.nodup_nil
  shards := .slnil
  named _ hsh := absurd hsh List.not_mem_nil
  holds _ hsh := absurd hsh List.not_mem_nil

variable {dir : Dir Id} {s : Site Id}

theorem Chronicle.draw (h : Chronicle U fmt dir segs) (ids : List Id) :
    Chronicle U fmt { dir with drawn := dir.drawn ++ ids } segs :=
  { h with drawn := h.drawn.trans (List.sublist_append_left _ _) }

theorem Chronicle.remove (h : Chronicle U fmt dir segs) (names : List String) :
    Chronicle U fmt (dir.remove names) segs where
  drawn := h.drawn
  nodup := h.nodup
  shards := (List.filter_sublist.map Shard.name).trans h.shards
  named sh hsh := h.named sh (Dir.all_remove.mem_iff.1 hsh)
  holds sh hsh := h.holds sh (Dir.all_remove.mem_iff.1 hsh)

/-- A new shard, with an id drawn after the others. -/
theorem Chronicle.create (h : Chronicle U fmt dir segs)
    (hrises : (dir.drawn ++ [id]).Pairwise (· < ·)) :
    Chronicle U fmt ({ dir with drawn := dir.drawn ++ [id] }.create (shardName U id))
        (segs ++ [(id, [])]) ∧
      ∀ sh ∈ ({ dir with drawn := dir.drawn ++ [id] }.create (shardName U id)).all,
        sh.name = shardName U id → sh.data = [] := by
  -- ids are drawn in increasing order, so the new one names no segment
  have hid : id ∉ segs.map Prod.fst := fun hmem ↦ by
    have hlt := (List.pairwise_append.1 hrises).2.2 id
      (h.drawn.subset ((ids_sublist_stamps segs).subset hmem)) id (List.mem_singleton_self id)
    exact lt_irrefl id hlt
  have hname : shardName U id ∉ segs.map fun s ↦ shardName U s.1 := fun hmem ↦ by
    obtain ⟨s, hs, hs'⟩ := List.mem_map.1 hmem
    exact hid (List.mem_map.2 ⟨s, hs, shardName_injective hs'⟩)
  have hfresh : shardName U id ∉ dir.shards.map Shard.name := fun hmem ↦
    hname (h.shards.subset hmem)
  have hshards : ({ dir with drawn := dir.drawn ++ [id] }.create (shardName U id)).shards =
      dir.shards ++ [⟨shardName U id, []⟩] := Dir.create_shards hfresh
  have hall : ∀ sh ∈ ({ dir with drawn := dir.drawn ++ [id] }.create (shardName U id)).all,
      sh ∈ dir.all ∨ sh = ⟨shardName U id, []⟩ :=
    fun _ ↦ (Dir.mem_all_create (d := { dir with drawn := dir.drawn ++ [id] }) hfresh).1
  have hold : ∀ sh ∈ dir.all, sh.name ≠ shardName U id := fun sh hsh heq ↦
    hname (heq ▸ h.named sh hsh)
  refine ⟨⟨?_, ?_, ?_, fun sh hsh ↦ ?_, fun sh hsh s hs hsname ↦ ?_⟩, fun sh hsh hsname ↦ ?_⟩
  · rw [stamps_concat, Dir.create_drawn]
    exact h.drawn.append (List.Sublist.refl _)
  · rw [List.map_append, List.map_singleton]
    refine List.nodup_append.2 ⟨h.nodup, List.nodup_singleton id, fun a ha b hb hab ↦ ?_⟩
    obtain rfl : a = id := hab.trans (List.mem_singleton.1 hb)
    exact hid ha
  · rw [hshards, List.map_append, List.map_append]
    exact h.shards.append (List.Sublist.refl _)
  · rw [List.map_append]
    rcases hall sh hsh with hsh | rfl
    · exact List.mem_append_left _ (h.named sh hsh)
    · exact List.mem_append_right _ List.mem_cons_self
  · rcases List.mem_append.1 hs with hs | hs
    · rcases hall sh hsh with hsh | rfl
      · exact h.holds sh hsh s hs hsname
      · exact absurd (List.mem_map.2 ⟨s, hs, hsname.symm⟩) hname
    · obtain rfl := List.mem_singleton.1 hs
      rcases hall sh hsh with hsh | rfl
      · exact absurd hsname (hold sh hsh)
      · exact ⟨[], rfl, List.nil_prefix⟩
  · rcases hall sh hsh with hsh | rfl
    · exact absurd hsname (hold sh hsh)
    · rfl

/-- More entries come to the last segment, through the buffer. -/
theorem Writing.emit (h : Writing U fmt d pre id es) {p : Bytes} {r : Writer × Bytes}
    (hr : d.writer.Puts p r) (hp : fmt.encodeAll es' = some p)
    (hdrawn : (stamps (pre ++ [(id, es ++ es')])).Sublist d.dir.drawn) :
    Writing U fmt (d.emit r) pre id (es ++ es') := by
  obtain ⟨bs, hbs, hlive⟩ := h.live
  have hencoded : fmt.encodeAll (es ++ es') = some (bs ++ p) := Codec.encodeAll_append hbs hp
  have hids : ((pre ++ [(id, es ++ es')]).map Prod.fst) = (pre ++ [(id, es)]).map Prod.fst := by
    rw [List.map_append, List.map_append]
    rfl
  have hnames : ((pre ++ [(id, es ++ es')]).map fun s ↦ shardName U s.1) =
      (pre ++ [(id, es)]).map fun s ↦ shardName U s.1 := by
    rw [List.map_append, List.map_append]
    rfl
  have hpre : ∀ s ∈ pre, s.1 ≠ id := fun s hs heq ↦ by
    have hnd := h.chronicle.nodup
    rw [List.map_append] at hnd
    exact (List.nodup_append.1 hnd).2.2 s.1 (List.mem_map_of_mem hs) id List.mem_cons_self heq
  have hall : ∀ sh ∈ (d.emit r).dir.all, ∃ sh₀ ∈ d.dir.all, sh = sh₀.extend d.writer.file r.2 := by
    intro sh hsh
    rw [DirectoryWriter.emit, Dir.all_append, hr.file] at hsh
    obtain ⟨sh₀, hsh₀, heq⟩ := List.mem_map.1 hsh
    exact ⟨sh₀, hsh₀, heq.symm⟩
  have hdata : ∀ sh₀ ∈ d.dir.all, sh₀.name = shardName U id → (r.1.failed = false →
      sh₀.data ++ r.2 ++ r.1.buf = bs ++ p) ∧ sh₀.data ++ r.2 <+: bs ++ p := by
    intro sh₀ hsh₀ hname
    rcases herr : r.1.failed with - | -
    · obtain ⟨hok, hbuf⟩ := hr.ok herr
      have heq : sh₀.data ++ r.2 ++ r.1.buf = bs ++ p := by
        rw [List.append_assoc, hbuf, ← List.append_assoc, hlive hok sh₀ hsh₀ hname]
      exact ⟨fun _ ↦ heq, ⟨r.1.buf, heq⟩⟩
    · -- a writer that has failed adds nothing, and what was there is a part still
      obtain ⟨bs', hbs', hpart⟩ := h.chronicle.holds sh₀ hsh₀ (id, es)
        (List.mem_append_right _ List.mem_cons_self) hname
      obtain rfl := Option.some.inj (hbs.symm.trans hbs')
      rw [hr.error herr, List.append_nil]
      exact ⟨fun hok ↦ absurd hok.symm Bool.false_ne_true, hpart.trans (List.prefix_append _ _)⟩
  refine ⟨⟨hdrawn, hids ▸ h.chronicle.nodup, ?_, fun sh hsh ↦ ?_, fun sh hsh s hs hsname ↦ ?_⟩,
    hr.file.trans h.file, bs ++ p, hencoded, fun hok sh hsh hsname ↦ ?_⟩
  · rw [hnames]
    exact Dir.names_append.symm ▸ h.chronicle.shards
  · obtain ⟨sh₀, hsh₀, rfl⟩ := hall sh hsh
    rw [hnames, Shard.extend_name]
    exact h.chronicle.named sh₀ hsh₀
  · obtain ⟨sh₀, hsh₀, rfl⟩ := hall sh hsh
    rw [Shard.extend_name] at hsname
    rcases List.mem_append.1 hs with hs | hs
    · have hne : sh₀.name ≠ d.writer.file := fun heq ↦
        hpre s hs (shardName_injective (hsname.symm.trans (heq.trans h.file)))
      rw [Shard.extend, if_neg hne]
      exact h.chronicle.holds sh₀ hsh₀ s (List.mem_append_left _ hs) hsname
    · obtain rfl := List.mem_singleton.1 hs
      rw [Shard.extend, if_pos (hsname.trans h.file.symm)]
      exact ⟨bs ++ p, hencoded, (hdata sh₀ hsh₀ hsname).2⟩
  · obtain ⟨sh₀, hsh₀, rfl⟩ := hall sh hsh
    rw [Shard.extend_name] at hsname
    rw [Shard.extend, if_pos (hsname.trans h.file.symm)]
    exact (hdata sh₀ hsh₀ hsname).1 hok

theorem Writing.draw (h : Writing U fmt d pre id es) (ts : Id) :
    Writing U fmt (d.draw ts) pre id es :=
  ⟨h.chronicle.draw [ts], h.file, h.live⟩

theorem Writing.remove (h : Writing U fmt d pre id es) (names : List String) :
    Writing U fmt (d.remove names) pre id es := by
  obtain ⟨bs, hbs, hlive⟩ := h.live
  exact ⟨h.chronicle.remove names, h.file, bs, hbs, fun hok sh hsh ↦
    hlive hok sh (Dir.all_remove.mem_iff.1 hsh)⟩

theorem Writing.release (h : Writing U fmt d pre id es) : Writing U fmt d.release pre id es := by
  have hflush := h.emit (d.writer.puts_flush d.opened) (Codec.encodeAll_nil fmt)
    (by rw [List.append_nil]; exact h.chronicle.drawn)
  rw [List.append_nil] at hflush
  exact ⟨hflush.chronicle, hflush.file, hflush.live⟩

/-- The first shard of a session, or the next. -/
theorem Writing.of_create (h : Chronicle U fmt dir segs)
    (hrises : (dir.drawn ++ [id]).Pairwise (· < ·))
    (hdir : d.dir = { dir with drawn := dir.drawn ++ [id] }.create (shardName U id))
    (hwriter : d.writer = Writer.new (shardName U id)) : Writing U fmt d segs id [] := by
  obtain ⟨hchronicle, hnew⟩ := h.create hrises
  rw [← hdir] at hchronicle hnew
  refine ⟨hchronicle, by rw [hwriter]; rfl, [], rfl, fun _ sh hsh hname ↦ ?_⟩
  rw [hwriter, hnew sh hsh hname]
  rfl

/-- An entry is given to the last segment. -/
theorem Writing.put (h : Writing U fmt d pre id es) {ts : Id} {data bs : Bytes}
    (hbs : fmt.encode ⟨ts, data⟩ = some bs) :
    Writing U fmt ((d.draw ts).put bs) pre id (es ++ [⟨ts, data⟩]) := by
  refine (h.draw ts).emit ((d.draw ts).writer.puts_put (d.draw ts).opened bs)
    (Codec.encodeAll_singleton hbs) ?_
  have hdrawn := h.chronicle.drawn
  rw [stamps_concat] at hdrawn ⊢
  rw [List.map_append, ← List.cons_append, ← List.append_assoc]
  exact hdrawn.append (List.Sublist.refl _)

/-- How a chronicle goes on: the entries of a segment grow, and segments come behind. -/
structure Continues (segs segs' : Segments Id) (new : List (Entry Id)) : Prop where
  segment : ∀ pre id es post, segs = pre ++ (id, es) :: post →
    ∃ es' post', segs' = pre ++ (id, es ++ es') :: post'
  entries : (segs'.flatMap Prod.snd).Sublist (segs.flatMap Prod.snd ++ new)

namespace Continues

variable {segs' segs'' : Segments Id} {new new' : List (Entry Id)}

omit [LinearOrder Id] in
theorem refl (segs : Segments Id) : Continues segs segs [] where
  segment pre id es post h := ⟨[], post, by rw [List.append_nil]; exact h⟩
  entries := by rw [List.append_nil]

omit [LinearOrder Id] in
theorem trans (h : Continues segs segs' new) (h' : Continues segs' segs'' new') :
    Continues segs segs'' (new ++ new') where
  segment pre id es post heq := by
    obtain ⟨es', post', heq'⟩ := h.segment pre id es post heq
    obtain ⟨es'', post'', heq''⟩ := h'.segment pre id (es ++ es') post' heq'
    exact ⟨es' ++ es'', post'', by rw [heq'', List.append_assoc]⟩
  entries := by
    rw [← List.append_assoc]
    exact h'.entries.trans (h.entries.append (List.Sublist.refl _))

omit [LinearOrder Id] in
theorem mono (h : Continues segs segs' new) (hnew : new.Sublist new') :
    Continues segs segs' new' :=
  ⟨h.segment, h.entries.trans ((List.Sublist.refl _).append hnew)⟩

omit [LinearOrder Id] in
/-- The last segment grows. -/
theorem grow (pre : Segments Id) (id : Id) (es es' : List (Entry Id)) :
    Continues (pre ++ [(id, es)]) (pre ++ [(id, es ++ es')]) es' where
  segment pre₀ id₀ es₀ post₀ heq := by
    rcases List.append_eq_append_iff.1 heq with ⟨mid, rfl, hmid⟩ | ⟨mid, rfl, hmid⟩
    · rcases mid with - | ⟨s, mid⟩
      · obtain ⟨hs, -⟩ := List.cons_eq_cons.1 hmid
        obtain ⟨rfl, rfl⟩ := Prod.mk.inj hs
        exact ⟨es', [], by rw [List.append_nil]⟩
      · have hnil := (List.cons_eq_cons.1 hmid).2
        simp at hnil
    · rcases mid with - | ⟨s, mid⟩
      · obtain ⟨hs, -⟩ := List.cons_eq_cons.1 hmid
        obtain ⟨rfl, rfl⟩ := Prod.mk.inj hs
        exact ⟨es', [], by rw [List.append_nil]⟩
      · obtain ⟨rfl, rfl⟩ := List.cons_eq_cons.1 (hmid.trans (List.cons_append ..))
        exact ⟨[], mid ++ [(id, es ++ es')], by rw [List.append_nil]; simp⟩
  entries := by
    simp

omit [LinearOrder Id] in
/-- A segment comes behind. -/
theorem behind (segs : Segments Id) (id : Id) : Continues segs (segs ++ [(id, [])]) [] where
  segment pre id₀ es post heq := ⟨[], post ++ [(id, [])], by rw [heq]; simp⟩
  entries := by
    simp

end Continues

/-- A rotation, whether it succeeds or not. -/
theorem Writing.rotate (h : Writing U fmt d pre id es) {env : RotateEnv U}
    (hrises : (d.rotate env).2.dir.drawn.Pairwise (· < ·)) :
    ∃ pre' id' es', Writing U fmt (d.rotate env).2 pre' id' es' ∧
      Continues (pre ++ [(id, es)]) (pre' ++ [(id', es')]) [] := by
  rcases DirectoryWriter.rotate_cases env d with
    heq | ⟨id', heq⟩ | ⟨id', names, e, -, -, -, heq⟩
  · rw [heq]
    exact ⟨pre, id, es, h.release, .refl _⟩
  · rw [heq]
    exact ⟨pre, id, es, h.release.draw id', .refl _⟩
  · rw [heq] at hrises ⊢
    have hdrawn : (d.release.dir.drawn ++ [id']).Pairwise (· < ·) := by
      have hattach : (d.release.attach U id').dir.drawn = d.release.dir.drawn ++ [id'] :=
        Dir.create_drawn
      rw [← hattach]
      exact hrises
    exact ⟨_, id', [], (Writing.of_create h.release.chronicle hdrawn rfl rfl).remove names,
      .behind _ id'⟩

/-- **A write, whatever becomes of it.** -/
theorem Writing.write (h : Writing U fmt d pre id es) {env : WriteEnv U} {data : Bytes}
    (hrises : (d.write fmt env data).2.dir.drawn.Pairwise (· < ·)) :
    ∃ pre' id' es', Writing U fmt (d.write fmt env data).2 pre' id' es' ∧
      Continues (pre ++ [(id, es)]) (pre' ++ [(id', es')])
        (env.ts.map (Entry.mk · data)).toList := by
  rcases DirectoryWriter.write_cases fmt env d data with
    ⟨e, hw⟩ | ⟨ts, e, hw⟩ | ⟨ts, bs, hts, hbs, hw | ⟨-, ⟨-, hw⟩ | ⟨-, hw⟩⟩⟩
  · rw [hw]
    exact ⟨pre, id, es, h, (Continues.refl _).mono (List.nil_sublist _)⟩
  · rw [hw]
    exact ⟨pre, id, es, h.draw ts, (Continues.refl _).mono (List.nil_sublist _)⟩
  · rw [hw, hts]
    exact ⟨pre, id, _, h.put hbs, .grow pre id es _⟩
  · rw [hw, hts]
    have hput := h.put hbs
    exact ⟨pre, id, _, ⟨hput.chronicle, hput.file, hput.live⟩, .grow pre id es _⟩
  · rw [hw] at hrises ⊢
    have hput := h.put hbs
    have htaken : Writing U fmt (d.taken ts bs) pre id (es ++ [⟨ts, data⟩]) :=
      ⟨hput.chronicle, hput.file, hput.live⟩
    obtain ⟨pre', id', es', hwriting, hcontinues⟩ := htaken.rotate hrises
    rw [hts]
    exact ⟨pre', id', es', hwriting, (Continues.grow pre id es _).trans hcontinues⟩

/-! ### Runs of sessions -/

/-- The chronicle is one of the directory, and a writer on it goes on with its last segment. -/
def Site.Kept (U : Ulid Id) (fmt : Codec UInt8 (Entry Id)) (segs : Segments Id) : Site Id → Prop
  | .idle dir => Chronicle U fmt dir segs
  | .writing d => ∃ pre id es, segs = pre ++ [(id, es)] ∧ Writing U fmt d pre id es

theorem Site.Kept.chronicle (h : s.Kept U fmt segs) : Chronicle U fmt s.dir segs := by
  rcases s with dir | d
  · exact h
  · obtain ⟨pre, id, es, rfl, hwriting⟩ := h
    exact hwriting.chronicle

/-- **One call.** -/
theorem Site.Kept.step {s' : Site Id} {a : SiteCall U} (h : s.Kept U fmt segs)
    (hstep : siteStep fmt s a = some s') (hrises : s'.dir.drawn.Pairwise (· < ·)) :
    ∃ segs', s'.Kept U fmt segs' ∧ Continues segs segs' a.entries := by
  cases a with
  | new max shards id create =>
    rcases id with - | id
    · cases hstep
      exact ⟨segs, h.chronicle.draw _, .refl segs⟩
    · rcases create with - | -
      · cases hstep
        exact ⟨segs, h.chronicle.draw _, .refl segs⟩
      · cases hstep
        -- making a file draws no further id
        have hdrawn : (s.dir.drawn ++ [id]).Pairwise (· < ·) := by
          have hcreate : (Dir.create ⟨s.dir.shards, s.dir.pruned, s.dir.drawn ++ [id]⟩
            (shardName U id)).drawn = s.dir.drawn ++ [id] := Dir.create_drawn
          rw [← hcreate]
          exact hrises
        exact ⟨_, ⟨segs, id, [], rfl, .of_create h.chronicle hdrawn rfl rfl⟩, .behind segs id⟩
  | write c =>
    rcases s with dir | d
    · cases hstep
    obtain ⟨pre, id, es, rfl, hwriting⟩ := h
    obtain rfl := Option.some.inj hstep
    have hrises' : (d.write fmt c.env c.data).2.dir.drawn.Pairwise (· < ·) := by
      split_ifs at hrises
      · exact hrises
      · exact hrises
    obtain ⟨pre', id', es', hwriting', hcontinues⟩ := hwriting.write hrises'
    refine ⟨_, ?_, hcontinues⟩
    split_ifs
    · exact hwriting'.chronicle
    · exact ⟨pre', id', es', rfl, hwriting'⟩
  | close =>
    rcases s with dir | d
    · cases hstep
    obtain ⟨pre, id, es, rfl, hwriting⟩ := h
    cases hstep
    exact ⟨_, ⟨pre, id, es, rfl, hwriting.release⟩, .refl _⟩

theorem Site.exists_kept {as : List (SiteCall U)}
    (h : RunWhile (siteStep fmt) (Rises fmt) (.idle .empty) as s) :
    s.dir.drawn.Pairwise (· < ·) ∧ ∃ segs, s.Kept U fmt segs := by
  refine h.invariant (I := fun s ↦ s.dir.drawn.Pairwise (· < ·) ∧ ∃ segs, s.Kept U fmt segs) ?_
    ⟨.nil, [], Chronicle.empty⟩
  rintro s a s' ⟨-, segs, hkept⟩ hrises hstep
  obtain ⟨segs', hkept', -⟩ := hkept.step hstep (hrises s' hstep)
  exact ⟨hrises s' hstep, segs', hkept'⟩

end Chronicle

/-! ### The order on the disk -/

section Order

theorem flatMap_sublist_flatMap {α β : Type*} {f g : α → List β} {l l' : List α} (h : l.Sublist l')
    (hfg : ∀ a ∈ l, (f a).Sublist (g a)) : (l.flatMap f).Sublist (l'.flatMap g) := by
  induction h with
  | slnil => exact .slnil
  | cons a _ ih => exact (ih hfg).trans (List.sublist_append_right _ _)
  | cons_cons a _ ih =>
    exact (hfg a List.mem_cons_self).append (ih fun b hb ↦ hfg b (List.mem_cons_of_mem a hb))

variable {Id : Type*}

/-- The entries that can be read of a shard. -/
def Dir.entriesIn (dir : Dir Id) (fmt : Codec UInt8 (Entry Id)) (name : String) :
    List (Entry Id) :=
  fmt.decodeAll (((dir.shards.find? fun sh ↦ sh.name = name).map Shard.data).getD [])

variable [LinearOrder Id] {U : Ulid Id} {fmt : Codec UInt8 (Entry Id)}

/-- The entries on the disk are the first of those given to the shard. -/
theorem Chronicle.entriesIn_prefix {dir : Dir Id} {segs : Segments Id}
    (h : Chronicle U fmt dir segs) {s : Id × List (Entry Id)} (hs : s ∈ segs) :
    dir.entriesIn fmt (shardName U s.1) <+: s.2 := by
  rw [Dir.entriesIn]
  rcases hfind : dir.shards.find? (fun sh ↦ decide (sh.name = shardName U s.1)) with - | sh
  · rw [hfind]
    exact List.nil_prefix
  · rw [hfind]
    have hname : sh.name = shardName U s.1 := by simpa using List.find?_some hfind
    obtain ⟨bs, hbs, hpart⟩ := h.holds sh
      (List.mem_append_left _ (List.mem_of_find?_eq_some hfind)) s hs hname
    exact fmt.decodeAll_of_prefix hbs hpart

/-- The ids of the shards in the directory. -/
theorem Chronicle.exists_named {dir : Dir Id} {segs : Segments Id} (h : Chronicle U fmt dir segs) :
    ∃ segs' : Segments Id, segs'.Sublist segs ∧ Named U dir (segs'.map Prod.fst) := by
  obtain ⟨segs', hsub, hnames⟩ := List.sublist_map_iff.1 h.shards
  refine ⟨segs', hsub, ?_, (hsub.map Prod.fst).nodup h.nodup⟩
  rw [hnames, List.map_map]
  rfl

/-- **The order of a log.** For every run of sessions in which ids increase: the directory lists its
shards by id, and the ids of the shards and of the entries read from them, shard by shard in that
order, increase. So entries increase, and the id of a shard comes after the entries of the shards
before it and before its own. -/
theorem entries_ordered {s : Site Id} {as : List (SiteCall U)}
    (h : RunWhile (siteStep fmt) (Rises fmt) (.idle .empty) as s) :
    ∃ ids : List Id, s.dir.readDir = ids.map (shardName U) ∧
      (ids.flatMap fun id ↦
        id :: (s.dir.entriesIn fmt (shardName U id)).map Entry.timestamp).Pairwise (· < ·) := by
  obtain ⟨hdrawn, segs, hkept⟩ := Site.exists_kept h
  have hchronicle := hkept.chronicle
  have hstamps : (stamps segs).Pairwise (· < ·) := hdrawn.sublist hchronicle.drawn
  obtain ⟨segs', hsub, hnamed⟩ := hchronicle.exists_named
  have hids : (segs'.map Prod.fst).Pairwise (· < ·) :=
    hstamps.sublist ((hsub.map Prod.fst).trans (ids_sublist_stamps segs))
  refine ⟨segs'.map Prod.fst, hnamed.readDir_eq hids, hstamps.sublist ?_⟩
  rw [List.flatMap_map]
  refine flatMap_sublist_flatMap hsub fun t ht ↦ ?_
  have hpart := hchronicle.entriesIn_prefix (hsub.subset ht)
  exact (hpart.sublist.map Entry.timestamp).cons_cons t.1

/-- A session that rotates twice and one that does not, in the next millisecond. -/
def rotatingSessions : List (SiteCall ulid128) :=
  [.new 1 0 (some (ulidAt 0 1)) true, .write ⟨[97], .ordinary ulid128 (ulidAt 0 2) (ulidAt 0 3)⟩,
    .write ⟨[98], .ordinary ulid128 (ulidAt 0 4) (ulidAt 0 5)⟩, .close,
    .new 0 0 (some (ulidAt 1 0)) true, .write ⟨[99], .ordinary ulid128 (ulidAt 1 1) (ulidAt 1 2)⟩,
    .close]

theorem entries_ordered_rotatingSessions :
    ∃ s, RunWhile (siteStep cborEntry) (Rises cborEntry) (.idle .empty) rotatingSessions s ∧
      s.dir.shards.length = 4 ∧
        ∃ ids : List (Fin (2 ^ 128)), s.dir.readDir = ids.map (shardName ulid128) ∧
        (ids.flatMap fun id ↦ id ::
          (s.dir.entriesIn cborEntry (shardName ulid128 id)).map Entry.timestamp).Pairwise
            (· < ·) := by
  obtain ⟨s, hrun, hlen⟩ : ∃ s, RunWhile (siteStep cborEntry) (Rises cborEntry) (.idle .empty)
      rotatingSessions s ∧ s.dir.shards.length = 4 :=
    ⟨_, runWhile_iff_foldlM.2 rfl, rfl⟩
  exact ⟨s, hrun, hlen, entries_ordered hrun⟩

end Order

end Log
