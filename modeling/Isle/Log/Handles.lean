import Isle.Log.Retention
import Isle.Log.Sessions

/-!
# The files of a directory writer

A `DirectoryWriter` holds its file twice: `cur` is what `rotate` and `Close` close, and the writer
embedded in it is what entries go through. `rotate` replaces the second and **not the first**. So
from the first rotation on the file written to is not `cur`, and it is never closed: neither by the
next rotation nor by `Close`, which both close `cur` again.

The two agree, and what is not in use is closed, exactly as long as no call goes on to a new shard
(`handled_throughout_iff`).
-/

namespace Log

variable {Id : Type*}

/-- A writer, with the files it has opened and whether `Close` was called. -/
structure Handles (Id : Type*) where
  d : DirectoryWriter Id
  files : List String
  shut : Bool

/-- The writer as `NewDirectoryWriter` returns it. -/
def Handles.new (d : DirectoryWriter Id) : Handles Id := ⟨d, [d.cur], false⟩

/-- The file was closed: `cur` is the only one that ever is. -/
def DirectoryWriter.IsClosed (d : DirectoryWriter Id) (file : String) : Prop :=
  file = d.cur ∧ d.closed = true

/-- **What is to hold of the files**: `cur` is the one written to, every other one was closed, and
after `Close` every one was. -/
structure Handled (s : Handles Id) : Prop where
  cur : s.d.cur = s.d.writer.file
  others : ∀ file ∈ s.files, file ≠ s.d.writer.file → s.d.IsClosed file
  shut : s.shut = true → ∀ file ∈ s.files, s.d.IsClosed file

/-- The writer can take so many bytes: it has no error, and its file is open or they fit into the
buffer. -/
def DirectoryWriter.Takes (d : DirectoryWriter Id) (n : ℕ) : Prop :=
  d.writer.failed = false ∧ (d.opened = true ∨ n ≤ bufSize - d.writer.buf.length)

instance (d : DirectoryWriter Id) (n : ℕ) : Decidable (d.Takes n) :=
  inferInstanceAs (Decidable (_ ∧ (_ ∨ _)))

section Machine

variable [LinearOrder Id] {U : Ulid Id} (fmt : Codec UInt8 (Entry Id))

/-- A call on a writer. -/
inductive HandleCall (U : Ulid Id)
  | write (c : WriteCall U)
  | rotate (env : RotateEnv U)
  | close

/-- The files after a call that has left this writer. -/
def Handles.moved (s : Handles Id) (d : DirectoryWriter Id) : Handles Id :=
  { s with
    d := d
    files := if d.writer.file = s.d.writer.file then s.files else s.files ++ [d.writer.file] }

/-- One call; none comes back from a panic. An id that is drawn for a shard names no file the writer
has opened before. -/
def handleStep (s : Handles Id) : HandleCall U → Option (Handles Id)
  | .write c =>
    let r := s.d.write fmt c.env c.data
    if Unused U s.files c.env.id ∧ r.1 ≠ some .panic then some (s.moved r.2) else none
  | .rotate env =>
    let r := s.d.rotate env
    if Unused U s.files env.id ∧ r.1 ≠ some .panic then some (s.moved r.2) else none
  | .close => some { s with d := s.d.close.2, shut := true }

/-- A call does not go on to a new shard: a rotation has no id or no file for it, and a write is not
taken, does not fill the shard, or rotates in that way. -/
def Stays (s : Handles Id) : HandleCall U → Prop
  | .write c => ∀ ts ∈ c.env.ts, ∀ bs ∈ fmt.encode ⟨ts, c.data⟩, s.d.Takes bs.length →
      c.env.id ≠ none → c.env.create = true → s.d.writer.sz + bs.length < s.d.max
  | .rotate env => env.id ≠ none → env.create = false
  | .close => True

instance (s : Handles Id) : ∀ a : HandleCall U, Decidable (Stays fmt s a)
  | .write c => inferInstanceAs (Decidable (∀ ts ∈ c.env.ts, _))
  | .rotate _ => inferInstanceAs (Decidable (_ → _))
  | .close => isTrue trivial

end Machine

/-! ### What a write does to the files -/

namespace DirectoryWriter

variable [LinearOrder Id] {U : Ulid Id} {d : DirectoryWriter Id}

omit [LinearOrder Id] in
theorem takes_iff (ts : Id) (bs : Bytes) :
    ((d.draw ts).put bs).writer.failed = false ↔ d.Takes bs.length := by
  change (d.writer.put d.opened bs).1.failed = false ↔ _
  constructor
  · intro h
    refine ⟨((d.writer.puts_put d.opened bs).ok h).1, ?_⟩
    rcases hopened : d.opened with - | -
    · rw [hopened] at h
      exact .inr (Writer.fits_of_put_closed h).2
    · exact .inl rfl
  · rintro ⟨hok, hopened | hfit⟩
    · rw [hopened]
      exact (Writer.put_opened hok).1
    · rw [Writer.put, if_neg (by rw [hok]; exact Bool.false_ne_true), if_pos hfit]
      exact hok

omit [LinearOrder Id] in
theorem sz_taken (ts : Id) (bs : Bytes) :
    (d.taken ts bs).writer.sz = d.writer.sz + bs.length := by
  change (d.writer.put d.opened bs).1.sz + bs.length = _
  rw [Writer.put_sz]

omit [LinearOrder Id] in
theorem file_release : d.release.writer.file = d.writer.file := Writer.flush_file

omit [LinearOrder Id] in
theorem file_taken (ts : Id) (bs : Bytes) :
    (d.taken ts bs).writer.file = d.writer.file := Writer.put_file

variable {renv : RotateEnv U}

/-- A rotation that has an id and a file goes on to it. -/
theorem file_rotate {id : Id} (hid : renv.id = some id) (hcreate : renv.create = true) :
    (d.rotate renv).2.writer.file = shardName U id := by
  obtain ⟨names, e, -, hsettle⟩ := settle_cases renv (d.release.attach U id)
  rw [rotate_of_create hid hcreate, hsettle]
  rfl

/-- One that has not has closed `cur`, and may have drawn an id. -/
theorem rotate_of_none (h : renv.id ≠ none → renv.create = false) :
    (d.rotate renv).2 = d.release ∨ ∃ id, (d.rotate renv).2 = d.release.draw id := by
  rcases rotate_cases renv d with heq | ⟨id, heq⟩ | ⟨id, names, e, hid, hcreate, -, -⟩
  · exact .inl (by rw [heq])
  · exact .inr ⟨id, by rw [heq]⟩
  · have hfalse := h (by rw [hid]; exact Option.some_ne_none id)
    exact absurd (hfalse.symm.trans hcreate) Bool.false_ne_true

/-- It stays with its file. -/
theorem file_rotate_of_none (h : renv.id ≠ none → renv.create = false) :
    (d.rotate renv).2.writer.file = d.writer.file := by
  rcases rotate_of_none (d := d) h with heq | ⟨id, heq⟩
  · rw [heq]
    exact file_release
  · rw [heq]
    exact file_release

end DirectoryWriter

/-! ### One call -/

section Step

variable [LinearOrder Id] {U : Ulid Id} {fmt : Codec UInt8 (Entry Id)} {s s' : Handles Id}
  {c : WriteCall U}

/-- A write that stays in its shard writes to the same file. -/
theorem Stays.file_write (h : Stays fmt s (.write c)) :
    (s.d.write fmt c.env c.data).2.writer.file = s.d.writer.file := by
  rcases DirectoryWriter.write_cases fmt c.env s.d c.data with
    ⟨e, hw⟩ | ⟨ts, e, hw⟩ | ⟨ts, bs, hts, hbs, hw | ⟨hok, ⟨-, hw⟩ | ⟨hfull, hw⟩⟩⟩
  · rw [hw]
  · rw [hw]
    rfl
  · rw [hw]
    exact Writer.put_file
  · rw [hw]
    exact DirectoryWriter.file_taken ts bs
  · -- the shard is full, so there is no id or no file for another
    rw [hw, DirectoryWriter.file_rotate_of_none fun hid ↦ ?_]
    · exact DirectoryWriter.file_taken ts bs
    · by_contra hcreate
      rw [Bool.not_eq_false] at hcreate
      have hlt := h ts hts bs hbs ((DirectoryWriter.takes_iff ts bs).1 hok) hid hcreate
      rw [DirectoryWriter.sz_taken] at hfull
      push_cast at hfull
      exact absurd hfull hlt.not_ge

/-- A write that does not goes on to a file the writer has not opened before. -/
theorem exists_file_write (h : ¬ Stays fmt s (.write c)) : ∃ id ∈ c.env.id,
    (s.d.write fmt c.env c.data).2.writer.file = shardName U id := by
  simp only [Stays, not_forall, not_lt] at h
  obtain ⟨ts, hts, bs, hbs, htakes, hid, hcreate, hfull⟩ := h
  obtain ⟨id, hid⟩ := Option.ne_none_iff_exists'.1 hid
  refine ⟨id, hid, ?_⟩
  have hok := (DirectoryWriter.takes_iff ts bs).2 htakes
  have hsz : s.d.max ≤ (s.d.taken ts bs).writer.sz := by
    rw [DirectoryWriter.sz_taken]
    exact_mod_cast hfull
  rw [DirectoryWriter.write_eq_rotate hts hbs hok hsz]
  exact DirectoryWriter.file_rotate hid hcreate

/-- As long as no call has gone on to a new shard, the one file is `cur`. -/
structure OneFile (s : Handles Id) : Prop where
  cur : s.d.cur = s.d.writer.file
  files : s.files = [s.d.cur]
  shut : s.shut = true → s.d.closed = true

omit [LinearOrder Id] in
theorem OneFile.handled (h : OneFile s) : Handled s := by
  refine ⟨h.cur, fun file hfile hne ↦ ?_, fun hshut file hfile ↦ ?_⟩
  · rw [h.files, List.mem_singleton] at hfile
    exact absurd (hfile.trans h.cur) hne
  · rw [h.files, List.mem_singleton] at hfile
    exact ⟨hfile, h.shut hshut⟩

omit [LinearOrder Id] in
/-- A call that stays with its file keeps the one file. -/
theorem OneFile.moved {d : DirectoryWriter Id} (h : OneFile s) (hsame : s.d.Same d)
    (hfile : d.writer.file = s.d.writer.file) : OneFile (s.moved d) := by
  refine ⟨hsame.cur.trans (h.cur.trans hfile.symm), ?_, fun hshut ↦ hsame.closed (h.shut hshut)⟩
  exact (if_pos hfile).trans (h.files.trans (congrArg (fun file ↦ [file]) hsame.cur.symm))

/-- **A call that goes on to a new shard leaves `cur` behind.** -/
theorem OneFile.not_handled_moved {d : DirectoryWriter Id} {id : Id} (h : OneFile s)
    (hsame : s.d.Same d) (hfile : d.writer.file = shardName U id)
    (hid : shardName U id ∉ s.files) : ¬ Handled (s.moved d) := by
  intro h'
  have hname : s.d.cur = shardName U id := hsame.cur.symm.trans (h'.cur.trans hfile)
  exact hid (by rw [h.files, hname]; exact List.mem_singleton_self _)

/-- A call that stays in the shard. -/
theorem OneFile.step {a : HandleCall U} (h : OneFile s) (hstays : Stays fmt s a)
    (hstep : handleStep fmt s a = some s') : OneFile s' := by
  cases a with
  | write c =>
    obtain ⟨-, rfl⟩ := guarded_eq_some hstep
    exact h.moved (DirectoryWriter.same_write fmt c.env s.d c.data) hstays.file_write
  | rotate env =>
    obtain ⟨-, rfl⟩ := guarded_eq_some hstep
    exact h.moved (DirectoryWriter.same_rotate env s.d)
      (DirectoryWriter.file_rotate_of_none hstays)
  | close =>
    cases hstep
    exact ⟨h.cur.trans DirectoryWriter.file_release.symm, h.files, fun _ ↦ rfl⟩

/-- A call that does not. -/
theorem OneFile.not_handled {a : HandleCall U} (h : OneFile s) (hstays : ¬ Stays fmt s a)
    (hstep : handleStep fmt s a = some s') : ¬ Handled s' := by
  cases a with
  | write c =>
    obtain ⟨⟨hunused, -⟩, rfl⟩ := guarded_eq_some hstep
    obtain ⟨id, hid, hfile⟩ := exists_file_write hstays
    exact h.not_handled_moved (DirectoryWriter.same_write fmt c.env s.d c.data) hfile
      (hunused id hid)
  | rotate env =>
    obtain ⟨⟨hunused, -⟩, rfl⟩ := guarded_eq_some hstep
    obtain ⟨hid, hcreate⟩ := Classical.not_imp.1 hstays
    obtain ⟨id, hid⟩ := Option.ne_none_iff_exists'.1 hid
    exact h.not_handled_moved (DirectoryWriter.same_rotate env s.d)
      (DirectoryWriter.file_rotate hid (Bool.eq_true_of_not_eq_false hcreate)) (hunused id hid)
  | close => exact absurd trivial hstays

end Step

/-! ### Runs -/

section Runs

variable [LinearOrder Id] {U : Ulid Id} {fmt : Codec UInt8 (Entry Id)}

/-- **The files of a writer along every run.** In whatever calls of `Write`, `rotate` and `Close`
follow `NewDirectoryWriter`: `cur` is the file written to in every state, every other file the
writer has opened was closed, and after `Close` every one was, exactly if no call goes on to a new
shard. -/
theorem handled_throughout_iff {dir : Dir Id} {max shards : ℤ} {id : Option Id} {create : Bool}
    {d : DirectoryWriter Id} (hd : newDirectoryWriter U dir max shards id create = .ok d)
    {as : List (HandleCall U)} {s : Handles Id} (h : Run (handleStep fmt) (.new d) as s) :
    Throughout (handleStep fmt) Handled (.new d) as ↔
      RunWhile (handleStep fmt) (Stays fmt) (.new d) as s := by
  have hnew : OneFile (.new d) := by
    rcases id with - | id
    · cases hd
    rcases create with - | -
    · cases hd
    cases hd
    exact ⟨rfl, rfl, fun hshut ↦ Bool.noConfusion hshut⟩
  refine h.throughout_iff_of_invariant (I := OneFile) (fun _ ↦ OneFile.handled)
    (fun s a t hs _ hstep ↦ ⟨fun ht ↦ ?_, fun hstays ↦ (hs.step hstays hstep).handled⟩)
    (fun s a t hs _ hstays hstep ↦ hs.step hstays hstep) hnew
  by_contra hstays
  exact hs.not_handled hstays hstep ht

end Runs

/-! ### Without a rotation, and with two -/

/-- A session of one write. -/
def oneWrite : List (HandleCall ulid128) :=
  [.write (rotatingWrite (ulidAt 1 0) (ulidAt 1 1)), .close]

theorem handled_oneWrite :
    ∃ d s, newDirectoryWriter ulid128 .empty 1000 0 (some (ulidAt 0 1)) true = .ok d ∧
      Run (handleStep cborEntry) (.new d) oneWrite s ∧ s.shut = true ∧
      Throughout (handleStep cborEntry) Handled (.new d) oneWrite := by
  obtain ⟨d, hd⟩ : ∃ d, newDirectoryWriter ulid128 .empty 1000 0 (some (ulidAt 0 1)) true = .ok d :=
    ⟨_, rfl⟩
  obtain ⟨s, hstays, hshut⟩ : ∃ s, RunWhile (handleStep cborEntry) (Stays cborEntry) (.new d)
      oneWrite s ∧ s.shut = true := by
    cases hd
    exact ⟨_, runWhile_iff_foldlM.2 rfl, rfl⟩
  have hrun := hstays.mono fun _ _ _ ↦ trivial
  exact ⟨d, s, hd, hrun, hshut, (handled_throughout_iff hd hrun).2 hstays⟩

/-- A session of two writes that both rotate. -/
def twoRotations : List (HandleCall ulid128) :=
  [.write (rotatingWrite (ulidAt 1 0) (ulidAt 1 1)),
    .write (rotatingWrite (ulidAt 2 0) (ulidAt 2 1)), .close]

/-- **Two files stay open after `Close`.** Of the three the writer has opened, the first is closed
three times, and it is still `cur`. -/
theorem exists_not_handled :
    newDirectoryWriter ulid128 .empty 1 10 (some (ulidAt 0 1)) true =
        .ok (eagerWriter (ulidAt 0 1) 10) ∧
      ∃ s, Run (handleStep cborEntry) (.new (eagerWriter (ulidAt 0 1) 10)) twoRotations s ∧
        s.files = [ulidAt 0 1, ulidAt 1 1, ulidAt 2 1].map (shardName ulid128) ∧
        s.d.cur = shardName ulid128 (ulidAt 0 1) ∧
        s.d.writer.file = shardName ulid128 (ulidAt 2 1) ∧
        ¬ s.d.IsClosed (shardName ulid128 (ulidAt 1 1)) ∧
        ¬ s.d.IsClosed (shardName ulid128 (ulidAt 2 1)) ∧ ¬ Handled s := by
  refine ⟨rfl, _, run_iff_foldlM.2 rfl, rfl, rfl, rfl, fun h ↦ ?_, fun h ↦ ?_, fun h ↦ ?_⟩
  · exact absurd h.1 (by decide +kernel)
  · exact absurd h.1 (by decide +kernel)
  · exact absurd h.cur (by decide +kernel)

end Log
