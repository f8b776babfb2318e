import Mathlib.Data.List.Infix

/-!
# Buffered reading

A reader with a buffer in front of a source that delivers what it has **in pieces**, cut anywhere.
Three operations of such a reader are here: one element, a given number of them, and everything up
to a delimiter. Each goes on to the next piece where the buffer is used up.

What they return depends on the elements still to come (`unread`) and not on how these are cut
(`readByte_cases`, `readFull_append`, `readString_append`), so that a program on top of them can be
reasoned about as one that reads a list.
-/

/-- What a source delivers at once; it delivers something. -/
abbrev Piece (β : Type*) := {p : List β // p ≠ []}

/-- A piece of one element. -/
def Piece.one {β : Type*} (b : β) : Piece β := ⟨[b], List.cons_ne_nil b []⟩

/-- A buffered reader: what was read ahead, and what the source will deliver before it ends. -/
structure BufReader (β : Type*) where
  buffered : List β
  pieces : List (Piece β)

namespace BufReader

variable {β : Type*}

/-- A reader in front of a source from which nothing was read. -/
def new (pieces : List (Piece β)) : BufReader β := ⟨[], pieces⟩

/-- The elements a source delivers. -/
def delivered (pieces : List (Piece β)) : List β := (pieces.map Subtype.val).flatten

/-- The elements still to come. -/
def unread (r : BufReader β) : List β := r.buffered ++ delivered r.pieces

@[simp] theorem delivered_cons (p : Piece β) (ps : List (Piece β)) :
    delivered (p :: ps) = p.1 ++ delivered ps := rfl

theorem delivered_map_one (bs : List β) : delivered (bs.map Piece.one) = bs := by
  induction bs with
  | nil => rfl
  | cons b bs ih => rw [List.map_cons, delivered_cons, ih, Piece.one, List.singleton_append]

/-- `ReadByte` -/
def readByte : BufReader β → Option (β × BufReader β)
  | ⟨b :: bs, ps⟩ => some (b, ⟨bs, ps⟩)
  | ⟨[], []⟩ => none
  | ⟨[], p :: ps⟩ => some (p.1.head p.2, ⟨p.1.tail, ps⟩)

/-- `io.ReadFull` of `n` elements: none if the source ends first. -/
def fill : ℕ → List β → List (Piece β) → Option (List β × BufReader β)
  | n, buf, [] => if n ≤ buf.length then some (buf.take n, ⟨buf.drop n, []⟩) else none
  | n, buf, p :: ps =>
    if n ≤ buf.length then some (buf.take n, ⟨buf.drop n, p :: ps⟩)
    else (fill (n - buf.length) p.1 ps).map fun q ↦ (buf ++ q.1, q.2)

@[inherit_doc fill]
def readFull (r : BufReader β) (n : ℕ) : Option (List β × BufReader β) := fill n r.buffered r.pieces

variable [DecidableEq β]

/-- Everything up to the delimiter, and whether it was found before the source ended. -/
def collect (d : β) : List β → List (Piece β) → List β × Bool × BufReader β
  | buf, [] =>
    if d ∈ buf then
      (buf.takeWhile (· ≠ d) ++ [d], true, ⟨(buf.dropWhile (· ≠ d)).tail, []⟩)
    else (buf, false, ⟨[], []⟩)
  | buf, p :: ps =>
    if d ∈ buf then
      (buf.takeWhile (· ≠ d) ++ [d], true, ⟨(buf.dropWhile (· ≠ d)).tail, p :: ps⟩)
    else
      (buf ++ (collect d p.1 ps).1, (collect d p.1 ps).2)

/-- `ReadString` -/
def readString (r : BufReader β) (d : β) : List β × Bool × BufReader β :=
  collect d r.buffered r.pieces

/-! ### The pieces do not matter -/

omit [DecidableEq β] in
theorem readByte_cases (r : BufReader β) :
    (r.unread = [] ∧ r.readByte = none) ∨
      ∃ b r', r.readByte = some (b, r') ∧ r.unread = b :: r'.unread := by
  rcases r with ⟨- | ⟨b, bs⟩, ps⟩
  · rcases ps with - | ⟨p, ps⟩
    · exact .inl ⟨rfl, rfl⟩
    · refine .inr ⟨_, _, rfl, ?_⟩
      rw [unread, unread, List.nil_append, delivered_cons, ← List.cons_append,
        List.cons_head_tail]
  · exact .inr ⟨b, ⟨bs, ps⟩, rfl, rfl⟩

variable {n : ℕ} {buf rest : List β} {ps : List (Piece β)} {r : BufReader β} {d : β}

omit [DecidableEq β] in
/-- As many bytes as asked for are read, however they are delivered. -/
private theorem fill_append {data : List β} (hn : data.length = n)
    (h : buf ++ delivered ps = data ++ rest) :
    ∃ r', fill n buf ps = some (data, r') ∧ r'.unread = rest := by
  induction ps generalizing n buf data with
  | nil =>
    rw [show delivered ([] : List (Piece β)) = [] from rfl, List.append_nil] at h
    refine ⟨⟨rest, []⟩, ?_, List.append_nil rest⟩
    rw [fill, h, ← hn, List.take_left, List.drop_left, if_pos (by simp)]
  | cons p ps ih =>
    rw [fill]
    by_cases hle : n ≤ buf.length
    · -- the buffer has enough
      obtain ⟨more, rfl⟩ : data <+: buf := List.prefix_of_prefix_length_le
        (h ▸ List.prefix_append data rest) (List.prefix_append buf _) (hn.trans_le hle)
      rw [if_pos hle, ← hn, List.take_left, List.drop_left]
      rw [List.append_assoc, List.append_cancel_left_eq] at h
      exact ⟨_, rfl, h⟩
    · obtain ⟨more, rfl⟩ : buf <+: data := List.prefix_of_prefix_length_le
        (List.prefix_append buf _) (h ▸ List.prefix_append data rest) (by omega)
      rw [delivered_cons, List.append_assoc, List.append_cancel_left_eq] at h
      rw [List.length_append] at hn
      obtain ⟨r', hfill, hunread⟩ := ih (by omega : more.length = n - buf.length) h
      rw [if_neg hle, hfill]
      exact ⟨r', rfl, hunread⟩

omit [DecidableEq β] in
private theorem fill_eq_none (h : (buf ++ delivered ps).length < n) : fill n buf ps = none := by
  induction ps generalizing n buf with
  | nil =>
    rw [show delivered ([] : List (Piece β)) = [] from rfl, List.append_nil] at h
    exact if_neg (not_le.2 h)
  | cons p ps ih =>
    rw [delivered_cons, List.length_append] at h
    rw [fill, if_neg (by omega), ih (by omega), Option.map_none]

omit [DecidableEq β] in
/-- As many elements as there are to be read. -/
theorem readFull_append {data : List β} (h : r.unread = data ++ rest) :
    ∃ r', r.readFull data.length = some (data, r') ∧ r'.unread = rest :=
  fill_append rfl h

omit [DecidableEq β] in
theorem readFull_eq_none (h : r.unread.length < n) : r.readFull n = none :=
  fill_eq_none h

/-- A text and its delimiter are collected, however they are delivered. -/
private theorem collect_append {name : List β} (hname : d ∉ name)
    (h : buf ++ delivered ps = name ++ d :: rest) :
    ∃ r', collect d buf ps = (name ++ [d], true, r') ∧ r'.unread = rest := by
  -- where the delimiter is buffered, it is the first one there
  have hbuffered : ∀ {buf : List β} {ps : List (Piece β)} {name : List β}, d ∉ name →
      buf ++ delivered ps = name ++ d :: rest → d ∈ buf →
        buf.takeWhile (· ≠ d) = name ∧ (buf.dropWhile (· ≠ d)).tail ++ delivered ps = rest := by
    intro buf ps name hname h hd
    have hpart : name ++ [d] <+: buf := by
      rcases List.append_eq_append_iff.1 h with ⟨mid, rfl, -⟩ | ⟨mid, rfl, hmid⟩
      · exact absurd (List.mem_append_left mid hd) hname
      · rcases mid with - | ⟨x, mid⟩
        · exact absurd (by simpa using hd) hname
        · obtain ⟨rfl, -⟩ := List.cons_eq_cons.1 hmid
          exact ⟨mid, by simp⟩
    obtain ⟨more, rfl⟩ := hpart
    have hne : ∀ c ∈ name, decide (c ≠ d) = true := fun c hc ↦
      decide_eq_true fun heq ↦ hname (heq ▸ hc)
    have hrest : more ++ delivered ps = rest := by simpa using h
    rw [List.append_assoc, List.takeWhile_append_of_pos hne, List.dropWhile_append_of_pos hne]
    simpa using hrest
  induction ps generalizing buf name with
  | nil =>
    have hd : d ∈ buf := by
      rw [show delivered ([] : List (Piece β)) = [] from rfl, List.append_nil] at h
      exact h ▸ List.mem_append_right _ List.mem_cons_self
    obtain ⟨hpre, hrest⟩ := hbuffered hname h hd
    rw [collect, if_pos hd, hpre]
    exact ⟨_, rfl, hrest⟩
  | cons p ps ih =>
    rw [collect]
    by_cases hd : d ∈ buf
    · obtain ⟨hpre, hrest⟩ := hbuffered hname h hd
      rw [if_pos hd, hpre]
      exact ⟨_, rfl, hrest⟩
    · obtain ⟨more, rfl⟩ : buf <+: name := by
        rcases List.append_eq_append_iff.1 h with ⟨mid, rfl, -⟩ | ⟨mid, rfl, hmid⟩
        · exact List.prefix_append buf mid
        · rcases mid with - | ⟨x, mid⟩
          · exact ⟨[], by simp⟩
          · obtain ⟨rfl, -⟩ := List.cons_eq_cons.1 hmid
            exact absurd (List.mem_append_right name List.mem_cons_self) hd
      rw [delivered_cons, List.append_assoc, List.append_cancel_left_eq] at h
      obtain ⟨r', hcollect, hunread⟩ := ih (fun hm ↦ hname (List.mem_append_right buf hm)) h
      rw [if_neg hd, hcollect]
      exact ⟨r', by rw [List.append_assoc], hunread⟩

private theorem collect_of_notMem (h : d ∉ buf ++ delivered ps) :
    collect d buf ps = (buf ++ delivered ps, false, ⟨[], []⟩) := by
  induction ps generalizing buf with
  | nil =>
    rw [show delivered ([] : List (Piece β)) = [] from rfl, List.append_nil] at h ⊢
    exact if_neg h
  | cons p ps ih =>
    obtain ⟨hbuf, hrest⟩ := not_or.1 fun hm ↦ h (List.mem_append.2 hm)
    rw [collect, if_neg hbuf, ih (by rwa [delivered_cons] at hrest)]
    rfl

/-- The elements up to the first delimiter. -/
theorem readString_append {name : List β} (hname : d ∉ name) (h : r.unread = name ++ d :: rest) :
    ∃ r', r.readString d = (name ++ [d], true, r') ∧ r'.unread = rest :=
  collect_append hname h

/-- Without a delimiter, everything there is. -/
theorem readString_of_notMem (h : d ∉ r.unread) : r.readString d = (r.unread, false, ⟨[], []⟩) :=
  collect_of_notMem h

end BufReader
