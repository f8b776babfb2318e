import Isle.Xuser.ColonFile
import Isle.Go.Strconv

/-!
# Looking up a user

`LookupUser` and `LookupUserId` of `pkg/xuser/lookup.go`, which take the first row of a
`/etc/passwd` with a given name or id.

A row is passed on once it has six colons, and the seventh field, the shell, is behind the sixth. So
of a line that is longer than the buffer **the shell may be cut short**, and that is all
(`recordOf_cut`). The rest of a long comment may have a row for the name as well. Otherwise a lookup
is that of the first whole line with a record for the name (`lookupUser_eq_recordIn_iff`).
-/

open Lines Text

namespace Xuser

/-- A user, as the row has it. -/
structure User where
  uid : Bytes
  gid : Bytes
  username : Bytes
  name : Bytes
  homeDir : Bytes
  shell : Bytes
  deriving DecidableEq, Repr

/-- A name that begins with it is for NIS. -/
def plus : UInt8 := 0x2B

/-- So is one that begins with this. -/
def minus : UInt8 := 0x2D

/-- What is between the parts of the name of a person. -/
def comma : UInt8 := 0x2C

/-- `strconv.Atoi`, where an `int` has 64 bits. -/
def atoi (s : Bytes) : Except Strconv.NumError Int64 :=
  Strconv.parseInt (s.map fun b ↦ Char.ofNat b.toNat)

/-- `strconv.Atoi` has no error. -/
def IsInteger (s : Bytes) : Prop := (atoi s).toOption.isSome = true

instance (s : Bytes) : Decidable (IsInteger s) := inferInstanceAs (Decidable (_ = _))

/-- A name by which no row can be found: empty, or with a `+` or `-` in front. -/
def Unnamed (name : Bytes) : Prop :=
  name = [] ∨ name.head? = some plus ∨ name.head? = some minus

instance (name : Bytes) : Decidable (Unnamed name) := inferInstanceAs (Decidable (_ ∨ _))

/-- What a row is searched for before it is split. -/
def substr (value : Bytes) (idx : ℕ) : Bytes :=
  (if 0 < idx then [colon] else []) ++ value ++ [colon]

/-- A row with six colons has seven parts, so none of them is missing. -/
def matchUserIndexValue (value : Bytes) (idx : ℕ) (line : Bytes) : Option User :=
  if ¬ substr value idx <:+: line ∨ line.count colon < 6 then none
  else
    let parts := splitN colon 7 line
    let part i := parts.getD i []
    if parts.length < 6 ∨ part idx ≠ value ∨ Unnamed (part 0) then none
    else if ¬ IsInteger (part 2) then none
    else if ¬ IsInteger (part 3) then none
    else some
      { username := part 0
        uid := part 2
        gid := part 3
        name := cutBefore comma (part 4)
        homeDir := part 5
        shell := part 6 }

/-- Why a lookup has no result. -/
inductive LookupError (ε : Type*)
  /-- The file cannot be opened or read. -/
  | file (e : ε)
  | unknownUserId (id : Int64)
  | unknownUser (name : Bytes)
  | invalidUserId (uid : Bytes)
  | unknownGroupId (id : Bytes)
  | unknownGroup (name : Bytes)
  | panicked
  deriving DecidableEq, Repr

variable {V ε : Type*}

/-- A `lineFunc` that returns what `m` makes of a row, and skips the row if that is nothing. -/
def returning (m : Bytes → Option V) : LineFunc Unit V ε := fun _ line ↦
  match m line with
  | some v => .error (.value v)
  | none => .ok ()

/-- The first row that `m` takes, as the functions `find…` look for it. -/
def findFirst (r : Source ε) (m : Bytes → Option V) (readCols : ℕ) (unknown : LookupError ε) :
    Except (LookupError ε) V :=
  match readColonFile r (returning m) readCols () with
  | .error (.error e) => .error (.file e)
  | .error (.value v) => .ok v
  | .error .panicked => .error .panicked
  | .ok () => .error unknown

/-- The first user with an id. -/
def findUserId (uid : Bytes) (r : Source ε) : Except (LookupError ε) User :=
  match atoi uid with
  | .error _ => .error (.invalidUserId uid)
  | .ok i => findFirst r (matchUserIndexValue uid 2) 6 (.unknownUserId i)

/-- The first user with a name. -/
def findUsername (name : Bytes) (r : Source ε) : Except (LookupError ε) User :=
  findFirst r (matchUserIndexValue name 0) 6 (.unknownUser name)

/-- `os.Open`, and what is done with the file. -/
def withFile (file : Except ε (Source ε)) (k : Source ε → Except (LookupError ε) V) :
    Except (LookupError ε) V :=
  match file with
  | .error e => .error (.file e)
  | .ok r => k r

/-- The first user of the file with a name. -/
def lookupUser (userFile : Except ε (Source ε)) (username : Bytes) : Except (LookupError ε) User :=
  withFile userFile (findUsername username)

/-- The first user of the file with an id. -/
def lookupUserId (userFile : Except ε (Source ε)) (uid : Bytes) : Except (LookupError ε) User :=
  withFile userFile (findUserId uid)

theorem foldlM_returning (m : Bytes → Option V) (rs : List Bytes) :
    rs.foldlM (returning m : LineFunc Unit V ε) () =
      match rs.findSome? m with
      | some v => .error (.value v)
      | none => .ok () := by
  induction rs with
  | nil => rfl
  | cons r rs ih =>
    rw [List.foldlM_cons, List.findSome?_cons, returning]
    cases m r with
    | none => exact ih
    | some v => rfl

/-- **A lookup takes the first of the rows.** -/
theorem findFirst_eq (r : Source ε) (m : Bytes → Option V) (readCols : ℕ)
    (unknown : LookupError ε) :
    findFirst r m readCols unknown =
      match (rows readCols r.bytes).findSome? m, r.err with
      | some v, _ => .ok v
      | none, none => .error unknown
      | none, some e => .error (.file e) := by
  rw [findFirst, readColonFile_eq, foldlM_returning]
  cases (rows readCols r.bytes).findSome? m with
  | some v => rfl
  | none => cases r.err <;> rfl

/-! ### Whole lines -/

/-- The record of seven fields, if it is that of a name. -/
def recordOf (name : Bytes) : List Bytes → Option User
  | [username, _, uid, gid, gecos, homeDir, shell] =>
    if username = name ∧ ¬ Unnamed username ∧ IsInteger uid ∧ IsInteger gid then
      some ⟨uid, gid, username, cutBefore comma gecos, homeDir, shell⟩
    else none
  | _ => none

/-- The record for a name in a line of a file, which is none if the line is blank or a comment. -/
def lineRecord (name l : Bytes) : Option User :=
  if Ignored (trimSpace l) then none else recordOf name (splitN colon 7 (trimSpace l))

theorem recordOf_of_length_ne {name : Bytes} {fields : List Bytes} (h : fields.length ≠ 7) :
    recordOf name fields = none := by
  unfold recordOf
  split
  · exact absurd rfl h
  · rfl

theorem substr_infix_of_splitN {line a b : Bytes} {parts : List Bytes} {n : ℕ}
    (h : splitN colon (n + 2) line = a :: b :: parts) : substr a 0 <:+: line := by
  obtain ⟨t, rfl⟩ := exists_append_of_splitN h
  exact ⟨[], t, by simp [substr]⟩

/-- `matchUserIndexValue` takes the rows with a record. -/
theorem matchUserIndexValue_zero (name line : Bytes) :
    matchUserIndexValue name 0 line = recordOf name (splitN colon 7 line) := by
  have hlen : (splitN colon 7 line).length = min (line.count colon) 6 + 1 := length_splitN 6 line
  rw [matchUserIndexValue]
  by_cases hcount : line.count colon < 6
  · rw [if_pos (.inr hcount), recordOf_of_length_ne (by omega)]
  · obtain ⟨a, b, c, d, e, f, g, hparts⟩ :
        ∃ a b c d e f g, splitN colon 7 line = [a, b, c, d, e, f, g] := by
      match splitN colon 7 line, (show (splitN colon 7 line).length = 7 by omega) with
      | [a, b, c, d, e, f, g], _ => exact ⟨a, b, c, d, e, f, g, rfl⟩
    simp only [hparts, recordOf, List.length_cons, List.getD_cons_zero, List.getD_cons_succ]
    by_cases ha : a = name
    · subst ha
      have hsub : substr a 0 <:+: line := substr_infix_of_splitN hparts
      rw [if_neg (by simp [hsub, hcount])]
      by_cases hnamed : Unnamed a <;> by_cases huid : IsInteger c <;>
        by_cases hgid : IsInteger d <;> simp [hnamed, huid, hgid]
    · simp [ha]

theorem isInteger_of_recordOf {name : Bytes} {fields : List Bytes} {u : User}
    (h : recordOf name fields = some u) : IsInteger u.uid ∧ IsInteger u.gid := by
  unfold recordOf at h
  split at h
  · split_ifs at h with hrow
    rw [← Option.some.inj h]
    exact hrow.2.2
  · cases h

/-- The user that is found has integers as ids. -/
theorem isInteger_of_lookupUser {userFile : Except ε (Source ε)} {name : Bytes} {u : User}
    (h : lookupUser userFile name = .ok u) : IsInteger u.uid ∧ IsInteger u.gid := by
  rcases userFile with e | r
  · cases h
  · rw [lookupUser, withFile, findUsername, findFirst_eq] at h
    cases hfind : (rows 6 r.bytes).findSome? (matchUserIndexValue name 0) with
    | none => cases herr : r.err <;> simp [hfind, herr] at h
    | some v =>
      obtain ⟨row, -, hrow⟩ := List.exists_of_findSome?_eq_some hfind
      rw [matchUserIndexValue_zero] at hrow
      rw [hfind] at h
      rw [← Except.ok.inj h]
      exact isInteger_of_recordOf hrow

/-! ### What is cut off -/

/-- The shell is the only field that what is behind the sixth colon is part of. -/
theorem recordOf_concat (name : Bytes) (fields : List Bytes) :
    ∃ o : Option User, ∀ shell, recordOf name (fields ++ [shell]) =
      o.map fun u ↦ { u with shell := shell } := by
  by_cases hlen : fields.length = 6
  · match fields, hlen with
    | [a, b, c, d, e, f], _ =>
      simp only [List.cons_append, List.nil_append, recordOf]
      by_cases h : a = name ∧ ¬ Unnamed a ∧ IsInteger c ∧ IsInteger d
      · exact ⟨some ⟨c, d, a, cutBefore comma e, f, []⟩, fun shell ↦ by rw [if_pos h]; rfl⟩
      · exact ⟨none, fun shell ↦ by rw [if_neg h]; rfl⟩
  · refine ⟨none, fun shell ↦ recordOf_of_length_ne ?_⟩
    rw [List.length_append, List.length_singleton]
    omega

/-- **The records of a line and of what was read of it** are for the same names, and they are the
same if there is only white space behind it. -/
theorem recordOf_cut (name : Bytes) {h : Bytes} (hcount : 6 ≤ h.count colon) (t : Bytes) :
    (recordOf name (splitN colon 7 (trimSpace h)) = none ↔
      recordOf name (splitN colon 7 (trimSpace (h ++ t))) = none) ∧
    (recordOf name (splitN colon 7 (trimSpace (h ++ t))) ≠ none →
      (recordOf name (splitN colon 7 (trimSpace h)) =
        recordOf name (splitN colon 7 (trimSpace (h ++ t))) ↔ IsBlank t)) := by
  obtain ⟨q, s, rfl, hq⟩ := exists_append_of_count hcount
  have htrim : ∀ z, trimSpace (q ++ colon :: z) =
      Trim.trimLeft spaces q ++ colon :: Trim.trimRight spaces z :=
    Trim.trim_append_cons isBicode_spaces colon_not_mem_spaces q
  have hq' : (Trim.trimLeft spaces q).count colon = 5 := by
    rw [Trim.count_trimLeft isBicode_spaces.left colon_not_mem_spaces, hq]
  obtain ⟨o, ho⟩ := recordOf_concat name ((Trim.trimLeft spaces q).splitOn colon)
  rw [List.append_assoc, List.cons_append, htrim, htrim, splitN_append_of_count hq',
    splitN_append_of_count hq', ho, ho, isBlank_iff,
    ← Trim.trimRight_append_eq_iff (l := s) isBicode_spaces]
  cases o with
  | none => simp
  | some u => simp [eq_comm]

/-! ### Lookups and whole lines -/

/-- The record for a name that is read from the rest of a comment. -/
def strayRecord (name l : Bytes) : Option User :=
  if Ignored (trimSpace l) then (stray 6 l).bind fun r ↦ recordOf name (splitN colon 7 r) else none

/-- The record for a name that a lookup finds in a line. -/
def foundRecord (name l : Bytes) : Option User :=
  (rowOf 6 l).bind (matchUserIndexValue name 0)

theorem foundRecord_eq (name l : Bytes) :
    foundRecord name l =
      if Ignored (trimSpace l) then strayRecord name l
      else recordOf name (splitN colon 7 (trimSpace (cut 6 l).1)) := by
  rw [foundRecord, rowOf_eq (by decide), strayRecord, funext (matchUserIndexValue_zero name)]
  split_ifs <;> rfl

/-- The lookup goes through the lines until it finds a record. -/
theorem findSome?_rows (name content : Bytes) :
    (rows 6 content).findSome? (matchUserIndexValue name 0) =
      (lines content).findSome? (foundRecord name) := by
  have hfew : ∀ r : Bytes, r.count colon < 6 → matchUserIndexValue name 0 r = none := fun r hr ↦ by
    rw [matchUserIndexValue, if_pos (.inr hr)]
  obtain ⟨init, last, hlines, hrows⟩ := exists_lines 6 content
  have hinit : (init.filterMap (rowOf 6)).findSome? (matchUserIndexValue name 0) =
      init.findSome? (foundRecord name) := by
    rw [← List.head?_filterMap, List.filterMap_filterMap, List.head?_filterMap]
    rfl
  have hlast : (lastRowOf 6 last).toList.findSome? (matchUserIndexValue name 0) =
      foundRecord name last := by
    rw [foundRecord, ← lastRowOf_bind (by decide) hfew]
    cases lastRowOf 6 last <;> simp
  rw [hlines, hrows, List.findSome?_append, List.findSome?_append, hinit, hlast]
  simp

/-- What is found in a line, beside what is there. -/
theorem foundRecord_none_iff (name l : Bytes) :
    foundRecord name l = none ↔ lineRecord name l = none ∧ strayRecord name l = none := by
  rw [foundRecord_eq]
  by_cases hign : Ignored (trimSpace l)
  · simp [hign, lineRecord]
  · simp only [hign, if_false, lineRecord, strayRecord, and_true]
    rcases cut_cases 6 l with ⟨hcut, -⟩ | hcount
    · rw [hcut]
    · rw [(recordOf_cut name hcount (cut 6 l).2).1, cut_append]

/-- **A record is found as it is there exactly if the line was read, but for white space.** -/
theorem foundRecord_eq_lineRecord_iff {name l : Bytes} (hl : lineRecord name l ≠ none) :
    foundRecord name l = lineRecord name l ↔ IsBlank (cut 6 l).2 := by
  have hign : ¬ Ignored (trimSpace l) := fun h ↦ hl (by rw [lineRecord, if_pos h])
  rw [lineRecord, if_neg hign] at hl ⊢
  rw [foundRecord_eq, if_neg hign]
  rcases cut_cases 6 l with ⟨hcut, -⟩ | hcount
  · rw [hcut]
    exact iff_of_true rfl (show IsBlank [] by decide)
  · have hiff := (recordOf_cut name hcount (cut 6 l).2).2
    rw [cut_append] at hiff
    exact hiff hl

theorem of_strayRecord_ne_none {name l : Bytes} (hl : strayRecord name l ≠ none) :
    lineRecord name l = none ∧ foundRecord name l = strayRecord name l := by
  have hign : Ignored (trimSpace l) := by
    by_contra h
    exact hl (by rw [strayRecord, if_neg h])
  rw [lineRecord, if_pos hign, foundRecord_eq, if_pos hign]
  exact ⟨rfl, rfl⟩

/-- The first of some values, compared with the first of others: what counts is where one of the two
has a value first. -/
private theorem findSome?_eq_iff {α β : Type*} {f g : α → Option β} {xs : List α} :
    xs.findSome? f = xs.findSome? g ↔
      ∀ pre x post, xs = pre ++ x :: post → (∀ y ∈ pre, f y = none ∧ g y = none) →
        ¬ (f x = none ∧ g x = none) →
          (f x).or (post.findSome? f) = (g x).or (post.findSome? g) := by
  induction xs with
  | nil => simp
  | cons a xs ih =>
    have hcons : ∀ h : α → Option β, (a :: xs).findSome? h = (h a).or (xs.findSome? h) :=
      fun h ↦ by rw [List.findSome?_cons]; cases h a <;> rfl
    -- at the first element that either function finds something for
    by_cases ha : f a = none ∧ g a = none
    · rw [hcons, hcons, ha.1, ha.2, Option.none_or, Option.none_or, ih]
      constructor
      · intro h pre x post heq hpre hx
        rcases pre with - | ⟨b, pre⟩
        · obtain ⟨rfl, -⟩ := List.cons_eq_cons.1 heq
          exact absurd ha hx
        · obtain ⟨-, htail⟩ := List.cons_eq_cons.1 (heq.trans (List.cons_append ..))
          exact h pre x post htail (fun y hy ↦ hpre y (List.mem_cons_of_mem b hy)) hx
      · intro h pre x post heq hpre hx
        exact h (a :: pre) x post (by rw [heq, List.cons_append])
          (List.forall_mem_cons.2 ⟨ha, hpre⟩) hx
    · rw [hcons, hcons]
      constructor
      · intro h pre x post heq hpre hx
        rcases pre with - | ⟨b, pre⟩
        · obtain ⟨rfl, rfl⟩ := List.cons_eq_cons.1 heq
          exact h
        · obtain ⟨rfl, -⟩ := List.cons_eq_cons.1 (heq.trans (List.cons_append ..))
          exact absurd (hpre a List.mem_cons_self) ha
      · intro h
        exact h [] a xs rfl (by simp) ha

/-- **What a file has to be like for a lookup of a name to be that of its lines.** In the first line
with a record for the name, or with one in the rest of a comment, there is only white space behind
what is read; and if it is a comment, the first line with a record has the same. -/
def ReadInFull (name content : Bytes) : Prop :=
  ∀ pre l post, lines content = pre ++ l :: post →
    (∀ k ∈ pre, lineRecord name k = none ∧ strayRecord name k = none) →
      (lineRecord name l ≠ none → IsBlank (cut 6 l).2) ∧
      (strayRecord name l ≠ none → post.findSome? (lineRecord name) = strayRecord name l)

/-- The record of the first line with one for the name. -/
def recordIn (name content : Bytes) : Except (LookupError ε) User :=
  match (lines content).findSome? (lineRecord name) with
  | some u => .ok u
  | none => .error (.unknownUser name)

/-- The first record found is the first there is, exactly if it is read in full. -/
theorem findSome?_foundRecord_iff (name content : Bytes) :
    (lines content).findSome? (foundRecord name) = (lines content).findSome? (lineRecord name) ↔
      ReadInFull name content := by
  rw [findSome?_eq_iff]
  refine forall_congr' fun pre ↦ forall_congr' fun l ↦ forall_congr' fun post ↦
    forall_congr' fun _ ↦ ?_
  have hnone : ∀ k, (foundRecord name k = none ∧ lineRecord name k = none) ↔
      lineRecord name k = none ∧ strayRecord name k = none := fun k ↦ by
    rw [foundRecord_none_iff]
    tauto
  simp only [hnone]
  refine forall_congr' fun _ ↦ ?_
  by_cases hline : lineRecord name l = none
  · by_cases hstray : strayRecord name l = none
    · simp [hline, hstray]
    · -- a comment is in front of the lines with a record
      obtain ⟨u, hu⟩ := Option.ne_none_iff_exists'.1 hstray
      simp [hline, (of_strayRecord_ne_none hstray).2, hu, eq_comm]
  · have hstray : strayRecord name l = none := by
      by_contra h
      exact hline (of_strayRecord_ne_none h).1
    obtain ⟨u, hu⟩ := Option.ne_none_iff_exists'.1 hline
    obtain ⟨v, hv⟩ := Option.ne_none_iff_exists'.1 fun h ↦
      hline ((foundRecord_none_iff name l).1 h).1
    have hiff := foundRecord_eq_lineRecord_iff hline
    rw [hu, hv] at hiff
    simp only [hu, hv, hstray, Option.some_or, hiff]
    simp

theorem lookupUser_eq (name content : Bytes) :
    lookupUser (.ok ⟨content, none⟩ : Except ε (Source ε)) name =
      match (lines content).findSome? (foundRecord name) with
      | some u => .ok u
      | none => .error (.unknownUser name) := by
  rw [lookupUser, withFile, findUsername, findFirst_eq, findSome?_rows]
  cases (lines content).findSome? (foundRecord name) <;> rfl

/-- **A lookup is that of the first whole line with a record exactly if the file is read in full as
far as that.** -/
theorem lookupUser_eq_recordIn_iff (name content : Bytes) :
    lookupUser (.ok ⟨content, none⟩ : Except ε (Source ε)) name = recordIn name content ↔
      ReadInFull name content := by
  rw [lookupUser_eq, recordIn, ← findSome?_foundRecord_iff]
  cases (lines content).findSome? (foundRecord name) <;>
    cases (lines content).findSome? (lineRecord name) <;> simp

/-- A long display name. -/
def longName : Bytes := List.replicate 4067 0x61

/-- A row for `bob` with a display name so long that there is only room for a part of the shell in
the buffer. -/
def longRow (shell : Bytes) : Bytes :=
  ascii "bob" ++ colon :: (ascii "x" ++ colon :: (ascii "501" ++ colon :: (ascii "20" ++ colon ::
    (longName ++ colon :: (ascii "/home/bob" ++ colon :: shell)))))

/-- The user that a row is the record of, but for the shell. -/
def bob (shell : Bytes) : User :=
  ⟨ascii "501", ascii "20", ascii "bob", longName, ascii "/home/bob", shell⟩

theorem not_mem_longName {b : UInt8} (h : b ≠ 0x61) : b ∉ longName :=
  fun hb ↦ h (List.eq_of_mem_replicate hb)

theorem trimSpace_longRow (shell : Bytes) :
    trimSpace (longRow shell) = longRow (Trim.trimRight spaces shell) := by
  have hright := Trim.trimRight_append_cons isBicode_spaces colon_not_mem_spaces
  rw [trimSpace, longRow, Trim.trim_append_cons isBicode_spaces colon_not_mem_spaces, hright,
    hright, hright, hright, hright]
  rfl

theorem recordOf_longRow (shell : Bytes) :
    recordOf (ascii "bob") (splitN colon 7 (longRow shell)) = some (bob shell) := by
  rw [longRow, splitN_append (by decide), splitN_append (by decide), splitN_append (by decide),
    splitN_append (by decide), splitN_append (not_mem_longName (by decide)),
    splitN_append (by decide), splitN, recordOf, if_pos (by decide), longName, cutBefore,
    List.takeWhile_replicate, if_pos (by decide)]
  rfl

theorem longRow_append (s t : Bytes) : longRow (s ++ t) = longRow s ++ t := by
  simp [longRow]

theorem count_longRow (s : Bytes) : (longRow s).count colon = s.count colon + 6 := by
  have hfields : (ascii "bob").count colon = 0 ∧ (ascii "x").count colon = 0 ∧
      (ascii "501").count colon = 0 ∧ (ascii "20").count colon = 0 ∧
      (ascii "/home/bob").count colon = 0 := by decide
  have hname : longName.count colon = 0 :=
    List.count_eq_zero_of_not_mem (not_mem_longName (by decide))
  obtain ⟨h₁, h₂, h₃, h₄, h₅⟩ := hfields
  simp only [longRow, List.count_append, List.count_cons_self, h₁, h₂, h₃, h₄, h₅, hname]
  omega

/-- The buffer is full when a part of the shell is in it. -/
theorem cut_longRow {rest : Bytes} (h : rest.length < bufSize) :
    cut 6 (longRow (ascii "/bin/" ++ rest)) = (longRow (ascii "/bin/"), rest) := by
  have hsplit : longRow (ascii "/bin/" ++ rest) = longRow (ascii "/bin") ++ 0x2F :: rest := by
    rw [← longRow_append]
    rfl
  have hlen : (longRow (ascii "/bin")).length + 1 = bufSize := by
    simp only [longRow, longName, List.length_append, List.length_cons, List.length_replicate]
    decide
  rw [cut, hsplit, chunks_append hlen (by decide), chunks_of_length_lt h]
  have hread : longRow (ascii "/bin") ++ [0x2F] = longRow (ascii "/bin/") := by
    rw [← longRow_append]
    rfl
  simp only [cutFrom, List.nil_append, hread, count_longRow]
  rw [if_neg (by omega)]
  rfl

theorem longRow_not_ignored (s : Bytes) : ¬ Ignored (trimSpace (longRow s)) := by
  rw [trimSpace_longRow]
  rintro (h | h)
  · cases h
  · exact absurd (Option.some.inj h) (by decide)

theorem newline_not_mem_longRow {s : Bytes} (hs : newline ∉ s) : newline ∉ longRow s := by
  have hfields : newline ∉ ascii "bob" ∧ newline ∉ ascii "x" ∧ newline ∉ ascii "501" ∧
      newline ∉ ascii "20" ∧ newline ∉ ascii "/home/bob" ∧ newline ≠ colon := by decide
  have hname : newline ∉ longName := not_mem_longName (by decide)
  simp only [longRow, List.mem_append, List.mem_cons, hfields, hname, hs, or_self, not_false_iff]

private theorem lookupUser_longRow :
    lookupUser (.ok ⟨longRow (ascii "/bin/zsh") ++ [newline], none⟩ : Except Unit (Source Unit))
        (ascii "bob") = .ok (bob (ascii "/bin/")) ∧
      recordIn (ε := Unit) (ascii "bob") (longRow (ascii "/bin/zsh") ++ [newline]) =
        .ok (bob (ascii "/bin/zsh")) := by
  have hlines : lines (longRow (ascii "/bin/zsh") ++ [newline]) =
      [longRow (ascii "/bin/zsh"), []] :=
    List.splitOn_append_cons_self_of_not_mem (newline_not_mem_longRow (by decide)) []
  have hign := longRow_not_ignored (ascii "/bin/zsh")
  have hcut : cut 6 (longRow (ascii "/bin/zsh")) = (longRow (ascii "/bin/"), ascii "zsh") :=
    cut_longRow (by decide)
  constructor
  · have hfound : foundRecord (ascii "bob") (longRow (ascii "/bin/zsh")) =
        some (bob (ascii "/bin/")) := by
      rw [foundRecord_eq, if_neg hign, hcut, trimSpace_longRow, recordOf_longRow]
      rfl
    rw [lookupUser_eq, hlines, List.findSome?_cons, hfound]
  · have hline : lineRecord (ascii "bob") (longRow (ascii "/bin/zsh")) =
        some (bob (ascii "/bin/zsh")) := by
      rw [lineRecord, if_neg hign, trimSpace_longRow, recordOf_longRow]
      rfl
    rw [recordIn, hlines, List.findSome?_cons, hline]

/-- `bob` has the shell `/bin/zsh`, and is found with `/bin/`. -/
theorem lookupUser_cuts_shell :
    lookupUser (.ok ⟨longRow (ascii "/bin/zsh") ++ [newline], none⟩ : Except Unit (Source Unit))
        (ascii "bob") = .ok (bob (ascii "/bin/")) ∧
      lookupUser (.ok ⟨longRow (ascii "/bin/zsh") ++ [newline], none⟩ : Except Unit (Source Unit))
        (ascii "bob") ≠ recordIn (ascii "bob") (longRow (ascii "/bin/zsh") ++ [newline]) := by
  obtain ⟨hfound, hthere⟩ := lookupUser_longRow
  refine ⟨hfound, fun heq ↦ ?_⟩
  have hshell := congrArg User.shell (Except.ok.inj (hfound.symm.trans (heq.trans hthere)))
  exact absurd (show ascii "/bin/" = ascii "/bin/zsh" from hshell) (by decide)

end Xuser
