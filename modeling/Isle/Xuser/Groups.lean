import Isle.Xuser.Users

/-!
# Looking up groups

`LookupGroup`, `LookupGroupId` and `LookupAdditionalGroups` of `pkg/xuser/lookup.go`. The first two
take the first row of an `/etc/group` that fits; the last goes through all of them and collects the
groups of those that list a user.

It **indexes the fields of a row before it counts them**, and takes rows that the other two skip
(`skipsMalformed_iff`). It needs the whole of every line, and asks for more colons than there are:
then only **a last line that ends with a full buffer** is lost, and what is read from the rest of a
long comment is added (`lookupAdditionalGroups_eq_lines_iff`).
-/

open Lines Text

namespace Xuser

/-- A group, as far as it was asked for. -/
structure Group where
  gid : Bytes
  name : Bytes
  members : List Bytes
  deriving DecidableEq, Repr

/-- The part of a row at an index, which is empty if there is none. -/
def part (line : Bytes) (i : ℕ) : Bytes := (splitN colon 4 line).getD i []

/-- The group of a row that has the value at an index. -/
def matchGroupIndexValue (value : Bytes) (idx : ℕ) (line : Bytes) : Option Group :=
  if ¬ substr value idx <:+: line ∨ line.count colon < 3 then none
  else if (splitN colon 4 line).length < 4 ∨ part line idx ≠ value ∨ Unnamed (part line 0) then none
  else if ¬ IsInteger (part line 2) then none
  else some { name := part line 0, gid := part line 2, members := [] }

variable {σ V ε : Type*}

/-- It indexes the parts of a row before it knows how many there are. -/
def iterateGroupIndexValue (fn : σ → Group → Except ε σ) : LineFunc σ V ε := fun s line ↦
  let parts := splitN colon 4 line
  match parts[2]? with
  | none => .error .panicked
  | some gid =>
    if ¬ IsInteger gid then .ok s
    else
      match parts[3]? with
      | none => .error .panicked
      | some list => (fn s ⟨gid, part line 0, split comma list⟩).mapError .error

/-- The first group with an id. -/
def findGroupId (id : Bytes) (r : Source ε) : Except (LookupError ε) Group :=
  findFirst r (matchGroupIndexValue id 2) 3 (.unknownGroupId id)

/-- The first group with a name. -/
def findGroupName (name : Bytes) (r : Source ε) : Except (LookupError ε) Group :=
  findFirst r (matchGroupIndexValue name 0) 3 (.unknownGroup name)

/-- The first group of the file with a name. -/
def lookupGroup (groupFile : Except ε (Source ε)) (groupname : Bytes) :
    Except (LookupError ε) Group :=
  withFile groupFile (findGroupName groupname)

/-- The first group of the file with an id. -/
def lookupGroupId (groupFile : Except ε (Source ε)) (id : Bytes) : Except (LookupError ε) Group :=
  withFile groupFile (findGroupId id)

/-- The function that `LookupAdditionalGroups` calls for the groups. -/
def addGroup (username : Bytes) (ret : List Group) (grp : Group) : Except ε (List Group) :=
  .ok (if grp.members.contains username then ret ++ [grp] else ret)

/-- The groups of the file that list a user. -/
def lookupAdditionalGroups (groupFile : Except ε (Source ε)) (username : Bytes) :
    Except (LookupError ε) (List Group) :=
  withFile groupFile fun f ↦
    match readColonFile f (V := Empty) (iterateGroupIndexValue (addGroup username)) 4 [] with
    | .error (.error e) => .error (.file e)
    | .error .panicked => .error .panicked
    | .ok ret => .ok ret

/-! ### Rows -/

/-- A row with too few parts: `iterateGroupIndexValue` indexes one that is not there. -/
def Short (line : Bytes) : Prop :=
  line.count colon < 2 ∨ line.count colon = 2 ∧ IsInteger (part line 2)

instance (line : Bytes) : Decidable (Short line) := inferInstanceAs (Decidable (_ ∨ _))

/-- The group of a row. -/
def groupOf (line : Bytes) : Option Group :=
  if 3 ≤ line.count colon ∧ IsInteger (part line 2) then
    some ⟨part line 2, part line 0, split comma (part line 3)⟩
  else none

/-- A row that is an entry: of four parts, with a name, and a number as its third. -/
def WellFormed (line : Bytes) : Prop :=
  3 ≤ line.count colon ∧ ¬ Unnamed (part line 0) ∧ IsInteger (part line 2)

instance (line : Bytes) : Decidable (WellFormed line) := inferInstanceAs (Decidable (_ ∧ _))

/-- The group of a row, if it lists a user. -/
def listed (username line : Bytes) : Option Group :=
  (groupOf line).filter fun g ↦ g.members.contains username

private theorem length_parts (line : Bytes) :
    (splitN colon 4 line).length = min (line.count colon) 3 + 1 := length_splitN 3 line

private theorem getElem?_parts (line : Bytes) (i : ℕ) (hi : i < 4) :
    (splitN colon 4 line)[i]? = if i ≤ line.count colon then some (part line i) else none := by
  have hlen := length_parts line
  split_ifs with h
  · rw [part, List.getD_eq_getElem?_getD, List.getElem?_eq_getElem (by omega), Option.getD_some]
  · exact List.getElem?_eq_none (by omega)

/-- **What `iterateGroupIndexValue` does with a row.** -/
theorem iterateGroupIndexValue_eq (fn : σ → Group → Except ε σ) (s : σ) (line : Bytes) :
    (iterateGroupIndexValue fn : LineFunc σ V ε) s line =
      if Short line then .error .panicked
      else
        match groupOf line with
        | none => .ok s
        | some g => (fn s g).mapError .error := by
  rw [iterateGroupIndexValue, getElem?_parts line 2 (by decide), getElem?_parts line 3 (by decide),
    groupOf]
  by_cases h₂ : 2 ≤ line.count colon
  · rw [if_pos h₂]
    dsimp only
    by_cases hgid : IsInteger (part line 2)
    · rw [if_neg (not_not.2 hgid)]
      by_cases h₃ : 3 ≤ line.count colon
      · rw [if_pos h₃, if_neg (show ¬ Short line from fun h ↦ by unfold Short at h; omega),
          if_pos ⟨h₃, hgid⟩]
      · rw [if_neg h₃, if_pos (show Short line from .inr ⟨by omega, hgid⟩)]
    · have hshort : ¬ Short line := by
        rintro (h | h)
        · omega
        · exact hgid h.2
      rw [if_pos hgid, if_neg hshort, if_neg fun h ↦ hgid h.2]
  · rw [if_neg h₂, if_pos (show Short line from .inl (by omega))]

/-- The groups that list the user are collected, unless a row is short. -/
theorem foldlM_addGroup (username : Bytes) (rs : List Bytes) (ret : List Group) :
    rs.foldlM (iterateGroupIndexValue (addGroup username) : LineFunc _ Empty ε) ret =
      if ∃ r ∈ rs, Short r then .error .panicked
      else .ok (ret ++ rs.filterMap (listed username)) := by
  induction rs generalizing ret with
  | nil => simp [pure, Except.pure]
  | cons r rs ih =>
    rw [List.foldlM_cons, iterateGroupIndexValue_eq]
    by_cases hshort : Short r
    · rw [if_pos hshort, if_pos ⟨r, List.mem_cons_self, hshort⟩]
      rfl
    · have hex : (∃ r' ∈ r :: rs, Short r') ↔ ∃ r' ∈ rs, Short r' := by simp [hshort]
      rw [if_neg hshort, if_congr hex rfl rfl, List.filterMap_cons, listed]
      rcases groupOf r with - | g
      · exact ih ret
      · by_cases hmem : username ∈ g.members
        · refine (ih _).trans ?_
          simp [hmem, Option.filter]
        · refine (ih _).trans ?_
          simp [hmem, Option.filter]

/-- **`LookupAdditionalGroups` collects the groups of the rows.** -/
theorem lookupAdditionalGroups_eq (r : Source ε) (username : Bytes) :
    lookupAdditionalGroups (.ok r) username =
      if ∃ row ∈ rows 4 r.bytes, Short row then .error .panicked
      else
        match r.err with
        | none => .ok ((rows 4 r.bytes).filterMap (listed username))
        | some e => .error (.file e) := by
  rw [lookupAdditionalGroups, withFile, readColonFile_eq, foldlM_addGroup]
  split_ifs
  · rfl
  · cases r.err <;> rfl

/-- The groups that are found have integers as ids. -/
theorem isInteger_of_lookupAdditionalGroups {groupFile : Except ε (Source ε)} {username : Bytes}
    {groups : List Group} (h : lookupAdditionalGroups groupFile username = .ok groups) :
    ∀ g ∈ groups, IsInteger g.gid := by
  rcases groupFile with e | r
  · cases h
  · rw [lookupAdditionalGroups_eq] at h
    split_ifs at h
    cases herr : r.err with
    | some e => simp [herr] at h
    | none =>
      rw [herr] at h
      rw [← Except.ok.inj h]
      intro g hg
      obtain ⟨row, -, hrow⟩ := List.mem_filterMap.1 hg
      have hgroup := (Option.filter_eq_some_iff.1 hrow).1
      rw [groupOf] at hgroup
      split_ifs at hgroup with hint
      rw [← Option.some.inj hgroup]
      exact hint.2

/-! ### Malformed rows -/

section FilterMap

variable {α β : Type*} {f g : α → Option β} {xs : List α} {x : β}

private theorem filterMap_toList (f : α → Option β) (o : Option α) :
    o.toList.filterMap f = (o.bind f).toList := by
  cases o with
  | none => rfl
  | some a => cases h : f a <;> simp [h]

private theorem length_filterMap_le (h : ∀ a ∈ xs, f a = g a ∨ g a = none) :
    (xs.filterMap g).length ≤ (xs.filterMap f).length := by
  induction xs with
  | nil => exact le_rfl
  | cons a xs ih =>
    obtain ⟨ha, hxs⟩ := List.forall_mem_cons.1 h
    rw [List.filterMap_cons, List.filterMap_cons]
    rcases ha with ha | ha
    · rw [ha]
      cases g a with
      | none => exact ih hxs
      | some b => exact Nat.succ_le_succ (ih hxs)
    · rw [ha]
      cases f a with
      | none => exact ih hxs
      | some b => exact (ih hxs).trans (Nat.le_succ _)

/-- Where there is a value less, the list is shorter. -/
private theorem length_filterMap_eq_iff (h : ∀ a ∈ xs, f a = g a ∨ g a = none) :
    (xs.filterMap g).length = (xs.filterMap f).length ↔ ∀ a ∈ xs, f a = g a := by
  induction xs with
  | nil => simp
  | cons a xs ih =>
    obtain ⟨ha, hxs⟩ := List.forall_mem_cons.1 h
    have hle := length_filterMap_le hxs
    rw [List.filterMap_cons, List.filterMap_cons, List.forall_mem_cons, ← ih hxs]
    rcases ha with ha | ha
    · rw [ha]
      cases g a <;> simp
    · rw [ha]
      cases f a with
      | none => simp
      | some b =>
        simp only [List.length_cons, reduceCtorEq, false_and, iff_false]
        omega

private theorem filterMap_eq_iff (h : ∀ a ∈ xs, f a = g a ∨ g a = none) :
    xs.filterMap f = xs.filterMap g ↔ ∀ a ∈ xs, f a = g a := by
  refine ⟨fun heq ↦ (length_filterMap_eq_iff h).1 (by rw [heq]), fun hall ↦ ?_⟩
  exact List.filterMap_congr hall

private theorem cons_eq_concat_iff {y : β} {l : List β} :
    y :: l = l ++ [x] ↔ y = x ∧ ∀ z ∈ l, z = x := by
  induction l generalizing y with
  | nil => simp
  | cons a l ih =>
    rw [List.cons_append, List.cons_eq_cons, ih, List.forall_mem_cons]
    constructor
    · rintro ⟨rfl, h⟩
      exact ⟨h.1, h⟩
    · rintro ⟨rfl, h⟩
      exact ⟨h.1.symm, h⟩

/-- One value too many in front of one too few: they make up for one another if all that is between
them is the same. -/
private theorem filterMap_eq_concat_iff (h : ∀ a ∈ xs, f a = g a ∨ g a = none) :
    xs.filterMap f = xs.filterMap g ++ [x] ↔
      ∃ pre c post, xs = pre ++ c :: post ∧ g c = none ∧ f c = some x ∧
        (∀ a ∈ pre ++ post, f a = g a) ∧ ∀ a ∈ post, ∀ y, g a = some y → y = x := by
  constructor
  · intro heq
    induction xs with
    | nil => simp at heq
    | cons a xs ih =>
      obtain ⟨ha, hxs⟩ := List.forall_mem_cons.1 h
      by_cases hfg : f a = g a
      · have htail : xs.filterMap f = xs.filterMap g ++ [x] := by
          rw [List.filterMap_cons, List.filterMap_cons, hfg] at heq
          cases hg : g a with
          | none => simpa [hg] using heq
          | some b => simpa [hg] using heq
        obtain ⟨pre, c, post, rfl, hc, hfc, hall, hpost⟩ := ih hxs htail
        exact ⟨a :: pre, c, post, rfl, hc, hfc, List.forall_mem_cons.2 ⟨hfg, hall⟩, hpost⟩
      · -- the value too many is here
        have hg : g a = none := ha.resolve_left hfg
        obtain ⟨y, hy⟩ := Option.ne_none_iff_exists'.1 fun hf ↦ hfg (hf.trans hg.symm)
        rw [List.filterMap_cons, List.filterMap_cons, hg, hy] at heq
        dsimp only at heq
        have hlen := congrArg List.length heq
        rw [List.length_cons, List.length_append, List.length_singleton] at hlen
        have hall := (length_filterMap_eq_iff hxs).1 (by omega)
        rw [List.filterMap_congr hall, cons_eq_concat_iff] at heq
        refine ⟨[], a, xs, rfl, hg, by rw [hy, heq.1], hall, fun b hb z hz ↦ ?_⟩
        exact heq.2 z (List.mem_filterMap.2 ⟨b, hb, hz⟩)
  · rintro ⟨pre, c, post, rfl, hc, hfc, hall, hpost⟩
    have hpre := List.filterMap_congr fun a ha ↦ hall a (List.mem_append_left post ha)
    have hpost' := List.filterMap_congr fun a ha ↦ hall a (List.mem_append_right pre ha)
    rw [List.filterMap_append, List.filterMap_append, List.filterMap_cons_some hfc,
      List.filterMap_cons_none hc, hpre, hpost', List.append_assoc, List.append_cancel_left_eq,
      cons_eq_concat_iff]
    refine ⟨rfl, fun z hz ↦ ?_⟩
    obtain ⟨a, ha, haz⟩ := List.mem_filterMap.1 hz
    exact hpost a ha z haz

end FilterMap

/-- **The enumeration comes to an end, and rows that are no entries are skipped** as
`matchGroupIndexValue` skips them: the groups are those of the others. -/
def SkipsMalformed (groupFile : Except ε (Source ε)) (username : Bytes) : Prop :=
  lookupAdditionalGroups groupFile username ≠ .error .panicked ∧
    ∀ r groups, groupFile = .ok r → lookupAdditionalGroups groupFile username = .ok groups →
      groups = ((rows 4 r.bytes).filter (WellFormed ·)).filterMap (listed username)

/-- No row is short, and of those that are no entries none lists the user. -/
def NoneMalformed (r : Source ε) (username : Bytes) : Prop :=
  ∀ row ∈ rows 4 r.bytes, ¬ Short row ∧
    (r.err = none → ¬ WellFormed row → listed username row = none)

theorem filterMap_wellFormed_eq_iff (username : Bytes) (rs : List Bytes) :
    rs.filterMap (listed username) = (rs.filter (WellFormed ·)).filterMap (listed username) ↔
      ∀ row ∈ rs, ¬ WellFormed row → listed username row = none := by
  rw [List.filterMap_filter, filterMap_eq_iff]
  · refine forall₂_congr fun row _ ↦ ?_
    by_cases hwf : WellFormed row <;> simp [hwf]
  · intro row _
    by_cases hwf : WellFormed row <;> simp [hwf]

/-- **An enumeration does that exactly if there are no such rows in the file.** -/
theorem skipsMalformed_iff (groupFile : Except ε (Source ε)) (username : Bytes) :
    SkipsMalformed groupFile username ↔ ∀ r, groupFile = .ok r → NoneMalformed r username := by
  rcases groupFile with e | r
  · simp [SkipsMalformed, lookupAdditionalGroups, withFile]
  · have heq := lookupAdditionalGroups_eq r username
    have hall : (∀ r', (Except.ok r : Except ε (Source ε)) = .ok r' → NoneMalformed r' username) ↔
        NoneMalformed r username := by simp
    rw [hall, SkipsMalformed, heq]
    by_cases hshort : ∃ row ∈ rows 4 r.bytes, Short row
    · obtain ⟨row, hrow, hr⟩ := hshort
      refine iff_of_false (fun h ↦ h.1 (if_pos ⟨row, hrow, hr⟩)) fun h ↦ (h row hrow).1 hr
    · rw [if_neg hshort]
      have hlong : ∀ row ∈ rows 4 r.bytes, ¬ Short row := fun row hrow hr ↦ hshort ⟨row, hrow, hr⟩
      rcases herr : r.err with - | e
      · rw [NoneMalformed, herr]
        have hiff := filterMap_wellFormed_eq_iff username (rows 4 r.bytes)
        constructor
        · rintro ⟨-, hgroups⟩ row hrow
          exact ⟨hlong row hrow, fun _ ↦ hiff.1 (hgroups r _ rfl rfl) row hrow⟩
        · intro hnone
          refine ⟨by simp, ?_⟩
          rintro r' groups ⟨⟩ ⟨⟩
          exact hiff.2 fun row hrow ↦ (hnone row hrow).2 rfl
      · rw [NoneMalformed, herr]
        exact iff_of_true (by simp) fun row hrow ↦ ⟨hlong row hrow, by simp⟩

/-- A row for NIS, with a single field. -/
theorem not_skipsMalformed_plus :
    lookupAdditionalGroups (.ok ⟨ascii "+\n", none⟩ : Except Unit (Source Unit)) (ascii "bob") =
        .error .panicked ∧
      ¬ SkipsMalformed (.ok ⟨ascii "+\n", none⟩ : Except Unit (Source Unit)) (ascii "bob") := by
  have hpanic : lookupAdditionalGroups (.ok ⟨ascii "+\n", none⟩ : Except Unit (Source Unit))
      (ascii "bob") = .error .panicked := by decide
  exact ⟨hpanic, fun h ↦ h.1 hpanic⟩

/-! ### Whole lines -/

/-- Every line but the blank ones and the comments has three colons. -/
def ThreeColons (content : Bytes) : Prop :=
  ∀ l ∈ lines content, ¬ Ignored (trimSpace l) → l.count colon = 3

instance (content : Bytes) : Decidable (ThreeColons content) :=
  inferInstanceAs (Decidable (∀ l ∈ lines content, _))

/-- The entry of a line, if it lists the user. -/
def lineGroup (username l : Bytes) : Option Group :=
  if Ignored (trimSpace l) then none else listed username (trimSpace l)

/-- The row that is read from the rest of a comment. -/
def commentRow (l : Bytes) : Option Bytes := if Ignored (trimSpace l) then rowOf 4 l else none

/-- The row that is read from the rest of a comment with no newline behind it. -/
def lastCommentRow (l : Bytes) : Option Bytes :=
  if Ignored (trimSpace l) then lastRowOf 4 l else none

/-- A line with no newline behind it that ends with a full buffer. -/
def Lost (last : Bytes) : Prop := ¬ Ignored (trimSpace last) ∧ (chunks bufSize last).2 = []

/-- No comment has a row in its rest that is short or lists the user, and the last line, if it lists
the user, does not end with a full buffer. -/
def Undisturbed (username : Bytes) (init : List Bytes) (last : Bytes) : Prop :=
  (∀ l ∈ init, (commentRow l).bind (listed username) = none) ∧
    (lastCommentRow last).bind (listed username) = none ∧
      (Lost last → lineGroup username last = none)

/-- The entry of the lost last line was read from the rest of a comment, and all the entries between
them are the same. -/
def MadeUp (username : Bytes) (init : List Bytes) (last : Bytes) : Prop :=
  ∃ pre c post g, init = pre ++ c :: post ∧ (commentRow c).bind (listed username) = some g ∧
    (∀ l ∈ pre ++ post, (commentRow l).bind (listed username) = none) ∧
    (∀ l ∈ post, ∀ g', lineGroup username l = some g' → g' = g) ∧
    Lost last ∧ lineGroup username last = some g

/-- **What a file of such lines has to be like for the enumeration to be that of its lines.** -/
def ReadThrough (username content : Bytes) : Prop :=
  ∀ init last, lines content = init ++ [last] →
    (∀ l ∈ init, ∀ r, commentRow l = some r → ¬ Short r) ∧
    (∀ r, lastCommentRow last = some r → ¬ Short r) ∧
    (Undisturbed username init last ∨ MadeUp username init last)

section ThreeColons

/-- A line that is no comment has three colons. -/
def HasThree (l : Bytes) : Prop := ¬ Ignored (trimSpace l) → l.count colon = 3

variable {username content l : Bytes}

private theorem rowOf_of_three (h : HasThree l) :
    rowOf 4 l = if Ignored (trimSpace l) then commentRow l else some (trimSpace l) := by
  by_cases hign : Ignored (trimSpace l)
  · rw [if_pos hign, commentRow, if_pos hign]
  · rw [if_neg hign, rowOf_of_count_lt (by decide) (by rw [h hign]; decide), keep, if_neg hign]

private theorem lastRowOf_of_three (h : HasThree l) :
    lastRowOf 4 l =
      if Ignored (trimSpace l) then lastCommentRow l
      else if (chunks bufSize l).2 = [] then none else some (trimSpace l) := by
  by_cases hign : Ignored (trimSpace l)
  · rw [if_pos hign, lastCommentRow, if_pos hign]
  · rw [if_neg hign, lastRowOf_of_count_lt (by rw [h hign]; decide), keep, if_neg hign]

private theorem not_short_of_three (h : l.count colon = 3) : ¬ Short (trimSpace l) := by
  unfold Short
  rw [count_trimSpace, h]
  omega

/-- What is collected from a line is its entry or, from a comment, that of its rest. -/
private theorem rowOf_bind_listed (h : HasThree l) :
    (rowOf 4 l).bind (listed username) =
      if Ignored (trimSpace l) then (commentRow l).bind (listed username)
      else lineGroup username l := by
  rw [rowOf_of_three h, lineGroup]
  split_ifs <;> rfl

private theorem rowOf_bind_eq_lineGroup_iff (h : HasThree l) :
    (rowOf 4 l).bind (listed username) = lineGroup username l ↔
      (commentRow l).bind (listed username) = none := by
  rw [rowOf_bind_listed h, lineGroup, commentRow]
  split_ifs <;> simp

private theorem rowOf_bind_eq_some_iff {g : Group} (h : HasThree l) :
    lineGroup username l = none ∧ (rowOf 4 l).bind (listed username) = some g ↔
      (commentRow l).bind (listed username) = some g := by
  rw [rowOf_bind_listed h, lineGroup, commentRow]
  split_ifs <;> simp_all

variable {init : List Bytes} {last : Bytes}

private theorem collected_or (hinit : ∀ l ∈ init, HasThree l) :
    ∀ l ∈ init, (rowOf 4 l).bind (listed username) = lineGroup username l ∨
      lineGroup username l = none := by
  intro l hl
  rw [rowOf_bind_listed (hinit l hl), lineGroup]
  split_ifs
  · exact .inr rfl
  · exact .inl rfl

/-- What is collected from the lines with a newline are their entries exactly if there is none from
a comment. -/
private theorem collected_init_eq_iff (hinit : ∀ l ∈ init, HasThree l) :
    init.filterMap (fun l ↦ (rowOf 4 l).bind (listed username)) =
        init.filterMap (lineGroup username) ↔
      ∀ l ∈ init, (commentRow l).bind (listed username) = none := by
  rw [filterMap_eq_iff (collected_or hinit)]
  exact forall₂_congr fun l hl ↦ rowOf_bind_eq_lineGroup_iff (hinit l hl)

private theorem not_madeUp (h : ¬ Lost last) : ¬ MadeUp username init last :=
  fun ⟨_, _, _, _, _, _, _, _, hlost, _⟩ ↦ h hlost

/-- If the last line is a comment, what is collected from it is one too many. -/
private theorem collected_eq_iff_of_comment (hign : Ignored (trimSpace last))
    (hinit : ∀ l ∈ init, HasThree l) :
    init.filterMap (fun l ↦ (rowOf 4 l).bind (listed username)) ++
        ((lastCommentRow last).bind (listed username)).toList =
      init.filterMap (lineGroup username) ↔ Undisturbed username init last := by
  have hlost : ¬ Lost last := fun h ↦ h.1 hign
  rw [Undisturbed]
  rcases hrow : (lastCommentRow last).bind (listed username) with - | g
  · simp [hlost, collected_init_eq_iff hinit]
  · have hle : (init.filterMap (lineGroup username)).length ≤ _ :=
      length_filterMap_le (collected_or hinit)
    refine iff_of_false (fun heq ↦ ?_) (by simp)
    have hlen := congrArg List.length heq
    rw [List.length_append, Option.toList_some, List.length_singleton] at hlen
    omega

/-- If the last line is lost, its entry has to be made up for. -/
private theorem collected_eq_iff_of_lost {g : Group} (hlost : Lost last)
    (hg : lineGroup username last = some g) (hinit : ∀ l ∈ init, HasThree l) :
    init.filterMap (fun l ↦ (rowOf 4 l).bind (listed username)) =
      init.filterMap (lineGroup username) ++ [g] ↔ MadeUp username init last := by
  rw [filterMap_eq_concat_iff (collected_or hinit)]
  constructor
  · rintro ⟨pre, c, post, rfl, hc, hfc, hrest, hpost⟩
    have hmem := ((List.sublist_cons_self c post).append_left pre).subset
    refine ⟨pre, c, post, g, rfl, ?_, fun l hl ↦ ?_, hpost, hlost, hg⟩
    · exact (rowOf_bind_eq_some_iff (hinit c (by simp))).1 ⟨hc, hfc⟩
    · exact (rowOf_bind_eq_lineGroup_iff (hinit l (hmem hl))).1 (hrest l hl)
  · rintro ⟨pre, c, post, g', rfl, hc, hrest, hpost, -, hg'⟩
    have hmem := ((List.sublist_cons_self c post).append_left pre).subset
    obtain rfl : g' = g := Option.some.inj (hg'.symm.trans hg)
    obtain ⟨hnone, hsome⟩ := (rowOf_bind_eq_some_iff (hinit c (by simp))).2 hc
    refine ⟨pre, c, post, rfl, hnone, hsome, fun l hl ↦ ?_, hpost⟩
    exact (rowOf_bind_eq_lineGroup_iff (hinit l (hmem hl))).2 (hrest l hl)

/-- **What is collected from the lines are their entries, or what comes to the same.** -/
private theorem collected_eq_iff (hinit : ∀ l ∈ init, HasThree l) (hlast : HasThree last) :
    init.filterMap (fun l ↦ (rowOf 4 l).bind (listed username)) ++
        ((lastRowOf 4 last).bind (listed username)).toList =
      init.filterMap (lineGroup username) ++ (lineGroup username last).toList ↔
      Undisturbed username init last ∨ MadeUp username init last := by
  rw [lastRowOf_of_three hlast]
  by_cases hign : Ignored (trimSpace last)
  · have hnone : lineGroup username last = none := by rw [lineGroup, if_pos hign]
    rw [if_pos hign, hnone, or_iff_left (not_madeUp fun h ↦ h.1 hign), Option.toList_none,
      List.append_nil, collected_eq_iff_of_comment hign hinit]
  have hcomment : (lastCommentRow last).bind (listed username) = none := by
    rw [lastCommentRow, if_neg hign, Option.bind_none]
  rw [if_neg hign]
  by_cases hend : (chunks bufSize last).2 = []
  · have hlost : Lost last := ⟨hign, hend⟩
    rw [if_pos hend, Option.bind_none, Option.toList_none, List.append_nil]
    rcases hg : lineGroup username last with - | g
    · have hmade : ¬ MadeUp username init last := by
        rintro ⟨_, _, _, g, _, _, _, _, _, h⟩
        simp [hg] at h
      rw [or_iff_left hmade, Undisturbed, Option.toList_none, List.append_nil,
        collected_init_eq_iff hinit]
      simp [hcomment, hg]
    · have hund : ¬ Undisturbed username init last := fun h ↦ by
        simpa [hg] using h.2.2 hlost
      rw [or_iff_right hund, Option.toList_some, collected_eq_iff_of_lost hlost hg hinit]
  · -- the last line is read like the others
    have hlost : ¬ Lost last := fun h ↦ hend h.2
    have hg : (some (trimSpace last)).bind (listed username) = lineGroup username last := by
      rw [lineGroup, if_neg hign, Option.bind_some]
    rw [if_neg hend, hg, List.append_cancel_right_eq, or_iff_left (not_madeUp hlost), Undisturbed,
      collected_init_eq_iff hinit]
    simp [hcomment, hlost]

/-- A row that is short is from the rest of a comment. -/
private theorem exists_short_iff (hinit : ∀ l ∈ init, HasThree l) (hlast : HasThree last) :
    (∃ r ∈ init.filterMap (rowOf 4) ++ (lastRowOf 4 last).toList, Short r) ↔
      ¬ ((∀ l ∈ init, ∀ r, commentRow l = some r → ¬ Short r) ∧
        ∀ r, lastCommentRow last = some r → ¬ Short r) := by
  constructor
  · rintro ⟨r, hr, hshort⟩ ⟨hno, hnoLast⟩
    rcases List.mem_append.1 hr with hr | hr
    · obtain ⟨l, hl, hrow⟩ := List.mem_filterMap.1 hr
      rw [rowOf_of_three (hinit l hl)] at hrow
      split_ifs at hrow with hign
      · exact hno l hl r hrow hshort
      · exact not_short_of_three (hinit l hl hign) (Option.some.inj hrow ▸ hshort)
    · rw [Option.mem_toList, lastRowOf_of_three hlast] at hr
      split_ifs at hr with hign
      · exact hnoLast r hr hshort
      · exact not_short_of_three (hlast hign) (Option.some.inj hr ▸ hshort)
  · intro h
    by_contra hnone
    refine h ⟨fun l hl r hr hshort ↦ hnone ⟨r, ?_, hshort⟩, fun r hr hshort ↦
      hnone ⟨r, ?_, hshort⟩⟩
    · refine List.mem_append_left _ (List.mem_filterMap.2 ⟨l, hl, ?_⟩)
      rw [commentRow] at hr
      split_ifs at hr
      exact hr
    · refine List.mem_append_right _ (Option.mem_toList.2 ?_)
      rw [lastCommentRow] at hr
      split_ifs at hr
      exact hr

end ThreeColons

/-- **The groups of the whole lines are returned, in their order, exactly if the file is read
through.** -/
theorem lookupAdditionalGroups_eq_lines_iff (username content : Bytes) (h : ThreeColons content) :
    lookupAdditionalGroups (.ok ⟨content, none⟩ : Except ε (Source ε)) username =
        .ok ((lines content).filterMap (lineGroup username)) ↔
      ReadThrough username content := by
  obtain ⟨init, last, hlines, hrows⟩ := exists_lines 4 content
  have hinit : ∀ l ∈ init, HasThree l := fun l hl ↦
    h l (by rw [hlines]; exact List.mem_append_left _ hl)
  have hlast : HasThree last := h last (by rw [hlines]; simp)
  have hread : ReadThrough username content ↔
      ((∀ l ∈ init, ∀ r, commentRow l = some r → ¬ Short r) ∧
        ∀ r, lastCommentRow last = some r → ¬ Short r) ∧
      (Undisturbed username init last ∨ MadeUp username init last) := by
    rw [and_assoc]
    refine ⟨fun hr ↦ hr init last hlines, fun hr init' last' hlines' ↦ ?_⟩
    obtain ⟨rfl, hsing⟩ := List.append_inj' (hlines.symm.trans hlines') rfl
    obtain rfl := List.singleton_inj.1 hsing
    exact hr
  rw [lookupAdditionalGroups_eq, hread, hrows, hlines]
  by_cases hshort : (∀ l ∈ init, ∀ r, commentRow l = some r → ¬ Short r) ∧
      ∀ r, lastCommentRow last = some r → ¬ Short r
  · have hcollected : (init.filterMap (rowOf 4) ++ (lastRowOf 4 last).toList).filterMap
        (listed username) = init.filterMap (fun l ↦ (rowOf 4 l).bind (listed username)) ++
          ((lastRowOf 4 last).bind (listed username)).toList := by
      rw [List.filterMap_append, List.filterMap_filterMap, filterMap_toList]
    have hentries : (init ++ [last]).filterMap (lineGroup username) =
        init.filterMap (lineGroup username) ++ (lineGroup username last).toList := by
      rw [List.filterMap_append, ← Option.toList_some, filterMap_toList, Option.bind_some]
    rw [if_neg (by rw [exists_short_iff hinit hlast]; exact not_not.2 hshort),
      and_iff_right hshort, ← collected_eq_iff hinit hlast, hcollected, hentries, Except.ok.injEq]
  · rw [if_pos ((exists_short_iff hinit hlast).2 hshort)]
    exact iff_of_false nofun fun hr ↦ hshort hr.1

theorem lookupAdditionalGroups_wheel :
    ThreeColons (ascii "# groups\nwheel:x:10:eve,bob\n") ∧
      (lookupAdditionalGroups (.ok ⟨ascii "# groups\nwheel:x:10:eve,bob\n", none⟩ :
          Except Unit (Source Unit)) (ascii "bob") =
        .ok ((lines (ascii "# groups\nwheel:x:10:eve,bob\n")).filterMap
          (lineGroup (ascii "bob"))) ↔
      ReadThrough (ascii "bob") (ascii "# groups\nwheel:x:10:eve,bob\n")) :=
  ⟨by decide, lookupAdditionalGroups_eq_lines_iff _ _ (by decide)⟩

/-- A group of `bob` and others. -/
def dockerRow (others : Bytes) : Bytes :=
  ascii "docker" ++ colon :: (ascii "x" ++ colon :: (ascii "999" ++ colon ::
    (ascii "bob" ++ comma :: others)))

/-- A name so long that the buffer is full with the group. -/
def longMember : Bytes := List.replicate 4079 0x61

theorem trimSpace_dockerRow (others : Bytes) :
    trimSpace (dockerRow others) = dockerRow (Trim.trimRight spaces others) := by
  have hright := Trim.trimRight_append_cons isBicode_spaces colon_not_mem_spaces
  rw [trimSpace, dockerRow, Trim.trim_append_cons isBicode_spaces colon_not_mem_spaces, hright,
    hright, Trim.trimRight_append_cons isBicode_spaces (show ∀ w ∈ spaces, comma ∉ w by decide)]
  rfl

theorem listed_dockerRow (others : Bytes) :
    listed (ascii "bob") (dockerRow others) =
      some ⟨ascii "999", ascii "docker", ascii "bob" :: split comma others⟩ := by
  have hparts : splitN colon 4 (dockerRow others) =
      [ascii "docker", ascii "x", ascii "999", ascii "bob" ++ comma :: others] := by
    rw [dockerRow, splitN_append (by decide), splitN_append (by decide), splitN_append (by decide)]
    rfl
  have hcount : 3 ≤ (dockerRow others).count colon := by
    have hlen := length_parts (dockerRow others)
    rw [hparts] at hlen
    simp only [List.length_cons, List.length_nil] at hlen
    omega
  have hgroup : groupOf (dockerRow others) =
      some ⟨ascii "999", ascii "docker", split comma (ascii "bob" ++ comma :: others)⟩ := by
    simp only [groupOf, part, hparts, List.getD_cons_zero, List.getD_cons_succ]
    rw [if_pos ⟨hcount, by decide⟩]
  have hmembers : split comma (ascii "bob" ++ comma :: others) =
      ascii "bob" :: split comma others :=
    List.splitOn_append_cons_self_of_not_mem (by decide) others
  rw [listed, hgroup, hmembers]
  simp [Option.filter]

theorem count_longMember {b : UInt8} (h : b ≠ 0x61) : longMember.count b = 0 :=
  List.count_eq_zero_of_not_mem fun hb ↦ h (List.eq_of_mem_replicate hb)

private theorem chunks_dockerRow : (chunks bufSize (dockerRow longMember)).2 = [] := by
  have hsplit : dockerRow longMember = dockerRow (List.replicate 4078 0x61) ++ 0x61 :: [] := by
    rw [longMember, List.replicate_succ', dockerRow, dockerRow]
    simp only [List.append_assoc, List.cons_append]
  have hlen : (dockerRow (List.replicate 4078 0x61)).length + 1 = bufSize := by
    simp only [dockerRow, List.length_append, List.length_cons, List.length_replicate]
    decide
  rw [hsplit, chunks_append hlen (by decide)]
  rfl

/-- The group of `bob` is the last line of the file, with no newline behind it. -/
theorem lookupAdditionalGroups_loses_last :
    ThreeColons (dockerRow longMember) ∧
      lookupAdditionalGroups (.ok ⟨dockerRow longMember, none⟩ : Except Unit (Source Unit))
        (ascii "bob") = .ok [] ∧
      lookupAdditionalGroups (.ok ⟨dockerRow longMember, none⟩ : Except Unit (Source Unit))
          (ascii "bob") ≠
        .ok ((lines (dockerRow longMember)).filterMap (lineGroup (ascii "bob"))) := by
  have hcount : ∀ b : UInt8, b ≠ 0x61 → (dockerRow longMember).count b =
      (dockerRow []).count b := fun b hb ↦ by
    simp only [dockerRow, List.count_append, List.count_cons, count_longMember hb, List.count_nil]
  have hthree : (dockerRow longMember).count colon = 3 := (hcount _ (by decide)).trans (by decide)
  have hnl : newline ∉ dockerRow longMember :=
    List.count_eq_zero.1 ((hcount _ (by decide)).trans (by decide))
  have hlines : lines (dockerRow longMember) = [dockerRow longMember] :=
    List.splitOn_eq_singleton hnl
  have hign : ¬ Ignored (trimSpace (dockerRow longMember)) := by
    rw [trimSpace_dockerRow]
    rintro (h | h)
    · cases h
    · exact absurd (Option.some.inj h) (by decide)
  have hrows : rows 4 (dockerRow longMember) = [] := by
    rw [rows_of_not_mem hnl, lastRowOf_of_count_lt (by rw [hthree]; decide),
      if_pos chunks_dockerRow]
    rfl
  have hlookup : lookupAdditionalGroups (.ok ⟨dockerRow longMember, none⟩ :
      Except Unit (Source Unit)) (ascii "bob") = .ok [] := by
    rw [lookupAdditionalGroups_eq, hrows]
    rfl
  refine ⟨fun l hl _ ↦ ?_, hlookup, ?_⟩
  · rw [hlines, List.mem_singleton] at hl
    rw [hl, hthree]
  · rw [hlookup, hlines, List.filterMap_cons, lineGroup, if_neg hign, trimSpace_dockerRow,
      listed_dockerRow]
    exact nofun

end Xuser
