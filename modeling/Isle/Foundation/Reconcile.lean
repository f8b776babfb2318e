import Mathlib.Data.Finset.Insert
import Mathlib.Data.Finset.Erase
import Mathlib.Data.List.Basic

/-!
# Reconciling what is held with what is wanted

A record of keys that are held is brought into line with a list of keys that are wanted. The keys of
the list are **scanned**: one that is not held is asked for, and is held from then on if it was
granted. Then the keys of the record are **swept**: one that was not scanned is dropped, and given
up. The environment may refuse whatever it is asked, and what it says may depend on everything it
was asked before.

The list may have a key any number of times. A key that was refused is asked for again when it comes
again; one that was granted is held, and is not.

`Scanned` and `Swept` are the invariants of the two loops, and `reconciles` is what they come to.
-/

/-- What is asked of the environment. -/
inductive Ask (α : Type*)
  | start (a : α)
  | stop (a : α)
  deriving DecidableEq, Repr

/-- A question that was asked, and whether it was granted. -/
structure Asked (α : Type*) where
  ask : Ask α
  ok : Bool
  deriving DecidableEq, Repr

/-- The record of keys that are held, those that were scanned, the questions in order, and the
environment. -/
structure Reconciler (α σ : Type*) where
  held : Finset α
  seen : Finset α
  log : List (Asked α)
  env : σ

section Reconcile

variable {α σ : Type*}

/-- A key was asked for and granted. -/
def Granted (log : List (Asked α)) (a : α) : Prop := ⟨.start a, true⟩ ∈ log

theorem granted_append {log log' : List (Asked α)} {a : α} :
    Granted (log ++ log') a ↔ Granted log a ∨ Granted log' a :=
  List.mem_append

variable [DecidableEq α]

namespace Reconciler

/-- Before the loops. -/
def begin (held : Finset α) (env : σ) : Reconciler α σ := ⟨held, ∅, [], env⟩

variable (serve : σ → Ask α → Bool × σ)

/-- Ask the environment. -/
def ask (s : Reconciler α σ) (q : Ask α) : Reconciler α σ :=
  { s with log := s.log ++ [⟨q, (serve s.env q).1⟩], env := (serve s.env q).2 }

/-- A key that is wanted. -/
def scan (s : Reconciler α σ) (a : α) : Reconciler α σ :=
  if a ∈ s.held then { s with seen := insert a s.seen }
  else if (serve s.env (.start a)).1 then
    { s.ask serve (.start a) with seen := insert a s.seen, held := insert a s.held }
  else { s.ask serve (.start a) with seen := insert a s.seen }

/-- A key that is held. -/
def sweep (s : Reconciler α σ) (a : α) : Reconciler α σ :=
  if a ∈ s.seen then s else { s.ask serve (.stop a) with held := s.held.erase a }

/-- The first loop. -/
def scanAll (s : Reconciler α σ) (wanted : List α) : Reconciler α σ := wanted.foldl (scan serve) s

/-- The second loop. -/
def sweepAll (s : Reconciler α σ) (keys : List α) : Reconciler α σ := keys.foldl (sweep serve) s

end Reconciler

/-! ### The first loop -/

/-- What holds when a part of the list was scanned. -/
structure Scanned (held : Finset α) (wanted : List α) (s : Reconciler α σ) : Prop where
  seen_iff : ∀ a, a ∈ s.seen ↔ a ∈ wanted
  held_iff : ∀ a, a ∈ s.held ↔ a ∈ held ∨ Granted s.log a
  missing : ∀ a ∈ wanted, a ∈ s.held ∨ ⟨.start a, false⟩ ∈ s.log
  /-- Only wanted keys that are not held are asked for, and none after it was granted. -/
  asked : ∀ before q after, s.log = before ++ q :: after →
    ∃ a ∈ wanted, q.ask = .start a ∧ a ∉ held ∧ ¬ Granted before a

section Scan

variable {held : Finset α} {wanted : List α} {s : Reconciler α σ}

omit [DecidableEq α] in
theorem scanned_begin (held : Finset α) (env : σ) : Scanned held [] (.begin held env) where
  seen_iff a := by simp [Reconciler.begin]
  held_iff a := by simp [Reconciler.begin, Granted]
  missing a ha := absurd ha (by simp)
  asked before q after h := by simp [Reconciler.begin] at h

omit [DecidableEq α] in
/-- The last question of a log was asked after all the others. -/
theorem Scanned.asked_ask (h : Scanned held wanted s) {a : α} (ha : a ∉ s.held) {ok : Bool}
    {before after : List (Asked α)} {q : Asked α}
    (hlog : s.log ++ [⟨.start a, ok⟩] = before ++ q :: after) :
    ∃ b ∈ wanted ++ [a], q.ask = .start b ∧ b ∉ held ∧ ¬ Granted before b := by
  have hnot : a ∉ held ∧ ¬ Granted s.log a := by
    rwa [h.held_iff, not_or] at ha
  rcases List.append_eq_append_iff.1 hlog with ⟨l, rfl, hl⟩ | ⟨l, hs, hl⟩
  · -- the question is the new one
    rcases l with - | ⟨q', l⟩
    · obtain ⟨rfl, -⟩ := List.cons.inj hl
      exact ⟨a, by simp, rfl, hnot.1, by simpa using hnot.2⟩
    · simp at hl
  · rcases l with - | ⟨q', l⟩
    · rw [List.append_nil] at hs
      obtain ⟨rfl, -⟩ := List.cons.inj hl
      exact ⟨a, by simp, rfl, hnot.1, hs ▸ hnot.2⟩
    · obtain ⟨rfl, -⟩ := List.cons.inj hl
      obtain ⟨b, hb, hq⟩ := h.asked before q l hs
      exact ⟨b, List.mem_append_left _ hb, hq⟩

/-- **One key of the first loop.** -/
theorem Scanned.scan (h : Scanned held wanted s) (serve : σ → Ask α → Bool × σ) (a : α) :
    Scanned held (wanted ++ [a]) (s.scan serve a) := by
  have hseen : ∀ b, b ∈ insert a s.seen ↔ b ∈ wanted ++ [a] := by
    intro b
    simp [h.seen_iff, or_comm]
  unfold Reconciler.scan
  split_ifs with ha hok
  · refine ⟨hseen, h.held_iff, fun b hb ↦ ?_, fun before q after hlog ↦ ?_⟩
    · rcases List.mem_append.1 hb with hb | hb
      · exact h.missing b hb
      · exact .inl (List.mem_singleton.1 hb ▸ ha)
    · obtain ⟨b, hb, hq⟩ := h.asked before q after hlog
      exact ⟨b, List.mem_append_left _ hb, hq⟩
  · refine ⟨hseen, fun b ↦ ?_, fun b hb ↦ ?_, fun before q after hlog ↦ h.asked_ask ha hlog⟩
    · have hnew : Granted [(⟨.start a, true⟩ : Asked α)] b ↔ b = a := by simp [Granted]
      simp only [Reconciler.ask, hok, Finset.mem_insert, h.held_iff, granted_append, hnew]
      tauto
    · rcases List.mem_append.1 hb with hb | hb
      · exact (h.missing b hb).imp (Finset.mem_insert_of_mem) (List.mem_append_left _)
      · exact .inl (Finset.mem_insert.2 (.inl (List.mem_singleton.1 hb)))
  · refine ⟨hseen, fun b ↦ ?_, fun b hb ↦ ?_, fun before q after hlog ↦ h.asked_ask ha hlog⟩
    · have hnew : ¬ Granted [(⟨.start a, false⟩ : Asked α)] b := by simp [Granted]
      simp only [Reconciler.ask, hok, h.held_iff, granted_append, hnew, or_false]
    · rcases List.mem_append.1 hb with hb | hb
      · exact (h.missing b hb).imp id (List.mem_append_left _)
      · obtain rfl := List.mem_singleton.1 hb
        exact .inr (List.mem_append_right _ (by simp [hok]))

theorem Scanned.scanAll (h : Scanned held wanted s) (serve : σ → Ask α → Bool × σ) (as : List α) :
    Scanned held (wanted ++ as) (s.scanAll serve as) := by
  induction as generalizing s wanted with
  | nil => simpa [Reconciler.scanAll] using h
  | cons a as ih =>
    have hrest := ih (h.scan serve a)
    rwa [List.append_assoc] at hrest

omit [DecidableEq α] in
/-- What was granted was wanted. -/
theorem Scanned.mem_of_granted (h : Scanned held wanted s) {a : α} (ha : Granted s.log a) :
    a ∈ wanted := by
  obtain ⟨before, after, hlog⟩ := List.append_of_mem ha
  obtain ⟨b, hb, hask, -⟩ := h.asked before _ after hlog
  cases hask
  exact hb

end Scan

/-! ### The second loop -/

/-- What holds when a part of the record was swept, after the first loop. -/
structure Swept (s₀ : Reconciler α σ) (done : List α) (s : Reconciler α σ) : Prop where
  seen_eq : s.seen = s₀.seen
  held_iff : ∀ a, a ∈ s.held ↔ a ∈ s₀.held ∧ (a ∈ s₀.seen ∨ a ∉ done)
  /-- The keys that were not scanned are given up, in the order in which they are swept. -/
  log_eq : ∃ given, s.log = s₀.log ++ given ∧
    given.map Asked.ask = (done.filter fun a ↦ a ∉ s₀.seen).map .stop

section Sweep

variable {s₀ s : Reconciler α σ} {done : List α}

theorem swept_self (s₀ : Reconciler α σ) : Swept s₀ [] s₀ :=
  ⟨rfl, by simp, [], by simp⟩

/-- **One key of the second loop.** -/
theorem Swept.sweep (h : Swept s₀ done s) (serve : σ → Ask α → Bool × σ) (a : α) :
    Swept s₀ (done ++ [a]) (s.sweep serve a) := by
  obtain ⟨given, hlog, hgiven⟩ := h.log_eq
  unfold Reconciler.sweep
  split_ifs with ha
  · -- a key that was scanned stays
    rw [h.seen_eq] at ha
    refine ⟨h.seen_eq, fun b ↦ ?_, given, hlog, by simp [hgiven, ha]⟩
    rw [h.held_iff, List.mem_append, List.mem_singleton, not_or]
    constructor
    · rintro ⟨hb, hseen | hdone⟩
      · exact ⟨hb, .inl hseen⟩
      · by_cases hba : b = a
        · exact ⟨hb, .inl (hba ▸ ha)⟩
        · exact ⟨hb, .inr ⟨hdone, hba⟩⟩
    · rintro ⟨hb, hseen | hdone⟩
      · exact ⟨hb, .inl hseen⟩
      · exact ⟨hb, .inr hdone.1⟩
  · rw [h.seen_eq] at ha
    refine ⟨h.seen_eq, fun b ↦ ?_, given ++ [⟨.stop a, (serve s.env (.stop a)).1⟩], ?_, ?_⟩
    · show b ∈ s.held.erase a ↔ _
      rw [Finset.mem_erase, h.held_iff, List.mem_append, List.mem_singleton, not_or]
      constructor
      · rintro ⟨hne, hb, hseen | hdone⟩
        · exact ⟨hb, .inl hseen⟩
        · exact ⟨hb, .inr ⟨hdone, hne⟩⟩
      · rintro ⟨hb, hseen | hdone⟩
        · exact ⟨fun heq ↦ ha (heq ▸ hseen), hb, .inl hseen⟩
        · exact ⟨hdone.2, hb, .inr hdone.1⟩
    · show s.log ++ _ = _
      rw [hlog, List.append_assoc]
    · simp [hgiven, ha]

theorem Swept.sweepAll (h : Swept s₀ done s) (serve : σ → Ask α → Bool × σ) (keys : List α) :
    Swept s₀ (done ++ keys) (s.sweepAll serve keys) := by
  induction keys generalizing s done with
  | nil => simpa [Reconciler.sweepAll] using h
  | cons a keys ih =>
    have hrest := ih (h.sweep serve a)
    rwa [List.append_assoc] at hrest

end Sweep

/-- Where everything was scanned, nothing is swept. -/
theorem sweepAll_eq_self {s : Reconciler α σ} {keys : List α} (serve : σ → Ask α → Bool × σ)
    (h : ∀ a ∈ keys, a ∈ s.seen) : s.sweepAll serve keys = s := by
  induction keys with
  | nil => rfl
  | cons a keys ih =>
    have hsweep : s.sweep serve a = s := if_pos (h a List.mem_cons_self)
    rw [Reconciler.sweepAll, List.foldl_cons, hsweep]
    exact ih fun b hb ↦ h b (List.mem_cons_of_mem _ hb)

/-! ### Both loops -/

/-- **The record is reconciled** with the keys that are wanted. -/
structure Reconciles (held : Finset α) (wanted : List α) (s : Reconciler α σ) : Prop where
  /-- What is held afterwards is wanted, and was held before or was granted. -/
  held_iff : ∀ a, a ∈ s.held ↔ a ∈ wanted ∧ (a ∈ held ∨ Granted s.log a)
  /-- Only wanted keys that are not held are asked for, and none after it was granted. -/
  starts : ∀ before q after a, s.log = before ++ q :: after → q.ask = .start a →
    a ∈ wanted ∧ a ∉ held ∧ ¬ Granted before a
  /-- A key that was held and is not wanted is given up once, and no other is. -/
  stops : ∀ a, (s.log.map Asked.ask).count (.stop a) = if a ∈ held ∧ a ∉ wanted then 1 else 0

/-- Where everything that is asked is granted, what is wanted is held, and nothing else. -/
theorem held_iff_of_granted (serve : σ → Ask α → Bool × σ) (held : Finset α) (wanted : List α)
    (env : σ) {keys : List α}
    (hkeys : ∀ a, a ∈ keys ↔ a ∈ ((Reconciler.begin held env).scanAll serve wanted).held)
    (hok : ∀ q ∈ (((Reconciler.begin held env).scanAll serve wanted).sweepAll serve keys).log,
      q.ok = true) (a : α) :
    a ∈ (((Reconciler.begin held env).scanAll serve wanted).sweepAll serve keys).held ↔
      a ∈ wanted := by
  have hscan := (scanned_begin held env).scanAll serve wanted
  rw [List.nil_append] at hscan
  generalize (Reconciler.begin held env).scanAll serve wanted = s₀ at hscan hkeys hok ⊢
  have hsweep := (swept_self s₀).sweepAll serve keys
  rw [List.nil_append] at hsweep
  generalize s₀.sweepAll serve keys = s at hsweep hok ⊢
  obtain ⟨given, hlog, -⟩ := hsweep.log_eq
  rw [hsweep.held_iff, hkeys, hscan.seen_iff]
  constructor
  · rintro ⟨hheld, hwant | hnot⟩
    · exact hwant
    · exact absurd hheld hnot
  · intro hwant
    rcases hscan.missing a hwant with hheld | hrefused
    · exact ⟨hheld, .inl hwant⟩
    · have hfalse := hok _ (hlog ▸ List.mem_append_left given hrefused)
      cases hfalse

/-- **Both loops, whatever the environment grants**, with the keys swept in any order. -/
theorem reconciles (serve : σ → Ask α → Bool × σ) (held : Finset α) (wanted : List α) (env : σ)
    {keys : List α} (hnodup : keys.Nodup)
    (hkeys : ∀ a, a ∈ keys ↔ a ∈ ((Reconciler.begin held env).scanAll serve wanted).held) :
    Reconciles held wanted
      (((Reconciler.begin held env).scanAll serve wanted).sweepAll serve keys) := by
  have hscan := (scanned_begin held env).scanAll serve wanted
  rw [List.nil_append] at hscan
  generalize (Reconciler.begin held env).scanAll serve wanted = s₀ at hscan hkeys ⊢
  have hsweep := (swept_self s₀).sweepAll serve keys
  rw [List.nil_append] at hsweep
  generalize s₀.sweepAll serve keys = s at hsweep ⊢
  obtain ⟨given, hlog, hgiven⟩ := hsweep.log_eq
  -- no key is asked for in the second loop
  have hstop : ∀ q ∈ given, ∀ a, q.ask ≠ .start a := by
    intro q hq a hask
    have hmem : q.ask ∈ given.map Asked.ask := List.mem_map_of_mem hq
    rw [hgiven, hask] at hmem
    simp at hmem
  have hgranted : ∀ a, Granted s.log a ↔ Granted s₀.log a := by
    intro a
    rw [hlog, granted_append]
    exact or_iff_left fun h ↦ hstop _ h a rfl
  refine ⟨fun a ↦ ?_, fun before q after a hsplit hask ↦ ?_, fun a ↦ ?_⟩
  · rw [hsweep.held_iff, hkeys, hgranted, hscan.seen_iff, ← hscan.held_iff]
    tauto
  · rw [hlog] at hsplit
    rcases List.append_eq_append_iff.1 hsplit with ⟨l, -, hl⟩ | ⟨l, hs, hl⟩
    · exact absurd hask (hstop q (hl ▸ List.mem_append_right _ List.mem_cons_self) a)
    · rcases l with - | ⟨q', l⟩
      · exact absurd hask (hstop q (by rw [List.nil_append] at hl; simp [← hl]) a)
      · obtain ⟨rfl, -⟩ := List.cons.inj hl
        obtain ⟨b, hb, hq, hrest⟩ := hscan.asked before q l hs
        rw [hask] at hq
        cases hq
        exact ⟨hb, hrest⟩
  · have hnone : (s₀.log.map Asked.ask).count (.stop a) = 0 := by
      rw [List.count_eq_zero]
      intro hmem
      obtain ⟨q, hq, hask⟩ := List.mem_map.1 hmem
      obtain ⟨before, after, hsplit⟩ := List.append_of_mem hq
      obtain ⟨b, -, hstart, -⟩ := hscan.asked before q after hsplit
      rw [hask] at hstart
      cases hstart
    have hcount : ((keys.filter fun a ↦ a ∉ s₀.seen).map Ask.stop).count (.stop a) =
        (keys.filter fun a ↦ a ∉ s₀.seen).count a :=
      List.count_map_of_injective _ _ (fun _ _ h ↦ by cases h; rfl) a
    have hmem : a ∈ keys.filter (fun a ↦ a ∉ s₀.seen) ↔ a ∈ held ∧ a ∉ wanted := by
      rw [List.mem_filter, hkeys, hscan.held_iff, decide_eq_true_eq, hscan.seen_iff]
      constructor
      · rintro ⟨hheld | hgrant, hwant⟩
        · exact ⟨hheld, hwant⟩
        · exact absurd (hscan.mem_of_granted hgrant) hwant
      · rintro ⟨hheld, hwant⟩
        exact ⟨.inl hheld, hwant⟩
    rw [hlog, List.map_append, List.count_append, hnone, hgiven, hcount, Nat.zero_add,
      (hnodup.filter _).count, if_congr hmem rfl rfl]

end Reconcile
