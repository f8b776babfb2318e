import Isle.Foundation.Run

/-!
# Restarting an app

`MonitorApp` of `guest/app.go`, which runs an app and runs it again when it ends. What `StartApp`
returns, when, and when the next run starts are labels; `StartApp` itself only returns an error in
this version.

An app that ends within ten seconds is to be started again after a pause of ten seconds. The loop
measures from `lastStart`, which is set **once, before the first run**. So the pause is decided well
for the first run, and after that ten seconds have always passed: `not_paused_of_restarted`.
`backedOff_iff` is the condition under which this does not show.
-/

namespace Guest

/-- What `StartApp` returns. -/
inductive AppResult
  /-- `context.Canceled` -/
  | canceled
  /-- Another error, or nil. -/
  | other
  deriving DecidableEq, Repr

/-- A run of the app that was followed by another. -/
structure Restart where
  startedAt : ℕ
  endedAt : ℕ
  /-- Whether the next run was started after a pause. -/
  paused : Bool
  deriving DecidableEq, Repr

/-- The end of a run, as the loop sees it. Times are in nanoseconds. -/
structure Ending where
  result : AppResult
  /-- When the result is there. -/
  endedAt : ℕ
  /-- Whether the context is done by then. -/
  done : Bool
  /-- When the next run is started, if there is one. -/
  next : ℕ
  deriving DecidableEq, Repr

/-- The loop that starts an app again and again. -/
structure Monitor where
  lastStart : ℕ
  /-- When the run that goes on was started. -/
  started : ℕ
  /-- The runs that were followed by another, in their order. -/
  restarts : List Restart
  /-- The end at which the loop returned. -/
  returned : Option Ending
  deriving DecidableEq, Repr

/-- `time.Second` -/
def second : ℕ := 1000000000

/-- The time in which the end of a run is a fast crash, and that of the pause. -/
def fastCrash : ℕ := 10 * second

/-- The loop returns: the context is done or the run was canceled. -/
def Ending.Final (e : Ending) : Prop := e.done = true ∨ e.result = .canceled

instance (e : Ending) : Decidable e.Final := inferInstanceAs (Decidable (_ ∨ _))

/-- `time.Since(lastStart) < 10*time.Second` -/
def Monitor.detectsCrash (s : Monitor) (e : Ending) : Bool :=
  decide (e.endedAt - s.lastStart < fastCrash)

/-- One iteration of the loop. A run does not end before it was started, and the next one is not
started before the pause is over. -/
def Monitor.step (s : Monitor) (e : Ending) : Option Monitor :=
  if s.returned = none ∧ s.started ≤ e.endedAt then
    if e.Final then some { s with returned := some e }
    else
      let paused := s.detectsCrash e
      if e.endedAt + (if paused then fastCrash else 0) ≤ e.next then
        some { s with
          started := e.next
          restarts := s.restarts ++ [⟨s.started, e.endedAt, paused⟩] }
      else none
  else none

/-- The start of `MonitorApp`. -/
def Monitor.start (now : ℕ) : Monitor := ⟨now, now, [], none⟩

/-- **Crashes are backed off from.** The pauses are before exactly those restarts that follow a run
of less than ten seconds, and the loop returned, if it did, since the context was done or the run
was canceled. -/
structure Monitor.BackedOff (s : Monitor) : Prop where
  paused_iff : ∀ r ∈ s.restarts, r.paused = true ↔ r.endedAt - r.startedAt < fastCrash
  returned_final : ∀ e, s.returned = some e → e.Final

/-- After the first restart, no run that is followed by another is shorter than ten seconds. -/
def NoLaterCrash (s : Monitor) (e : Ending) : Prop :=
  ¬ e.Final → s.restarts ≠ [] → fastCrash ≤ e.endedAt - s.started

instance (s : Monitor) (e : Ending) : Decidable (NoLaterCrash s e) :=
  inferInstanceAs (Decidable (_ → _ → _))

/-- Ten seconds have passed since `lastStart` once there was a restart. -/
structure Monitor.Timed (s : Monitor) : Prop where
  first : s.restarts = [] → s.started = s.lastStart
  later : s.restarts ≠ [] → s.lastStart + fastCrash ≤ s.started

section Steps

variable {s t : Monitor} {e : Ending}

/-- What an iteration does. -/
theorem Monitor.step_cases (h : s.step e = some t) :
    s.returned = none ∧ s.started ≤ e.endedAt ∧
      ((e.Final ∧ t = { s with returned := some e }) ∨
        (¬ e.Final ∧ e.endedAt + (if s.detectsCrash e then fastCrash else 0) ≤ e.next ∧
          t = { s with
            started := e.next
            restarts := s.restarts ++ [⟨s.started, e.endedAt, s.detectsCrash e⟩] })) := by
  obtain ⟨⟨hrun, hle⟩, h⟩ := Option.ite_none_right_eq_some.1 h
  refine ⟨hrun, hle, ?_⟩
  by_cases hfinal : e.Final
  · rw [if_pos hfinal] at h
    exact .inl ⟨hfinal, (Option.some.inj h).symm⟩
  · rw [if_neg hfinal] at h
    obtain ⟨hnext, rfl⟩ := guarded_eq_some h
    exact .inr ⟨hfinal, hnext, rfl⟩

/-- Every step keeps it. -/
theorem Monitor.timed_step (hs : s.Timed) (h : s.step e = some t) : t.Timed := by
  obtain ⟨-, hle, ⟨-, rfl⟩ | ⟨-, hnext, rfl⟩⟩ := step_cases h
  · exact ⟨hs.first, hs.later⟩
  · refine ⟨fun hnil ↦ absurd hnil (by simp), fun _ ↦ ?_⟩
    by_cases hcrash : s.detectsCrash e = true
    · -- the pause takes ten seconds
      rw [if_pos hcrash] at hnext
      have hstart : s.lastStart ≤ s.started := by
        by_cases hnil : s.restarts = []
        · exact Nat.le_of_eq (hs.first hnil).symm
        · exact Nat.le_trans (Nat.le_add_right ..) (hs.later hnil)
      show s.lastStart + fastCrash ≤ e.next
      omega
    · -- or they have passed already
      rw [if_neg hcrash] at hnext
      have hpassed : ¬ e.endedAt - s.lastStart < fastCrash := by simpa [detectsCrash] using hcrash
      have hpos : 0 < fastCrash := by decide
      show s.lastStart + fastCrash ≤ e.next
      omega

/-- **After the first restart there is never a pause.** -/
theorem Monitor.not_paused_of_restarted (hs : s.Timed) (hle : s.started ≤ e.endedAt)
    (hne : s.restarts ≠ []) : s.detectsCrash e = false := by
  have hlater := hs.later hne
  simp only [detectsCrash, decide_eq_false_iff_not]
  omega

/-- The pause is decided by the length of the run for the first one, and after that only if the run
was not short. -/
theorem Monitor.paused_iff_noLaterCrash (hs : s.Timed) (hle : s.started ≤ e.endedAt)
    (hfinal : ¬ e.Final) :
    (s.detectsCrash e = true ↔ e.endedAt - s.started < fastCrash) ↔ NoLaterCrash s e := by
  by_cases hnil : s.restarts = []
  · refine iff_of_true ?_ fun _ hne ↦ absurd hnil hne
    rw [detectsCrash, decide_eq_true_eq, hs.first hnil]
  · rw [NoLaterCrash, not_paused_of_restarted hs hle hnil]
    simp [hfinal, hnil]

theorem Monitor.backedOff_step_iff (hs : s.Timed) (hP : s.BackedOff) (h : s.step e = some t) :
    t.BackedOff ↔ NoLaterCrash s e := by
  obtain ⟨hrun, hle, ⟨hfinal, rfl⟩ | ⟨hfinal, -, rfl⟩⟩ := step_cases h
  · refine iff_of_true ⟨hP.paused_iff, fun e' he' ↦ ?_⟩ (absurd hfinal)
    cases he'
    exact hfinal
  · rw [← paused_iff_noLaterCrash hs hle hfinal]
    constructor
    · intro ht
      exact ht.paused_iff ⟨s.started, e.endedAt, s.detectsCrash e⟩ (by simp)
    · intro hlast
      refine ⟨fun r hr ↦ ?_, hP.returned_final⟩
      rcases List.mem_append.1 hr with hr | hr
      · exact hP.paused_iff r hr
      · rw [List.mem_singleton.1 hr]
        exact hlast

/-- What was backed off from stays so. -/
theorem Monitor.backedOff_of_step (h : s.step e = some t) (ht : t.BackedOff) : s.BackedOff := by
  obtain ⟨hrun, -, ⟨-, rfl⟩ | ⟨-, -, rfl⟩⟩ := step_cases h
  · exact ⟨ht.paused_iff, fun e' he' ↦ by rw [hrun] at he'; cases he'⟩
  · exact ⟨fun r hr ↦ ht.paused_iff r (List.mem_append_left _ hr), ht.returned_final⟩

end Steps

/-- **When crashes are backed off from.** For any runs of the app, the pauses are where they should
be exactly if no run after the first restart is shorter than ten seconds and followed by another. -/
theorem backedOff_iff (now : ℕ) {endings : List Ending} {t : Monitor}
    (h : Run Monitor.step (.start now) endings t) :
    t.BackedOff ↔ RunWhile Monitor.step NoLaterCrash (.start now) endings t :=
  h.last_iff (J := Monitor.Timed) (fun _ _ _ hs hstep ↦ Monitor.timed_step hs hstep)
    (fun _ _ _ hs hP hstep ↦ Monitor.backedOff_step_iff hs hP hstep)
    (fun _ _ _ _ hstep ht ↦ Monitor.backedOff_of_step hstep ht)
    ⟨fun _ ↦ rfl, fun hne ↦ absurd rfl hne⟩ ⟨by simp [Monitor.start], by simp [Monitor.start]⟩

/-- A crash after a second, which the pause follows, and a run of a minute. -/
def crashOnce : List Ending :=
  [⟨.other, second, false, 11 * second⟩, ⟨.other, 71 * second, false, 71 * second⟩,
    ⟨.canceled, 72 * second, false, 0⟩]

theorem backedOff_crashOnce :
    ∃ t, Run Monitor.step (.start 0) crashOnce t ∧
      t.restarts = [⟨0, second, true⟩, ⟨11 * second, 71 * second, false⟩] ∧ t.BackedOff := by
  have hrun : Run Monitor.step (.start 0) crashOnce
      ⟨0, 71 * second, [⟨0, second, true⟩, ⟨11 * second, 71 * second, false⟩],
        some ⟨.canceled, 72 * second, false, 0⟩⟩ :=
    run_iff_foldlM.2 (by decide)
  exact ⟨_, hrun, rfl, (backedOff_iff 0 hrun).2 (runWhile_iff_foldlM.2 (by decide))⟩

/-- Two crashes after a second each: there is no pause behind the second. -/
theorem not_backedOff_crashTwice :
    ∃ t, Run Monitor.step (.start 0)
        [⟨.other, second, false, 11 * second⟩, ⟨.other, 12 * second, false, 12 * second⟩] t ∧
      t.restarts = [⟨0, second, true⟩, ⟨11 * second, 12 * second, false⟩] ∧ ¬ t.BackedOff := by
  refine ⟨⟨0, 12 * second, [⟨0, second, true⟩, ⟨11 * second, 12 * second, false⟩], none⟩,
    run_iff_foldlM.2 (by decide), rfl, fun h ↦ ?_⟩
  exact absurd (h.paused_iff ⟨11 * second, 12 * second, false⟩ (by simp)) (by decide)

end Guest
