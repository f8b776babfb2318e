import Isle.Forward.Ports

/-!
# Sockets without an owner

Whether every socket of the host is one a container still wants. It is wanted while the container
runs and its monitor has the port in its map, or while the call that opened it is outstanding. The
two sides change at different times, and there are four ways to lose a socket: a container stops, a
monitor forgets a port before the host has closed it, a monitor gives up a call that the host has
carried out, and the host carries out a call that was given up.

`noOrphan_throughout_iff` says that there are no others: a run has no orphan at any point exactly
when none of its steps is one of these (`KeepsOwner`).
-/

open Function (update update_self update_of_ne)

namespace Forward

namespace Ports

variable {Cid : Type*}

/-- The call that opened the socket is outstanding. -/
def Outstanding (s : System Cid) (l : Listener Cid) : Prop :=
  ∃ p todo cur, s.pc l.owner = .starting l.call p todo cur

/-- The container of the socket runs, and its monitor has the port in its map. -/
def Forwarded (s : System Cid) (q : Int32) (l : Listener Cid) : Prop :=
  s.life l.owner = .running ∧ ∃ p ∈ s.ports l.owner, p.toInt32 = q

/-- Every open socket belongs to a running container that has its port in the map, or to a call that
is outstanding. -/
def NoOrphan (s : System Cid) : Prop :=
  ∀ q l, s.opened q = some l → Forwarded s q l ∨ Outstanding s l

/-- The steps that leave no socket behind. -/
def KeepsOwner (s : System Cid) : Action Cid → Prop
  -- a container stops when its only sockets are of calls that are outstanding
  | .stop c => ∀ q l, s.opened q = some l → l.owner = c → Outstanding s l
  -- a port is forgotten when the container has no socket on it, or has it in the map twice
  | .sweep c p => ∀ l, s.opened p.toInt32 = some l → l.owner = c →
      ∃ p' ∈ s.ports c, p' ≠ p ∧ p'.toInt32 = p.toInt32
  -- an answer comes while the container runs
  | .reply c => ∀ q l, s.opened q = some l → l.owner = c → Outstanding s l → s.life c = .running
  -- a call is given up when it has opened nothing
  | .giveUp c => ∀ q l, s.opened q = some l → l.owner = c → Outstanding s l → Forwarded s q l
  -- a socket is opened for a call that is outstanding
  | .listen n => ∀ c q key, s.calls n = some ⟨c, .start q key, .sent⟩ →
      Forwarded s q ⟨n, c, key⟩ ∨ Outstanding s ⟨n, c, key⟩
  | _ => True

variable [DecidableEq Cid] {target : Cid → String} {s t : System Cid} {a : Action Cid}

omit [DecidableEq Cid] in
theorem noOrphan_start : NoOrphan (System.start : System Cid) := by
  intro q l hq
  exact absurd hq (by simp [System.start])

variable {c : Cid} {x : Pc} {n : ℕ} {p : Int64} {cur : List Int64}

/-- Nothing is outstanding at a monitor that does not wait for a start. -/
theorem outstanding_goto_iff (hs : ∀ n p todo cur, s.pc c ≠ .starting n p todo cur)
    (hx : ∀ n p todo cur, x ≠ .starting n p todo cur) (l : Listener Cid) :
    Outstanding (s.goto c x) l ↔ Outstanding s l := by
  unfold Outstanding System.goto
  by_cases hc : l.owner = c
  · subst hc
    simp only [update_self]
    exact ⟨fun ⟨p, todo, cur, h⟩ ↦ absurd h (hx _ p todo cur),
      fun ⟨p, todo, cur, h⟩ ↦ absurd h (hs _ p todo cur)⟩
  · simp only [update_of_ne hc]

theorem noOrphan_goto (h : NoOrphan s) (hs : ∀ n p todo cur, s.pc c ≠ .starting n p todo cur)
    (hx : ∀ n p todo cur, x ≠ .starting n p todo cur) : NoOrphan (s.goto c x) := by
  intro q l hq
  rcases h q l hq with hf | ho
  · exact .inl hf
  · exact .inr ((outstanding_goto_iff hs hx l).2 ho)

theorem noOrphan_issue (h : NoOrphan s) (hs : ∀ n p todo cur, s.pc c ≠ .starting n p todo cur)
    (r : Request) (wait : ℕ → Pc) : NoOrphan (s.issue c r wait) := by
  intro q l hq
  rcases h q l hq with hf | ⟨p, todo, cur, hpc⟩
  · exact .inl hf
  · have hc : l.owner ≠ c := by
      rintro rfl
      exact hs _ p todo cur hpc
    exact .inr ⟨p, todo, cur, (update_of_ne hc _ _).trans hpc⟩

omit [DecidableEq Cid] in
theorem noOrphan_close (h : NoOrphan s) (q : Int32) : NoOrphan (s.setOpened q none) := by
  intro q' l hq'
  by_cases hne : q' = q
  · subst hne
    simp [System.setOpened] at hq'
  · simp only [System.setOpened, update_of_ne hne] at hq'
    exact h q' l hq'

theorem noOrphan_closeEntry (h : NoOrphan s) (q : Int32) : NoOrphan (s.closeEntry q) := by
  unfold System.closeEntry
  split_ifs
  · exact noOrphan_close h q
  · exact h

/-! ### The four steps -/

theorem noOrphan_stop_iff (h : NoOrphan s) (c : Cid) :
    NoOrphan { s with life := update s.life c .stopped } ↔ KeepsOwner s (.stop c) := by
  constructor
  · intro ht q l hq hc
    rcases ht q l hq with ⟨hlife, -⟩ | ho
    · simp [hc] at hlife
    · exact ho
  · intro hk q l hq
    by_cases hc : l.owner = c
    · exact .inr (hk q l hq hc)
    · rcases h q l hq with ⟨hlife, hport⟩ | ho
      · exact .inl ⟨(update_of_ne hc _ _).trans hlife, hport⟩
      · exact .inr ho

omit [DecidableEq Cid] in
theorem noOrphan_listen_iff (h : NoOrphan s) {q : Int32} {key : String}
    (hn : s.calls n = some ⟨c, .start q key, .sent⟩) (call : Call Cid) (x : Stage) :
    NoOrphan ((s.setStage n call x).setOpened q (some ⟨n, c, key⟩)) ↔
      KeepsOwner s (.listen n) := by
  constructor
  · intro ht c' q' key' hn'
    rw [hn] at hn'
    cases hn'
    exact ht q ⟨n, c, key⟩ (update_self ..)
  · intro hk q' l hq'
    by_cases hne : q' = q
    · subst hne
      obtain rfl : ⟨n, c, key⟩ = l := by simpa [System.setOpened] using hq'
      exact hk c q' key hn
    · exact h q' l ((update_of_ne hne _ _).symm.trans hq')

omit [DecidableEq Cid] in
/-- A listener of a call a monitor waits for. -/
theorem Calls.owner_eq (h : Calls target s) {todo : List Int64}
    (hpc : s.pc c = .starting n p todo cur) {q : Int32} {l : Listener Cid}
    (hq : s.opened q = some l) (hl : l.call = n) : l.owner = c ∧ p.toInt32 = q ∧
      ∃ call, s.calls n = some call ∧ call.stage.opening = true := by
  obtain ⟨x, hx⟩ := h.starting c n p todo cur hpc
  obtain ⟨y, hy, hop⟩ := h.opened q l hq
  rw [hl, hx] at hy
  simp only [Option.some.injEq, Call.mk.injEq, Request.start.injEq] at hy
  obtain ⟨hc, ⟨hp, -⟩, rfl⟩ := hy
  exact ⟨hc.symm, hp, _, hx, hop⟩

theorem noOrphan_giveUp_iff (h : NoOrphan s) (c : Cid)
    (hx : ∀ n p todo cur, x ≠ .starting n p todo cur) :
    NoOrphan (s.goto c x) ↔ KeepsOwner s (.giveUp c) := by
  constructor
  · intro ht q l hq hc _
    rcases ht q l hq with hf | ⟨p', todo', cur', ho⟩
    · exact hf
    · simp only [System.goto, hc, update_self] at ho
      exact absurd ho (hx _ p' todo' cur')
  · intro hk q l hq
    rcases h q l hq with hf | ⟨p', todo', cur', ho⟩
    · exact .inl hf
    · by_cases hc : l.owner = c
      · exact .inl (hk q l hq hc ⟨p', todo', cur', ho⟩)
      · exact .inr ⟨p', todo', cur', (update_of_ne hc _ _).trans ho⟩

/-- When a port is recorded. -/
theorem noOrphan_started_iff (hcalls : Calls target s) (h : NoOrphan s) {todo : List Int64}
    (hpc : s.pc c = .starting n p todo cur) :
    NoOrphan ((s.setPorts c ((s.ports c).insert p)).goto c (.scan todo cur)) ↔
      KeepsOwner s (.reply c) := by
  constructor
  · rintro ht q l hq rfl -
    rcases ht q l hq with ⟨hlife, -⟩ | ⟨p', todo', cur', ho⟩
    · exact hlife
    · simp [System.goto] at ho
  · intro hk q l hq
    by_cases hc : l.owner = c
    · subst hc
      left
      rcases h q l hq with ⟨hlife, p', hp', hq'⟩ | ho
      · exact ⟨hlife, p', by simp [System.goto, System.setPorts, hp'], hq'⟩
      · have hlife := hk q l hq rfl ho
        obtain ⟨p', todo', cur', ho⟩ := ho
        obtain ⟨-, hp, -⟩ := hcalls.owner_eq ho hq rfl
        rw [hpc] at ho
        cases ho
        exact ⟨hlife, p, by simp [System.goto, System.setPorts], hp⟩
    · rcases h q l hq with ⟨hlife, hport⟩ | ⟨p', todo', cur', ho⟩
      · left
        refine ⟨hlife, ?_⟩
        simpa only [System.goto, System.setPorts, update_of_ne hc] using hport
      · exact .inr ⟨p', todo', cur', (update_of_ne hc _ _).trans ho⟩

/-- When a port is forgotten. -/
theorem noOrphan_sweep_iff (h : NoOrphan s) (hpc : s.pc c = .sweep cur) (r : Request)
    (wait : ℕ → Pc) (hwait : ∀ n p todo cur, wait s.next ≠ .starting n p todo cur) :
    NoOrphan ((s.setPorts c ((s.ports c).filter (· ≠ p))).issue c r wait) ↔
      KeepsOwner s (.sweep c p) := by
  constructor
  · rintro ht l hq rfl
    rcases ht p.toInt32 l hq with ⟨-, p', hp', hq'⟩ | ⟨p', todo', cur', ho⟩
    · obtain ⟨hmem, hne⟩ : p' ∈ s.ports l.owner ∧ p' ≠ p := by
        simpa [System.issue, System.setPorts] using hp'
      exact ⟨p', hmem, hne, hq'⟩
    · simp only [System.issue, update_self] at ho
      exact absurd ho (hwait _ p' todo' cur')
  · intro hk q l hq
    rcases h q l hq with ⟨hlife, p', hp', hq'⟩ | ⟨p', todo', cur', ho⟩
    · left
      refine ⟨hlife, ?_⟩
      by_cases hc : l.owner = c
      · subst hc
        simp only [System.issue, System.setPorts, update_self, List.mem_filter]
        by_cases hpp : p' = p
        · subst hpp hq'
          -- another port of the owner has the same number in 32 bits
          obtain ⟨p'', hmem, hne, hq''⟩ := hk l hq rfl
          exact ⟨p'', ⟨hmem, by simpa using hne⟩, hq''⟩
        · exact ⟨p', ⟨hp', by simpa using hpp⟩, hq'⟩
      · simp only [System.issue, System.setPorts, update_of_ne hc]
        exact ⟨p', hp', hq'⟩
    · have hc : l.owner ≠ c := by
        rintro rfl
        rw [hpc] at ho
        exact absurd ho (by simp)
      exact .inr ⟨p', todo', cur', (update_of_ne hc _ _).trans ho⟩

/-- **A step leaves no orphan exactly when it keeps the owners.** -/
theorem noOrphan_step_iff (hcalls : Calls target s) (h : NoOrphan s)
    (hstep : step target s a = some t) : NoOrphan t ↔ KeepsOwner s a := by
  cases step_cases hstep with
  | @boot c hc =>
    refine iff_of_true (fun q l hq ↦ ?_) trivial
    rcases h q l hq with ⟨hlife, hport⟩ | ho
    · refine .inl ⟨?_, hport⟩
      by_cases hl : l.owner = c
      · simp [hl]
      · exact (update_of_ne hl _ _).trans hlife
    · exact .inr ho
  | stop hc => exact noOrphan_stop_iff h _
  | tick hpc | scanned hpc | skip hpc _ | rest hpc =>
    exact iff_of_true (noOrphan_goto h (by simp [hpc]) (by simp)) trivial
  | start hpc _ => exact iff_of_true (noOrphan_issue h (by simp [hpc]) _ _) trivial
  | sweep hpc _ _ => exact noOrphan_sweep_iff h hpc _ _ (by simp)
  | started hpc _ _ => exact noOrphan_started_iff hcalls h hpc
  | @notStarted c n p todo cur call hpc hn hstage =>
    -- a call that was refused has opened nothing, so the monitor may forget it
    have hnone : ∀ q l, s.opened q = some l → l.owner = c → ¬ Outstanding s l := by
      rintro q l hq rfl ⟨p', todo', cur', ho⟩
      obtain ⟨-, -, call', hcall', hop⟩ := hcalls.owner_eq ho hq rfl
      rw [hpc] at ho
      cases ho
      rw [hn] at hcall'
      cases hcall'
      rw [hstage] at hop
      exact absurd hop (by simp [Stage.opening])
    refine iff_of_true ?_ fun q l hq hc ho ↦ absurd ho (hnone q l hq hc)
    exact (noOrphan_giveUp_iff h _ (by simp)).2 fun q l hq hc ho ↦ absurd ho (hnone q l hq hc)
  | @cancelled c n cur hpc =>
    refine iff_of_true (noOrphan_goto h (by simp [hpc]) (by simp)) ?_
    rintro q l - rfl ⟨p', todo', cur', ho⟩
    exact absurd ho (by simp [hpc])
  | giveUpStart hpc => exact noOrphan_giveUp_iff h _ (by simp)
  | @giveUpCancel c n cur hpc =>
    refine iff_of_true (noOrphan_goto h (by simp [hpc]) (by simp)) ?_
    rintro q l - rfl ⟨p', todo', cur', ho⟩
    exact absurd ho (by simp [hpc])
  | listen hn _ => exact noOrphan_listen_iff h hn _ _
  | lose _ | refuse _ | record _ => exact iff_of_true h trivial
  | cancel _ => exact iff_of_true (noOrphan_closeEntry h _) trivial
  | acceptFail _ => exact iff_of_true (noOrphan_close h _) trivial

/-- **A run of the system has no orphan at any point exactly when each of its steps keeps the
owners.** -/
theorem noOrphan_throughout_iff {as : List (Action Cid)} (h : Run (step target) .start as s) :
    Throughout (step target) NoOrphan .start as ↔ RunWhile (step target) KeepsOwner .start as s :=
  h.throughout_iff (fun _ _ _ hs hstep ↦ calls_step hs hstep)
    (fun _ _ _ hs hno hstep ↦ noOrphan_step_iff hs hno hstep) calls_start noOrphan_start

/-- A container starts, and its one port is forwarded. -/
def forwardRun : List (Action ℕ) :=
  [.boot 0, .tick 0 [8080] [], .scan 0, .listen 0, .record 0, .reply 0]

theorem noOrphan_forwardRun : Throughout (step fun _ ↦ "10.0.0.2") NoOrphan .start forwardRun := by
  obtain ⟨s, hs⟩ : ∃ s, RunWhile (step fun _ ↦ "10.0.0.2") KeepsOwner .start forwardRun s := by
    refine ⟨_, .cons trivial rfl <| .cons trivial rfl <| .cons trivial rfl <| .cons ?_ rfl <|
      .cons trivial rfl <| .cons ?_ rfl <| .nil _⟩
    · rintro c q key hn
      cases hn
      exact .inr ⟨8080, [], [8080], rfl⟩
    · intro q l _ _ _
      rfl
  exact (noOrphan_throughout_iff (hs.mono fun _ _ _ ↦ trivial)).2 hs

/-- The container stops, and its port stays forwarded. -/
theorem orphan_of_stop :
    ∃ s, Run (step fun _ ↦ "10.0.0.2") .start (forwardRun ++ [.stop 0]) s ∧
      s.opened 8080 = some ⟨0, 0, "10.0.0.2"⟩ ∧ s.life 0 = .stopped ∧ ¬ NoOrphan s := by
  refine ⟨_, run_iff_foldlM.2 rfl, rfl, rfl, fun h ↦ ?_⟩
  rcases h 8080 ⟨0, 0, "10.0.0.2"⟩ rfl with ⟨hlife, -⟩ | ⟨p, todo, cur, hpc⟩
  · exact absurd hlife (by decide)
  · have hscan : Pc.scan [] [8080] = _ := hpc
    exact absurd hscan (by simp)

end Ports

end Forward
