import Isle.Forward.Ports

/-!
# Whose socket a cancellation closes

`CancelPortForward` closes the socket of the table's entry for the port, whichever container it is
forwarded to. Whether that is the container that asks depends on the past: an entry outlives its
socket when an accept loop ends, and another container may have taken the port since.

A container **claims** a port while it can still ask for it to be cancelled: the port is in the map
of its monitor, or a cancellation is on its way, or a start is outstanding that the host has carried
out (`Claims`). Claims arise only where the host opens a socket (`claims_of_step`). So if sockets
are opened only on ports that no other container claims, every claim on a port with an open socket
is of the container of that socket, and a cancellation closes only the socket of the container that
asks (`cancelsOwn_of_opensUnclaimed`).
-/

open Function (update_self update_of_ne)

namespace Forward

namespace Ports

variable {Cid : Type*}

/-- The host is about to close, for a call, a socket that is forwarded to another key. -/
def ClosesForeign (s : System Cid) (n : ℕ) : Prop :=
  ∃ c q key l, s.calls n = some ⟨c, .cancel q key, .sent⟩ ∧
    s.opened q = some l ∧ s.listeners q = some l ∧ l.key ≠ key

/-- A cancellation closes no socket that is forwarded to another key. -/
def CancelsOwn (s : System Cid) : Action Cid → Prop
  | .cancel n => ¬ ClosesForeign s n
  | _ => True

/-- The container can still have the port cancelled. -/
def Claims (s : System Cid) (c : Cid) (q : Int32) : Prop :=
  (∃ p ∈ s.ports c, p.toInt32 = q) ∨
  (∃ n key, s.calls n = some ⟨c, .cancel q key, .sent⟩) ∨
  ∃ n p todo cur key x, s.pc c = .starting n p todo cur ∧
    s.calls n = some ⟨c, .start q key, x⟩ ∧ x.opening = true

/-- A socket is opened only on a port that no other container claims. -/
def OpensUnclaimed (s : System Cid) : Action Cid → Prop
  | .listen n => ∀ c q key, s.calls n = some ⟨c, .start q key, .sent⟩ →
      ∀ c', Claims s c' q → c' = c
  | _ => True

variable [DecidableEq Cid] {target : Cid → String} {s t : System Cid} {a : Action Cid} {c : Cid}
  {q : Int32}

/-! ### Where claims come from -/

theorem claims_of_goto {c' : Cid} {x : Pc} (hx : ∀ n p todo cur, x ≠ .starting n p todo cur)
    (h : Claims (s.goto c' x) c q) : Claims s c q := by
  rcases h with hport | hcancel | ⟨n, p, todo, cur, key, y, hpc, hrest⟩
  · exact .inl hport
  · exact .inr (.inl hcancel)
  · by_cases hc : c = c'
    · subst hc
      simp only [System.goto, update_self] at hpc
      exact absurd hpc (hx n p todo cur)
    · simp only [System.goto, update_of_ne hc] at hpc
      exact .inr (.inr ⟨n, p, todo, cur, key, y, hpc, hrest⟩)

/-- A call that was just made claims nothing, unless it is a cancellation. -/
theorem claims_of_issue {c' : Cid} {r : Request} {wait : ℕ → Pc}
    (h : Claims (s.issue c' r wait) c q) :
    Claims s c q ∨ (c = c' ∧ ∃ key, r = .cancel q key) ∨
      ∃ n p todo cur, c = c' ∧ wait s.next = .starting n p todo cur ∧ n ≠ s.next := by
  rcases h with hport | ⟨n, key, hn⟩ | ⟨n, p, todo, cur, key, x, hpc, hn, hop⟩
  · exact .inl (.inl hport)
  · by_cases hne : n = s.next
    · subst hne
      simp only [System.issue, update_self, Option.some.injEq, Call.mk.injEq] at hn
      exact .inr (.inl ⟨hn.1.symm, key, hn.2.1⟩)
    · simp only [System.issue, update_of_ne hne] at hn
      exact .inl (.inr (.inl ⟨n, key, hn⟩))
  · have hne : n ≠ s.next := by
      rintro rfl
      simp only [System.issue, update_self, Option.some.injEq, Call.mk.injEq] at hn
      rw [← hn.2.2] at hop
      exact absurd hop (by simp [Stage.opening])
    simp only [System.issue, update_of_ne hne] at hn
    by_cases hc : c = c'
    · subst hc
      simp only [System.issue, update_self] at hpc
      exact .inr (.inr ⟨n, p, todo, cur, rfl, hpc, hne⟩)
    · simp only [System.issue, update_of_ne hc] at hpc
      exact .inl (.inr (.inr ⟨n, p, todo, cur, key, x, hpc, hn, hop⟩))

omit [DecidableEq Cid] in
/-- A call at another stage claims something new only when a socket was opened for it. -/
theorem claims_of_setStage {n : ℕ} {call : Call Cid} (hcall : s.calls n = some call) {x : Stage}
    (hx : x ≠ .sent) (h : Claims (s.setStage n call x) c q) :
    Claims s c q ∨ (x.opening = true ∧ call.stage.opening = false ∧ call.owner = c ∧
      ∃ key, call.request = .start q key) := by
  rcases h with hport | ⟨m, key, hm⟩ | ⟨m, p, todo, cur, key, y, hpc, hm, hop⟩
  · exact .inl (.inl hport)
  · by_cases hne : m = n
    · subst hne
      simp only [System.setStage, update_self, Option.some.injEq, Call.mk.injEq] at hm
      exact absurd hm.2.2 hx
    · simp only [System.setStage, update_of_ne hne] at hm
      exact .inl (.inr (.inl ⟨m, key, hm⟩))
  · by_cases hne : m = n
    · subst hne
      simp only [System.setStage, update_self, Option.some.injEq, Call.mk.injEq] at hm
      obtain ⟨rfl, hreq, rfl⟩ := hm
      cases hstage : call.stage.opening with
      | false => exact .inr ⟨hop, rfl, rfl, key, hreq⟩
      | true =>
        refine .inl (.inr (.inr ⟨m, p, todo, cur, key, call.stage, hpc, ?_, hstage⟩))
        rw [hcall, ← hreq]
    · simp only [System.setStage, update_of_ne hne] at hm
      exact .inl (.inr (.inr ⟨m, p, todo, cur, key, y, hpc, hm, hop⟩))

theorem claims_of_closeEntry {q' : Int32} (h : Claims (s.closeEntry q') c q) : Claims s c q := by
  unfold System.closeEntry at h
  split_ifs at h
  · exact h
  · exact h

/-- **A claim is as old as the socket it is about**: it was there before, or the step opened a
socket on that port for that container. -/
theorem claims_of_step (hcalls : Calls target s) (hstep : step target s a = some t)
    (h : Claims t c q) :
    Claims s c q ∨ ∃ n key, a = .listen n ∧ s.calls n = some ⟨c, .start q key, .sent⟩ := by
  cases step_cases hstep with
  | boot _ | stop _ | acceptFail _ => exact .inl h
  | tick _ | scanned _ | skip _ _ | rest _ | cancelled _ | giveUpStart _ | giveUpCancel _
  | notStarted _ _ _ => exact .inl (claims_of_goto (by simp) h)
  | start hpc hp =>
    rcases claims_of_issue h with h | ⟨-, key, hr⟩ | ⟨n, p', todo', cur', -, hw, hne⟩
    · exact .inl h
    · exact absurd hr (by simp)
    · cases hw
      exact absurd rfl hne
  | @sweep c' p cur hpc hp hcur =>
    rcases claims_of_issue h with h | ⟨rfl, key, hr⟩ | ⟨n, p', todo', cur', -, hw, -⟩
    · left
      rcases h with ⟨p', hp', hq⟩ | hrest
      · refine .inl ⟨p', ?_, hq⟩
        by_cases hc : c = c'
        · subst hc
          have hmem : p' ∈ s.ports c ∧ p' ≠ p := by simpa [System.setPorts] using hp'
          exact hmem.1
        · simpa only [System.setPorts, update_of_ne hc] using hp'
      · exact .inr hrest
    · cases hr
      exact .inl (.inl ⟨p, hp, rfl⟩)
    · exact absurd hw (by simp)
  | @started c' n p todo cur call hpc hn hstage =>
    left
    rcases claims_of_goto (by simp) h with ⟨p', hp', hq⟩ | hrest
    · by_cases hc : c = c'
      · subst hc
        have hmem : p' = p ∨ p' ∈ s.ports c := by simpa [System.setPorts] using hp'
        rcases hmem with rfl | hp'
        · -- the answer turns the outstanding start into an entry of the map
          obtain ⟨x, hx⟩ := hcalls.starting c n p' todo cur hpc
          rw [hn, Option.some.injEq] at hx
          subst hx hq
          exact .inr (.inr ⟨n, p', todo, cur, _, x, hpc, hn, by rw [show x = _ from hstage]; rfl⟩)
        · exact .inl ⟨p', hp', hq⟩
      · exact .inl ⟨p', by simpa only [System.setPorts, update_of_ne hc] using hp', hq⟩
    · exact .inr hrest
  | lose hn | refuse hn =>
    rcases claims_of_setStage hn (by simp) h with h | ⟨hop, -⟩
    · exact .inl h
    · exact absurd hop (by simp [Stage.opening])
  | @listen n c' q' key hn hq =>
    rcases claims_of_setStage hn (by simp) (show Claims (s.setStage n _ .listening) c q from h) with
      h | ⟨-, -, rfl, key', hreq⟩
    · exact .inl h
    · cases hreq
      exact .inr ⟨n, key, rfl, hn⟩
  | @record n c' q' key hn =>
    rcases claims_of_setStage hn (by simp)
      (show Claims (s.setStage n _ (.replied true)) c q from h) with h | ⟨-, hold, -⟩
    · exact .inl h
    · exact absurd hold (by simp [Stage.opening])
  | cancel hn =>
    rcases claims_of_setStage (by simpa using hn) (by simp) h with h | ⟨-, -, -, key', hreq⟩
    · exact .inl (claims_of_closeEntry h)
    · exact absurd hreq (by simp)

/-- A socket that is open after a step was open before, or was opened by it. -/
theorem opened_of_step (hstep : step target s a = some t) {l : Listener Cid}
    (h : t.opened q = some l) :
    s.opened q = some l ∨ ∃ n c key, a = .listen n ∧
      s.calls n = some ⟨c, .start q key, .sent⟩ ∧ l = ⟨n, c, key⟩ := by
  have hclose : ∀ {q' : Int32}, (s.setOpened q' none).opened q = some l → s.opened q = some l := by
    intro q' h'
    by_cases hq : q = q'
    · subst hq
      simp [System.setOpened] at h'
    · simpa only [System.setOpened, update_of_ne hq] using h'
  cases step_cases hstep with
  | @listen n c' q' key hn hq =>
    by_cases hne : q = q'
    · subst hne
      exact .inr ⟨n, c', key, rfl, hn, by simpa [System.setOpened] using h.symm⟩
    · refine .inl ?_
      simpa only [System.setOpened, System.setStage, update_of_ne hne] using h
  | acceptFail _ => exact .inl (hclose h)
  | @cancel n c' q' key hn =>
    left
    simp only [System.setStage, System.closeEntry] at h
    split_ifs at h
    · exact hclose h
    · exact h
  | _ => exact .inl h

/-! ### Ownership -/

/-- Every claim on a port with an open socket is of the container of the socket. -/
def Owned (s : System Cid) : Prop :=
  ∀ q l c, s.opened q = some l → Claims s c q → c = l.owner

/-- A step that opens no port twice keeps it. -/
theorem owned_step (hcalls : Calls target s) (h : Owned s) (hguard : OpensUnclaimed s a)
    (hstep : step target s a = some t) : Owned t := by
  intro q l c hq hclaim
  rcases opened_of_step hstep hq with hold | ⟨n, c', key, rfl, hn, rfl⟩
  · rcases claims_of_step hcalls hstep hclaim with hclaim | ⟨n, key, rfl, hn⟩
    · exact h q l c hold hclaim
    · -- a socket is opened only where none is open
      cases step_cases hstep with
      | listen hn' hfree =>
        rw [hn] at hn'
        cases hn'
        rw [hfree] at hold
        exact absurd hold (by simp)
  · rcases claims_of_step hcalls hstep hclaim with hclaim | ⟨m, key', hm, hn'⟩
    · exact hguard c' q key hn c hclaim
    · cases hm
      rw [hn] at hn'
      cases hn'
      rfl

omit [DecidableEq Cid] in
/-- Where every claim is the owner's, a cancellation closes only the socket of the one that asks. -/
theorem cancelsOwn_of_owned (hcalls : Calls target s) (h : Owned s) (a : Action Cid) :
    CancelsOwn s a := by
  cases a with
  | cancel n =>
    rintro ⟨c, q, key, l, hn, hq, -, hkey⟩
    have howner : c = l.owner := h q l c hq (.inr (.inl ⟨n, key, hn⟩))
    obtain ⟨x, hl, -⟩ := hcalls.opened q l hq
    have hlkey : l.key = target l.owner := hcalls.keyed _ _ hl
    have hckey : key = target c := hcalls.keyed _ _ hn
    exact hkey (by rw [hlkey, hckey, howner])
  | _ => trivial

/-- **If sockets are opened only on ports that no other container claims, a cancellation never
closes a socket that is forwarded to another container.** -/
theorem cancelsOwn_of_opensUnclaimed {as : List (Action Cid)}
    (h : RunWhile (step target) OpensUnclaimed .start as s) :
    RunWhile (step target) CancelsOwn .start as s :=
  h.guard_of_invariant (I := fun s ↦ Calls target s ∧ Owned s)
    (fun _ _ _ hs hguard hstep ↦
      ⟨calls_step hs.1 hstep, owned_step hs.1 hs.2 hguard hstep⟩)
    (fun _ a hs _ ↦ cancelsOwn_of_owned hs.1 hs.2 a)
    ⟨calls_start, fun _ _ _ hq ↦ absurd hq (by simp [System.start])⟩

/-- A container that forwards a port, and cancels it. -/
def cancelRun : List (Action ℕ) :=
  [.boot 0, .tick 0 [8080] [], .scan 0, .listen 0, .record 0, .reply 0, .scan 0, .rest 0,
    .tick 0 [] [], .scan 0, .sweep 0 8080, .cancel 1]

theorem cancelsOwn_cancelRun :
    ∃ s, RunWhile (step fun c ↦ if c = 0 then "10.0.0.2" else "10.0.0.3") CancelsOwn .start
      cancelRun s ∧ s.opened 8080 = none := by
  obtain ⟨s, hs, hopen⟩ : ∃ s, RunWhile (step fun c ↦ if c = 0 then "10.0.0.2" else "10.0.0.3")
      OpensUnclaimed .start cancelRun s ∧ s.opened 8080 = none := by
    refine ⟨_, .cons trivial rfl <| .cons trivial rfl <| .cons trivial rfl <| .cons ?_ rfl <|
      .cons trivial rfl <| .cons trivial rfl <| .cons trivial rfl <| .cons trivial rfl <|
      .cons trivial rfl <| .cons trivial rfl <| .cons trivial rfl <| .cons trivial rfl <|
      .nil _, rfl⟩
    rintro c q key hn c' hclaim
    cases hn
    by_contra hc
    rcases hclaim with ⟨p, hp, -⟩ | ⟨n, key, hn⟩ | ⟨n, p, todo, cur, key, x, hpc, -⟩
    · exact List.not_mem_nil hp
    · cases n <;> cases hn
    · simp [System.issue, System.goto, System.start, hc] at hpc
  exact ⟨s, cancelsOwn_of_opensUnclaimed hs, hopen⟩

/-- The accept loop of the first container's socket ends, the second container takes the port, and
the first, whose monitor still has it, cancels it. -/
def takeoverRun : List (Action ℕ) :=
  [.boot 0, .boot 1, .tick 0 [8080] [], .scan 0, .listen 0, .record 0, .reply 0, .scan 0, .rest 0,
    .acceptFail 8080, .tick 1 [8080] [], .scan 1, .listen 1, .record 1, .reply 1,
    .tick 0 [] [], .scan 0, .sweep 0 8080]

theorem closesForeign_takeoverRun :
    ∃ s t, Run (step fun c ↦ if c = 0 then "10.0.0.2" else "10.0.0.3") .start takeoverRun s ∧
      s.opened 8080 = some ⟨1, 1, "10.0.0.3"⟩ ∧ ClosesForeign s 2 ∧
      step (fun c ↦ if c = 0 then "10.0.0.2" else "10.0.0.3") s (.cancel 2) = some t ∧
      t.opened 8080 = none := by
  refine ⟨_, _, run_iff_foldlM.2 rfl, rfl, ?_, rfl, rfl⟩
  exact ⟨0, 8080, "10.0.0.2", ⟨1, 1, "10.0.0.3"⟩, rfl, rfl, rfl, by decide⟩

end Ports

end Forward
