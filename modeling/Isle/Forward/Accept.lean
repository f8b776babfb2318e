import Isle.Forward.Connection

/-!
# The connections of a forwarded port

`forwardPort` of `vm/vm.go`, over all the connections that it accepts: each round of the loop takes
a client, opens a stream to the guest, goes through the handshake on it and hands both ends to a
pair of goroutines. A goroutine copies one way, and closes both ends when its copy is over.

The loop body has five places in which it gives up with `continue`, and **none of them closes
anything**: the client stays connected to a host that will not read from it, and the stream, if it
was opened, stays open too. `noDangling_throughout_iff` says that no connection is left behind
exactly if no round of the loop gives up, and `Dangling.of_run` that one that is left behind is open
for good.

The handshake is that of `Isle.Forward.Connection`: `run_follow` takes the phases of one connection
to the events of a round.
-/

open Function (update update_self update_of_ne)

namespace Forward.Accept

/-! ### The state -/

/-- Where `forwardPort` is. -/
inductive LoopPhase
  /-- In `l.Accept()`. -/
  | accept
  /-- In `sess.Open()`. -/
  | opening
  /-- The stream is open, and the handshake has come to a phase. -/
  | handshake (p : HostPhase)
  /-- `Accept` has failed, and the listener is closed. -/
  | returned
  deriving DecidableEq, Repr

/-- The two ends of a connection. -/
inductive End
  /-- `c` -/
  | client
  /-- `guest` -/
  | stream
  deriving DecidableEq, Repr

/-- The end that is copied to. -/
def End.other : End → End
  | .client => .stream
  | .stream => .client

/-- Where a goroutine is. -/
inductive CopyPhase
  | unborn
  | copying
  /-- The copy is over, and the first of the two ends is closed. -/
  | closing
  | ended
  deriving DecidableEq, Repr

/-- A connection: the ends that are open, and for each end the goroutine that copies to it. -/
structure Ends where
  isOpen : End → Bool
  copy : End → CopyPhase

/-- Nothing is open. -/
def Ends.none : Ends := ⟨fun _ ↦ false, fun _ ↦ .unborn⟩

/-- An end is there now. -/
def Ends.opened (e : Ends) (x : End) : Ends := { e with isOpen := update e.isOpen x true }

/-- An end is closed. -/
def Ends.close (e : Ends) (x : End) : Ends := { e with isOpen := update e.isOpen x false }

/-- A goroutine when its copy is over: the deferred calls, the last first, close the end that it
copies to, and then the other. -/
def Ends.advance (e : Ends) (x : End) : Option Ends :=
  match e.copy x with
  | .copying => some { e.close x with copy := update e.copy x .closing }
  | .closing => some { e.close x.other with copy := update e.copy x .ended }
  | .unborn | .ended => Option.none

/-- The loop: its phase, the number of the round it is in, and the connections. -/
structure Loop where
  phase : LoopPhase
  round : ℕ
  ends : ℕ → Ends

/-- The loop in front of its first `Accept`. -/
def Loop.start : Loop := ⟨.accept, 0, fun _ ↦ .none⟩

/-! ### The steps -/

/-- What happens next: a call of the loop returns, or a goroutine moves on. -/
inductive Event
  /-- `l.Accept()`, and whether it returns a client. -/
  | accept (ok : Bool)
  /-- `sess.Open()`, and whether it returns a stream. -/
  | openStream (ok : Bool)
  /-- `guest.Write` of the protocol byte, whose error is not looked at. -/
  | greet (ok : Bool)
  /-- `enc.Encode` of the header. -/
  | encodeHeader (ok : Bool)
  /-- `enc.Encode` of the port and key. -/
  | encodePortForward (ok : Bool)
  /-- `dec.Decode(&resp)`, and the reply if there is one. -/
  | decode (resp : Option ResponseMessage)
  /-- The goroutine of a connection that copies to an end ends its copy, or closes the other end. -/
  | copy (n : ℕ) (x : End)
  deriving DecidableEq, Repr

namespace Loop

/-- What becomes of the connection of the round. -/
def setEnds (s : Loop) (n : ℕ) (e : Ends) : Loop := { s with ends := update s.ends n e }

/-- The loop goes on to the next connection. -/
def next (s : Loop) : Loop := { s with phase := .accept, round := s.round + 1 }

/-- Both goroutines are started, and the loop goes on. -/
def handOver (s : Loop) : Loop :=
  (s.setEnds s.round { s.ends s.round with copy := fun _ ↦ .copying }).next

end Loop

/-- One event. -/
def step (s : Loop) : Event → Option Loop
  | .accept ok =>
    if s.phase = .accept then
      some (if ok then
        { s.setEnds s.round (Ends.none.opened .client) with phase := .opening }
      else { s with phase := .returned })
    else none
  | .openStream ok =>
    if s.phase = .opening then
      some (if ok then
        { s.setEnds s.round ((s.ends s.round).opened .stream) with phase := .handshake .start }
      else s.next)
    else none
  | .greet _ =>
    if s.phase = .handshake .start then some { s with phase := .handshake .header } else none
  | .encodeHeader ok =>
    if s.phase = .handshake .header then
      some (if ok then { s with phase := .handshake .portForward } else s.next)
    else none
  | .encodePortForward ok =>
    if s.phase = .handshake .portForward then
      some (if ok then { s with phase := .handshake .awaiting } else s.next)
    else none
  | .decode resp =>
    if s.phase = .handshake .awaiting then
      some (match resp with
        | some m => if m.code = codeOK then s.handOver else s.next
        | none => s.next)
    else none
  | .copy n x => ((s.ends n).advance x).map (s.setEnds n)

/-! ### Connections that are left behind -/

/-- Both goroutines were started. -/
def Ends.Handed (e : Ends) : Prop := ∀ x, e.copy x ≠ .unborn

/-- Neither end is open. -/
def Ends.Closed (e : Ends) : Prop := ∀ x, e.isOpen x = false

/-- **No connection is left behind.** -/
structure NoDangling (s : Loop) : Prop where
  /-- The connection of a round that is over was handed to the goroutines, or is closed. -/
  disposed : ∀ n < s.round, (s.ends n).Handed ∨ (s.ends n).Closed
  /-- A goroutine that has ended has closed both ends. -/
  closed : ∀ n x, (s.ends n).copy x = .ended → (s.ends n).Closed

/-- The event is not one that makes the loop give up the connection: the stream is opened, the
messages are sent, the reply is decoded, and it is `OK`. -/
def Event.Succeeds : Event → Prop
  | .openStream ok | .encodeHeader ok | .encodePortForward ok => ok = true
  | .decode resp => ∃ m, resp = some m ∧ m.code = codeOK
  | .accept _ | .greet _ | .copy _ _ => True

/-! ### One connection -/

section Ends

variable {e e' : Ends} {x : End}

theorem End.eq_or_eq_other (x y : End) : y = x ∨ y = x.other := by
  cases x <;> cases y <;> simp [End.other]

/-- What a goroutine has closed so far. -/
structure Ends.Sound (e : Ends) : Prop where
  closing : ∀ x, e.copy x = .closing → e.isOpen x = false
  ended : ∀ x, e.copy x = .ended → e.Closed

theorem Ends.isOpen_close_eq_false {y : End} (h : e.isOpen y = false) :
    (e.close x).isOpen y = false := by
  show update e.isOpen x false y = false
  by_cases hy : y = x
  · rw [hy, update_self]
  · rwa [update_of_ne hy]

theorem Ends.advance_cases (h : e.advance x = some e') :
    (e.copy x = .copying ∧ e' = { e.close x with copy := update e.copy x .closing }) ∨
      (e.copy x = .closing ∧
        e' = { e.close x.other with copy := update e.copy x .ended }) := by
  unfold Ends.advance at h
  split at h
  · next hcopy => exact .inl ⟨hcopy, (Option.some.inj h).symm⟩
  · next hcopy => exact .inr ⟨hcopy, (Option.some.inj h).symm⟩
  · exact absurd h (by simp)
  · exact absurd h (by simp)

/-- **A step of a goroutine.** -/
theorem Ends.Sound.advance (h : e.Sound) (hstep : e.advance x = some e') : e'.Sound := by
  rcases Ends.advance_cases hstep with ⟨-, rfl⟩ | ⟨hcopy, rfl⟩
  · refine ⟨fun y hy ↦ ?_, fun y hy z ↦ ?_⟩
    · by_cases hyx : y = x
      · rw [hyx]
        exact update_self ..
      · have hold : e.copy y = .closing := (update_of_ne hyx ..).symm.trans hy
        exact Ends.isOpen_close_eq_false (h.closing y hold)
    · by_cases hyx : y = x
      · rw [hyx] at hy
        exact absurd ((update_self ..).symm.trans hy) (by simp)
      · have hold : e.copy y = .ended := (update_of_ne hyx ..).symm.trans hy
        exact Ends.isOpen_close_eq_false (h.ended y hold z)
  · refine ⟨fun y hy ↦ ?_, fun y hy z ↦ ?_⟩
    · by_cases hyx : y = x
      · rw [hyx] at hy
        exact absurd ((update_self ..).symm.trans hy) (by simp)
      · have hold : e.copy y = .closing := (update_of_ne hyx ..).symm.trans hy
        exact Ends.isOpen_close_eq_false (h.closing y hold)
    · -- the first end was closed before, the other is closed now
      rcases End.eq_or_eq_other x z with rfl | rfl
      · exact Ends.isOpen_close_eq_false (h.closing _ hcopy)
      · exact update_self ..

theorem Ends.Handed.advance (h : e.Handed) (hstep : e.advance x = some e') : e'.Handed := by
  intro y
  rcases Ends.advance_cases hstep with ⟨-, rfl⟩ | ⟨-, rfl⟩
  all_goals
    by_cases hyx : y = x
    · simp [hyx]
    · simpa [hyx] using h y

theorem Ends.Closed.advance (h : e.Closed) (hstep : e.advance x = some e') : e'.Closed := by
  rcases Ends.advance_cases hstep with ⟨-, rfl⟩ | ⟨-, rfl⟩
  all_goals exact fun y ↦ Ends.isOpen_close_eq_false (h y)

end Ends

/-! ### The loop -/

/-- The loop is in the body, behind `Accept`. -/
def Loop.InBody (s : Loop) : Prop := s.phase = .opening ∨ ∃ p, s.phase = .handshake p

/-- The events, with what each of them does to the loop. -/
inductive Step (s : Loop) (a : Event) : Loop → Prop
  | returns (ha : a.Succeeds) : Step s a { s with phase := .returned }
  | accepts (ha : a.Succeeds) :
      Step s a { s.setEnds s.round (Ends.none.opened .client) with phase := .opening }
  | opens (ha : a.Succeeds) (hphase : s.phase = .opening) :
      Step s a { s.setEnds s.round ((s.ends s.round).opened .stream) with
        phase := .handshake .start }
  | goesOn (ha : a.Succeeds) {p q : HostPhase} (hphase : s.phase = .handshake p) :
      Step s a { s with phase := .handshake q }
  | handsOver (ha : a.Succeeds) : Step s a s.handOver
  | givesUp (ha : ¬ a.Succeeds) (hbody : s.InBody) : Step s a s.next
  | copies (ha : a.Succeeds) {n : ℕ} {x : End} {e : Ends} (hadv : (s.ends n).advance x = some e) :
      Step s a (s.setEnds n e)

/-- What each step can do. -/
theorem step_cases {s t : Loop} {a : Event} (hstep : step s a = some t) : Step s a t := by
  cases a with
  | accept ok =>
    obtain ⟨-, rfl⟩ := guarded_eq_some hstep
    cases ok
    · exact .returns trivial
    · exact .accepts trivial
  | openStream ok =>
    obtain ⟨hphase, rfl⟩ := guarded_eq_some hstep
    cases ok
    · exact .givesUp Bool.false_ne_true (.inl hphase)
    · exact .opens rfl hphase
  | greet ok =>
    obtain ⟨hphase, rfl⟩ := guarded_eq_some hstep
    exact .goesOn (by trivial) hphase
  | encodeHeader ok | encodePortForward ok =>
    obtain ⟨hphase, rfl⟩ := guarded_eq_some hstep
    cases ok
    · exact .givesUp Bool.false_ne_true (.inr ⟨_, hphase⟩)
    · exact .goesOn (by rfl) hphase
  | decode resp =>
    obtain ⟨hphase, rfl⟩ := guarded_eq_some hstep
    rcases resp with - | m
    · exact .givesUp (fun ⟨m, hm, _⟩ ↦ by cases hm) (.inr ⟨_, hphase⟩)
    · show Step s _ (if m.code = codeOK then s.handOver else s.next)
      split_ifs with hcode
      · exact .handsOver ⟨m, rfl, hcode⟩
      · refine .givesUp (fun ⟨m', hm', hok⟩ ↦ ?_) (.inr ⟨_, hphase⟩)
        cases hm'
        exact hcode hok
  | copy n x =>
    obtain ⟨e, hadv, rfl⟩ := Option.map_eq_some_iff.1 hstep
    exact .copies (by trivial) hadv

/-- What holds along every run: the connection of a round is accepted, has a stream once it is open,
and is not handed over before the round is over. -/
structure Inv (s : Loop) : Prop where
  opening : s.phase = .opening → s.ends s.round = Ends.none.opened .client
  handshake : ∀ p, s.phase = .handshake p →
    s.ends s.round = (Ends.none.opened .client).opened .stream
  sound : ∀ n, (s.ends n).Sound

section Loop

variable {s t : Loop} {e : Ends}

theorem sound_of_unborn (h : ∀ x, e.copy x = .unborn) : e.Sound :=
  ⟨fun x hx ↦ absurd ((h x).symm.trans hx) (by simp),
    fun x hx ↦ absurd ((h x).symm.trans hx) (by simp)⟩

theorem Inv.setEnds (h : Inv s) (n : ℕ) (he : e.Sound) (m : ℕ) :
    ((s.setEnds n e).ends m).Sound := by
  show (update s.ends n e m).Sound
  by_cases hm : m = n
  · rw [hm, update_self]
    exact he
  · rw [update_of_ne hm]
    exact h.sound m

theorem inv_start : Inv .start where
  opening h := by cases h
  handshake p h := by cases h
  sound _ := sound_of_unborn fun _ ↦ rfl

/-- In a round that has begun, the client is connected and no goroutine is started. -/
theorem Inv.unborn (h : Inv s) (hphase : s.InBody) :
    (s.ends s.round).isOpen .client = true ∧ ∀ x, (s.ends s.round).copy x = .unborn := by
  rcases hphase with hp | ⟨p, hp⟩
  · rw [h.opening hp]
    exact ⟨rfl, fun _ ↦ rfl⟩
  · rw [h.handshake p hp]
    exact ⟨rfl, fun _ ↦ rfl⟩

/-- The loop goes on. -/
theorem Inv.next (h : ∀ n, (s.ends n).Sound) : Inv s.next where
  opening h := by cases h
  handshake p h := by cases h
  sound := h

/-- The handshake goes on. -/
theorem Inv.goto (h : Inv s) {p : HostPhase} (hphase : s.phase = .handshake p) (q : HostPhase) :
    Inv { s with phase := .handshake q } where
  opening h := by cases h
  handshake _ _ := h.handshake p hphase
  sound := h.sound

theorem Inv.handOver (h : Inv s) : Inv s.handOver :=
  .next (h.setEnds _ ⟨fun _ hx ↦ absurd hx (by simp), fun _ hx ↦ absurd hx (by simp)⟩)

variable {n : ℕ} {a : Event}

/-- A goroutine moves on: it is not one of the current round. -/
theorem Inv.advance (h : Inv s) {x : End} (hadv : (s.ends n).advance x = some e) :
    Inv (s.setEnds n e) := by
  have hkeep : s.InBody → update s.ends n e s.round = s.ends s.round := by
    intro hphase
    refine update_of_ne (fun heq ↦ ?_) ..
    have hborn := (h.unborn hphase).2 x
    rw [heq] at hborn
    rcases Ends.advance_cases hadv with ⟨hcopy, -⟩ | ⟨hcopy, -⟩
    all_goals exact absurd (hborn.symm.trans hcopy) (by simp)
  exact
    { opening := fun hphase ↦ (hkeep (.inl hphase)).trans (h.opening hphase)
      handshake := fun p hphase ↦ (hkeep (.inr ⟨p, hphase⟩)).trans (h.handshake p hphase)
      sound := h.setEnds _ ((h.sound n).advance hadv) }

/-- **A step of a run.** -/
theorem inv_step (h : Inv s) (hstep : step s a = some t) : Inv t := by
  cases step_cases hstep with
  | returns =>
    exact
      { opening := fun hp ↦ by cases hp
        handshake := fun p hp ↦ by cases hp
        sound := h.sound }
  | accepts =>
    exact
      { opening := fun _ ↦ update_self ..
        handshake := fun p hp ↦ by cases hp
        sound := h.setEnds _ (sound_of_unborn fun _ ↦ rfl) }
  | opens _ hphase =>
    refine
      { opening := fun hp ↦ by cases hp
        handshake := fun p _ ↦ ?_
        sound := h.setEnds _ (sound_of_unborn fun x ↦ (h.unborn (.inl hphase)).2 x) }
    exact (update_self ..).trans (congrArg (·.opened .stream) (h.opening hphase))
  | goesOn _ hphase => exact h.goto hphase _
  | handsOver => exact h.handOver
  | givesUp => exact .next h.sound
  | copies _ hadv => exact h.advance hadv

/-! ### Connections that are given up -/

/-- The connection of a round that is over is left to its goroutines. -/
theorem ends_of_step (hstep : step s a = some t) (hn : n < s.round) :
    t.ends n = s.ends n ∨ ∃ x, (s.ends n).advance x = some (t.ends n) := by
  cases step_cases hstep with
  | returns | goesOn | givesUp => exact .inl rfl
  | accepts | opens | handsOver => exact .inl (update_of_ne hn.ne ..)
  | @copies _ m x e hadv =>
    by_cases hm : n = m
    · subst hm
      have hself : (s.setEnds n e).ends n = e := update_self ..
      exact .inr ⟨x, by rw [hself, hadv]⟩
    · exact .inl (update_of_ne hm ..)

/-- What an event does with the round: it goes on in it, or ends it with the connection handed to
the goroutines, or else gives the connection up. -/
theorem round_of_step (hstep : step s a = some t) :
    (a.Succeeds ∧ (t.round = s.round ∨ t.round = s.round + 1 ∧ (t.ends s.round).Handed)) ∨
      (¬ a.Succeeds ∧ s.InBody ∧ t = s.next) := by
  cases step_cases hstep with
  | returns ha | accepts ha | opens ha | goesOn ha | copies ha => exact .inl ⟨ha, .inl rfl⟩
  | handsOver ha =>
    refine .inl ⟨ha, .inr ⟨rfl, fun x ↦ ?_⟩⟩
    show (update s.ends s.round _ s.round).copy x ≠ _
    rw [update_self]
    simp
  | givesUp ha hbody => exact .inr ⟨ha, hbody, rfl⟩

/-- The connection of a round that is over has an open end, and no goroutine to close it. -/
structure Dangling (n : ℕ) (s : Loop) : Prop where
  past : n < s.round
  isOpen : (s.ends n).isOpen .client = true
  unborn : ∀ x, (s.ends n).copy x = .unborn

theorem Dangling.not_noDangling (h : Dangling n s) : ¬ NoDangling s := by
  intro hno
  rcases hno.disposed n h.past with hhanded | hclosed
  · exact hhanded .client (h.unborn .client)
  · have hopen := h.isOpen
    rw [hclosed .client] at hopen
    cases hopen

/-- **Every `continue` leaves a connection behind.** -/
theorem Inv.dangling_next (h : Inv s) (hbody : s.InBody) : Dangling s.round s.next where
  past := Nat.lt_succ_self _
  isOpen := (h.unborn hbody).1
  unborn := (h.unborn hbody).2

/-- **A connection that was left behind is never closed.** -/
theorem Dangling.of_run {as : List Event} (h : Dangling n s) (hrun : Run step s as t) :
    Dangling n t := by
  refine hrun.invariant (fun s a t hs _ hstep ↦ ?_) h
  have hround : s.round ≤ t.round := by
    rcases round_of_step hstep with ⟨-, hround | ⟨hround, -⟩⟩ | ⟨-, -, rfl⟩
    · exact hround.ge
    · omega
    · exact Nat.le_succ _
  have hsame : t.ends n = s.ends n := by
    rcases ends_of_step hstep hs.past with hsame | ⟨x, hadv⟩
    · exact hsame
    · rcases Ends.advance_cases hadv with ⟨hcopy, -⟩ | ⟨hcopy, -⟩
      all_goals exact absurd ((hs.unborn x).symm.trans hcopy) (by simp)
  exact ⟨hs.past.trans_le hround, hsame ▸ hs.isOpen, hsame ▸ hs.unborn⟩

/-- **One event, exactly.** -/
theorem noDangling_step_iff (h : Inv s) (hno : NoDangling s) (hstep : step s a = some t) :
    NoDangling t ↔ a.Succeeds := by
  have hpast : ∀ n < s.round, (t.ends n).Handed ∨ (t.ends n).Closed := by
    intro n hn
    rcases ends_of_step hstep hn with hsame | ⟨x, hadv⟩
    · rw [hsame]
      exact hno.disposed n hn
    · exact (hno.disposed n hn).imp (·.advance hadv) (·.advance hadv)
  rcases round_of_step hstep with ⟨hsucc, hround⟩ | ⟨hfail, hbody, rfl⟩
  · refine iff_of_true ⟨fun n hn ↦ ?_, fun n ↦ ((inv_step h hstep).sound n).ended⟩ hsucc
    rcases hround with hround | ⟨hround, hhanded⟩
    · exact hpast n (hround ▸ hn)
    · rcases Nat.lt_succ_iff_lt_or_eq.1 (hround ▸ hn) with hlt | rfl
      · exact hpast n hlt
      · exact .inl hhanded
  · exact iff_of_false (h.dangling_next hbody).not_noDangling hfail

end Loop

/-- **No dangling connections, exactly.** In every run of `forwardPort`, each connection is handed
to the goroutines or closed before the loop goes on, and closed by a goroutine that ends, if and
only if no stream fails to open, no message fails to be sent, no reply fails to be decoded and no
reply is other than `OK`. -/
theorem noDangling_throughout_iff (events : List Event) (t : Loop) (h : Run step .start events t) :
    Throughout step NoDangling .start events ↔
      RunWhile step (fun _ a ↦ a.Succeeds) .start events t := by
  have hstart : NoDangling .start :=
    ⟨fun n hn ↦ absurd hn (Nat.not_lt_zero n), fun n ↦ (inv_start.sound n).ended⟩
  exact RunWhile.throughout_iff (fun s a t hs hstep ↦ inv_step hs hstep)
    (fun s a t hs hno hstep ↦ noDangling_step_iff hs hno hstep) h inv_start hstart

/-- The events of a round in which all goes well, up to the reply. -/
def handshakeEvents (resp : ResponseMessage) : List Event :=
  [.accept true, .openStream true, .greet true, .encodeHeader true, .encodePortForward true,
    .decode (some resp)]

/-- A client that is forwarded, and leaves. -/
theorem noDangling_of_ok :
    ∃ t, Run step .start (handshakeEvents .ok ++ [.copy 0 .stream, .copy 0 .stream]) t ∧
      Throughout step NoDangling .start
        (handshakeEvents .ok ++ [.copy 0 .stream, .copy 0 .stream]) := by
  have hrun : RunWhile step (fun _ a ↦ a.Succeeds) .start
      (handshakeEvents .ok ++ [.copy 0 .stream, .copy 0 .stream]) _ :=
    .cons trivial rfl <| .cons rfl rfl <| .cons trivial rfl <| .cons rfl rfl <| .cons rfl rfl <|
      .cons ⟨.ok, rfl, rfl⟩ rfl <| .cons trivial rfl <| .cons trivial rfl <| .nil _
  have h := hrun.mono (D := fun _ _ ↦ True) fun _ _ _ ↦ trivial
  exact ⟨_, h, (noDangling_throughout_iff _ _ h).2 hrun⟩

/-- **A client of a port on which the guest cannot reach the service stays connected.** -/
theorem not_noDangling_of_refused :
    ∃ t, Run step .start (handshakeEvents (.failed "connection refused")) t ∧
      t.phase = .accept ∧ ¬ NoDangling t := by
  refine ⟨_, .cons trivial rfl <| .cons trivial rfl <| .cons trivial rfl <| .cons trivial rfl <|
    .cons trivial rfl <| .cons trivial rfl <| .nil _, rfl, ?_⟩
  exact Dangling.not_noDangling (n := 0) ⟨Nat.one_pos, rfl, fun _ ↦ rfl⟩

/-! ### The handshake of a connection -/

/-- The loop when the connection of its round has come to a phase. -/
def Loop.follow (l : Loop) : HostPhase → Loop
  | .start => { l with phase := .handshake .start }
  | .header => { l with phase := .handshake .header }
  | .portForward => { l with phase := .handshake .portForward }
  | .awaiting => { l with phase := .handshake .awaiting }
  | .forwarding | .closed => l.handOver
  | .rejected | .failed => l.next

section Handshake

variable {cbor : Cbor} {pf : PortForwardMessage} {s t : Conn} {a : Action}

/-- An event that takes the loop from one phase of the connection to another. -/
def Leads (p q : HostPhase) : Prop :=
  ∃ e, ∀ l : Loop, step (l.follow p) e = some (l.follow q)

theorem leads_of_greets {p q : HostPhase} {bs : Bytes} (h : Greets cbor pf p bs q) :
    Leads p q := by
  rcases h with - | - | -
  · exact ⟨.greet true, fun _ ↦ rfl⟩
  · exact ⟨.encodeHeader true, fun _ ↦ rfl⟩
  · exact ⟨.encodePortForward true, fun _ ↦ rfl⟩

theorem leads_failed {p : HostPhase} (h : p.fallible = true) : Leads p .failed := by
  cases p with
  | header => exact ⟨.encodeHeader false, fun _ ↦ rfl⟩
  | portForward => exact ⟨.encodePortForward false, fun _ ↦ rfl⟩
  | awaiting => exact ⟨.decode none, fun _ ↦ rfl⟩
  | start | forwarding | closed | rejected | failed => exact absurd h (by simp [HostPhase.fallible])

theorem leads_decided (m : ResponseMessage) :
    Leads .awaiting (if m.code = codeOK then .forwarding else .rejected) := by
  refine ⟨.decode (some m), fun l ↦ ?_⟩
  by_cases hcode : m.code = codeOK
  · simp only [if_pos hcode]
    show some (if m.code = codeOK then _ else _) = _
    rw [if_pos hcode]
    rfl
  · simp only [if_neg hcode]
    show some (if m.code = codeOK then _ else _) = _
    rw [if_neg hcode]
    rfl

/-- **A step of a connection** leaves the loop where it is or is an event of it. -/
theorem leads_of_step (hstep : Forward.step cbor pf s a = some t) :
    (∀ l : Loop, l.follow t.host = l.follow s.host) ∨ Leads s.host t.host := by
  cases a with
  | hostSend =>
    rcases sendGreeting_cases hstep with ⟨hfal, rfl⟩ | ⟨bs, p, hgreet, rfl⟩
    · exact .inr (leads_failed hfal)
    · exact .inr (leads_of_greets hgreet)
  | hostDecode =>
    obtain ⟨hhost, ⟨m, n, -, rfl⟩ | ⟨-, rfl⟩⟩ := decodeReply_cases hstep
    · rw [hhost]
      exact .inr (leads_decided m)
    · exact .inr (leads_failed (by rw [hhost]; rfl))
  | hostFail =>
    obtain ⟨hfal, rfl⟩ := guarded_eq_some hstep
    exact .inr (leads_failed hfal)
  | hostClose =>
    obtain ⟨hhost, rfl⟩ := guarded_eq_some hstep
    rw [hhost]
    exact .inl fun _ ↦ rfl
  | clientSend bs =>
    cases hstep
    exact .inl fun _ ↦ rfl
  | serviceSend bs | hostRead n | hostUp n | hostDown n | guestFill n | guestRead n | guestUp n
  | guestDown n | guestFail | guestClose =>
    obtain ⟨-, rfl⟩ := guarded_eq_some hstep
    exact .inl fun _ ↦ rfl
  | guestPeek =>
    obtain ⟨-, b, bs, -, ⟨-, rfl⟩ | ⟨-, rfl⟩⟩ := peekProtocol_cases hstep
    all_goals exact .inl fun _ ↦ rfl
  | guestDecode =>
    rcases decodeRequest_cases hstep with ⟨-, m, n, -, rfl⟩ | ⟨-, m, n, -, rfl⟩ | ⟨-, rfl⟩
    all_goals exact .inl fun _ ↦ rfl
  | guestDial err =>
    simp only [Forward.step] at hstep
    split at hstep
    · cases hstep
      exact .inl fun _ ↦ rfl
    · exact absurd hstep (by simp)
  | guestReply =>
    rcases sendReply_cases hstep with ⟨-, bs, -, rfl⟩ | ⟨text, -, bs, -, rfl⟩ | ⟨-, rfl⟩
    all_goals exact .inl fun _ ↦ rfl

/-- **A connection is a round of the loop.** Whatever the two ends of a connection do, the loop
comes from the open stream to where the connection has come. -/
theorem run_follow {as : List Action} (h : Run (Forward.step cbor pf) .start as t) (l : Loop) :
    ∃ es, Run step (l.follow .start) es (l.follow t.host) := by
  have hround : ∀ s a t m, m = l.follow s.host → True → Forward.step cbor pf s a = some t →
      ∃ es n, Run step m es n ∧ n = l.follow t.host := by
    rintro s a t _ rfl - hstep
    rcases leads_of_step hstep with hsame | ⟨e, he⟩
    · exact ⟨[], _, .nil _, (hsame l).symm⟩
    · exact ⟨[e], _, .cons trivial (he l) (.nil _), rfl⟩
  obtain ⟨es, -, hrun, rfl⟩ := RunWhile.simulates hround h rfl
  exact ⟨es, hrun⟩

end Handshake

end Forward.Accept
