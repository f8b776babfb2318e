import Isle.Ssh.Link

/-!
# The streams of an SSH channel, end to end

What `ReadExtended` gives at one end of a channel is what `WriteExtended` was given at the other,
code by code. That nothing is lost, mixed up or doubled is the invariant of the two ends; what is
left to show is that the data **arrives**, by reads into slices of any size.

It does, as long as no call has 2³² bytes or more (`demux_throughout_iff`). `WriteExtended` takes
the length of the data left modulo 2³² for what it can send at once, so such a call sends the
remainder and then, for ever, packets without data (`unsent_div_step`).
-/

namespace Ssh

namespace Link

/-! ### Going on without writes -/

/-- No call of `WriteExtended` is made, and those of `ReadExtended` have slices of length `n`. -/
def GoesOn (n : ℕ) (_ : Link) : Action → Prop
  | .write _ _ => False
  | .read _ m => m = n
  | _ => True

/-- **All that was written can be read**, in the order it was written and by reads of any size. -/
structure Demuxed (l : Link) : Prop where
  /-- What was read of a code is the beginning of what was written. -/
  got_prefix : ∀ code, l.got code <+: l.written code
  /-- The rest can be read too. -/
  drains : ∀ n, n ≠ 0 → ∃ as l', RunWhile Link.step (GoesOn n) l as l' ∧ l'.got = l.written

/-- A call has fewer than 2³² bytes. -/
def Fits (_ : Link) : Action → Prop
  | .write _ data => data.length < 2 ^ 32
  | _ => True

instance (l : Link) : ∀ a, Decidable (Fits l a)
  | .write _ data => inferInstanceAs (Decidable (data.length < 2 ^ 32))
  | .reserve _ | .send _ | .deliver | .read _ _ | .resume _ _ | .credit _ | .adjust _ | .widen _ =>
    isTrue trivial

/-- No call has 2³² bytes left. -/
def Small (l : Link) : Prop := ∀ code, (l.sender.unsent code).length < 2 ^ 32

variable {l l' : Link}

theorem Inv.got_prefix (h : Inv l) (code : UInt32) : l.got code <+: l.written code :=
  ⟨_, h.data code⟩

variable {a : Action} {s : Sender} {code : UInt32} {n : ℕ}

/-- **A call keeps the quotient of what it has left.** -/
theorem unsent_div_step (h : Inv l) (ha : ∀ code data, a ≠ .write code data)
    (hstep : l.step a = some l') (code : UInt32) :
    (l'.sender.unsent code).length / 2 ^ 32 = (l.sender.unsent code).length / 2 ^ 32 := by
  cases a with
  | write code data => exact absurd rfl (ha code data)
  | reserve code' =>
    obtain ⟨s, hreserve, rfl⟩ := Option.map_eq_some_iff.1 hstep
    obtain ⟨k, -, -, -, -, hmoved⟩ := h.sender.reserve hreserve
    rw [show s.unsent = l.sender.unsent by rw [hmoved.unsent, Function.update_eq_self]]
  | send code' =>
    obtain ⟨⟨p, s⟩, hsend, rfl⟩ := Option.map_eq_some_iff.1 hstep
    obtain ⟨-, hleft, -, -, hmoved⟩ := h.sender.send hsend
    show (s.unsent code).length / 2 ^ 32 = _
    rw [hmoved.unsent]
    rcases eq_or_ne code code' with rfl | hne
    · -- a packet takes no more than the remainder, so the quotient stays
      rw [Function.update_self, List.length_drop]
      omega
    · rw [Function.update_of_ne hne]
  | deliver =>
    rcases hwire : l.wire with - | ⟨p, wire⟩
    · simp [step, h.failed, hwire] at hstep
    · obtain ⟨_, _, -, -, -, hdeliver⟩ := h.deliver_eq hwire
      obtain rfl := Option.some.inj (hdeliver.symm.trans hstep)
      rfl
  | read code' n =>
    cases hstep
    rfl
  | resume code' n | credit data | widen n =>
    obtain ⟨-, rfl⟩ := guarded_eq_some hstep
    rfl
  | adjust n =>
    obtain ⟨⟨-, hn⟩, hstep⟩ := Option.ite_none_right_eq_some.1 hstep
    rw [h.addWindow_eq hn] at hstep
    cases hstep
    rfl

/-! ### Progress -/

/-- What the call with the code still has to do. -/
def weight (s : Sender) (code : UInt32) : ℕ := 2 * (s.unsent code).length - min 1 (s.reserved code)

/-- What is still to be done, each byte and each message counted for the stations it has before
it. -/
def backlog (l : Link) : ℕ :=
  5 * (∑ code, weight l.sender code) + (l.wire.length + 3 * wireBytes l.wire) +
    3 * l.chan.unread + 2 * l.uncredited.length + l.adjusts.length + if l.granted = 0 then 2 else 0

theorem sum_weight_moved {s' : Sender} {left : Bytes} {k : ℕ} (h : Sender.Moved s s' code left k) :
    ∑ j, weight s' j + weight s code = ∑ j, weight s j + (2 * left.length - min 1 k) := by
  have hsum := sum_update_add (fun p : Bytes × ℕ ↦ 2 * p.1.length - min 1 p.2)
    (fun j ↦ (s.unsent j, s.reserved j)) code (left, k)
  have hpair : ∀ j, Function.update (fun j ↦ (s.unsent j, s.reserved j)) code (left, k) j =
      (s'.unsent j, s'.reserved j) := by
    intro j
    rw [h.unsent, h.reserved]
    rcases eq_or_ne j code with rfl | hne
    · simp only [Function.update_self]
    · simp only [Function.update_of_ne hne]
  simp only [hpair] at hsum
  exact hsum

/-- A call in progress that has reserved nothing yet, by what can be seen of it. -/
theorem exists_call (hs : s.Ok) (hne : s.unsent code ≠ []) (hlt : (s.unsent code).length < 2 ^ 32)
    (hreserved : s.reserved code = 0) : ∃ c, s.calls code = some c ∧ c.space = none := by
  rcases hcalls : s.calls code with - | c
  · rw [Sender.unsent, hcalls] at hne
    exact absurd rfl hne
  refine ⟨c, rfl, ?_⟩
  replace hlt : c.left.length < 2 ^ 32 := by rwa [Sender.unsent, hcalls] at hlt
  rw [Sender.reserved, hcalls] at hreserved
  rcases hspace : c.space with - | k
  · rfl
  · obtain rfl : k = 0 := by simpa [hspace] using hreserved
    have hmod := (hs.calls code c hcalls).space_pos 0 hspace rfl
    rw [Nat.mod_eq_of_lt hlt] at hmod
    exact absurd (List.length_eq_zero_iff.1 hmod) (hs.calls code c hcalls).left_ne

theorem exists_call_of_reserved (h : 0 < s.reserved code) :
    ∃ c k, s.calls code = some c ∧ c.space = some k := by
  rcases hcalls : s.calls code with - | c
  · rw [Sender.reserved, hcalls] at h
    exact absurd h (lt_irrefl 0)
  · rw [Sender.reserved, hcalls] at h
    rcases hspace : c.space with - | k
    · rw [show (some c).bind Call.space = c.space from rfl, hspace] at h
      exact absurd h (lt_irrefl 0)
    · exact ⟨c, k, rfl, hspace⟩

theorem backlog_deliver (h : Inv l) (hwire : l.wire ≠ []) :
    ∃ l', l.step .deliver = some l' ∧ backlog l' < backlog l := by
  obtain ⟨p, wire, hcons⟩ := List.exists_cons_of_ne_nil hwire
  obtain ⟨code, data, rfl, -, -, hdeliver⟩ := h.deliver_eq hcons
  refine ⟨_, hdeliver, ?_⟩
  have hbytes := wireBytes_cons wire l.sender.remoteId code data
  have hlen : l.wire.length = wire.length + 1 := by rw [hcons, List.length_cons]
  have hunread := l.chan.unread_receive code data
  rw [← hcons] at hbytes
  simp only [backlog]
  omega

/-- A read takes something from the backlog. -/
theorem backlog_read (hn : n ≠ 0) (hne : (l.chan.stream code).content ≠ []) :
    ∃ l', l.step (.read code n) = some l' ∧ backlog l' < backlog l := by
  refine ⟨_, rfl, ?_⟩
  obtain ⟨-, hread⟩ | ⟨hnil, -⟩ | ⟨hnil, -⟩ := (l.chan.stream code).read_cases hn
  · have htake : (l.chan.stream code).content.take n ≠ [] := fun h ↦
      hne ((List.take_eq_nil_iff.1 h).resolve_left hn)
    have hpos := List.length_pos_iff.2 htake
    have hunread := l.chan.unread_setStream code ((l.chan.stream code).advance n)
    have hsplit := congrArg List.length (List.take_append_drop n (l.chan.stream code).content)
    rw [Buffer.content_advance] at hunread
    rw [List.length_append] at hsplit
    have huncredited : (l.afterRead code (.bytes ((l.chan.stream code).content.take n),
        (l.chan.stream code).advance n)).uncredited =
          l.uncredited ++ [(l.chan.stream code).content.take n] := if_neg htake
    rw [hread]
    show 5 * (∑ code, weight l.sender code) + (l.wire.length + 3 * wireBytes l.wire) +
      3 * (l.chan.setStream code ((l.chan.stream code).advance n)).unread +
      2 * (l.afterRead code _).uncredited.length + l.adjusts.length +
      (if l.granted = 0 then 2 else 0) < backlog l
    rw [huncredited, List.length_append, List.length_singleton, backlog]
    omega
  · exact absurd hnil hne
  · exact absurd hnil hne

theorem backlog_credit {data : Bytes} (hdata : data ∈ l.uncredited) :
    ∃ l', l.step (.credit data) = some l' ∧ backlog l' < backlog l := by
  refine ⟨_, if_pos hdata, ?_⟩
  have hlen := List.length_erase_of_mem hdata
  have hpos := List.length_pos_of_mem hdata
  have hunread : (l.chan.adjustWindow (.bytes data)).unread = l.chan.unread := rfl
  simp only [backlog, List.length_append, List.length_singleton]
  omega

theorem backlog_adjust (h : Inv l) (hn : n ∈ l.adjusts) :
    ∃ l', l.step (.adjust n) = some l' ∧ backlog l' < backlog l := by
  have hstep : l.step (.adjust n) = some { l with
      sender := { l.sender with remoteWin := l.sender.remoteWin + n }
      adjusts := l.adjusts.erase n } := by
    simp only [step, if_pos (And.intro h.failed hn), h.addWindow_eq hn]
  refine ⟨_, hstep, ?_⟩
  have hlen := List.length_erase_of_mem hn
  have hpos := List.length_pos_of_mem hn
  have hweight : ∀ code, weight { l.sender with remoteWin := l.sender.remoteWin + n } code =
    weight l.sender code := fun _ ↦ rfl
  simp only [backlog, hweight]
  omega

theorem backlog_send (h : Inv l) (hpos : 0 < l.sender.reserved code) :
    ∃ l', l.step (.send code) = some l' ∧ backlog l' < backlog l := by
  obtain ⟨c, k, hc, hspace⟩ := exists_call_of_reserved hpos
  obtain ⟨p, s, hsend⟩ := Sender.exists_send hc hspace
  refine ⟨_, Option.map_eq_some_iff.2 ⟨(p, s), hsend, rfl⟩, ?_⟩
  obtain ⟨-, hleft, hp, -, hmoved⟩ := h.sender.send hsend
  have hle := hleft.trans (Nat.mod_le _ _)
  have hsum := sum_weight_moved hmoved
  have hbytes : wireBytes (l.wire ++ [p]) = wireBytes l.wire + l.sender.reserved code := by
    rw [hp, wireBytes_concat, List.length_take, Nat.min_eq_left hle]
  rw [List.length_drop, weight] at hsum
  show 5 * (∑ code, weight s code) + ((l.wire ++ [p]).length + 3 * wireBytes (l.wire ++ [p])) +
    3 * l.chan.unread + 2 * l.uncredited.length + l.adjusts.length +
    (if l.granted = 0 then 2 else 0) < backlog l
  rw [hbytes, List.length_append, List.length_singleton, backlog]
  omega

/-- Room that is reserved is less to do. -/
theorem backlog_reserve (h : Inv l) (hsmall : Small l) (hne : l.sender.unsent code ≠ [])
    (hreserved : l.sender.reserved code = 0) (hwin : l.sender.remoteWin ≠ 0) :
    ∃ l', l.step (.reserve code) = some l' ∧ backlog l' < backlog l := by
  obtain ⟨c, hc, hspace⟩ := exists_call h.sender hne (hsmall code) hreserved
  obtain ⟨s, hreserve⟩ := Sender.exists_reserve hc hspace hwin
  refine ⟨_, Option.map_eq_some_iff.2 ⟨s, hreserve, rfl⟩, ?_⟩
  obtain ⟨k, -, -, -, hzero, hmoved⟩ := h.sender.reserve hreserve
  have hpos := List.length_pos_iff.2 hne
  have hk : k ≠ 0 := fun hk ↦ by
    have hmod := hzero hk
    rw [Nat.mod_eq_of_lt (hsmall code)] at hmod
    omega
  have hsum := sum_weight_moved hmoved
  rw [weight] at hsum
  show 5 * (∑ code, weight s code) + (l.wire.length + 3 * wireBytes l.wire) +
    3 * l.chan.unread + 2 * l.uncredited.length + l.adjusts.length +
    (if l.granted = 0 then 2 else 0) < backlog l
  rw [backlog]
  omega

theorem backlog_widen (h : l.granted = 0) :
    ∃ l', l.step (.widen 1) = some l' ∧ backlog l' < backlog l := by
  refine ⟨_, if_pos (by rw [h]; decide), ?_⟩
  show 5 * (∑ code, weight l.sender code) + (l.wire.length + 3 * wireBytes l.wire) +
    3 * l.chan.unread + 2 * l.uncredited.length + (l.adjusts ++ [1]).length +
    (if l.granted + 1 = 0 then 2 else 0) < backlog l
  rw [if_neg (Nat.succ_ne_zero _), List.length_append, List.length_singleton, backlog, if_pos h]
  omega

/-- **Some step is always left** until all is read, and it brings the end nearer. -/
theorem exists_progress (h : Inv l) (hsmall : Small l) (hn : n ≠ 0) (hne : l.got ≠ l.written) :
    ∃ a l', GoesOn n l a ∧ l.step a = some l' ∧ backlog l' < backlog l := by
  by_cases hwire : l.wire = []
  swap
  · obtain ⟨l', hstep, hlt⟩ := backlog_deliver h hwire
    exact ⟨.deliver, l', trivial, hstep, hlt⟩
  by_cases hread : ∃ code, (l.chan.stream code).content ≠ []
  · obtain ⟨code, hcode⟩ := hread
    obtain ⟨l', hstep, hlt⟩ := backlog_read hn hcode
    exact ⟨.read code n, l', rfl, hstep, hlt⟩
  rcases huncredited : l.uncredited with - | ⟨data, rest⟩
  swap
  · obtain ⟨l', hstep, hlt⟩ := backlog_credit (l := l) (huncredited ▸ List.mem_cons_self)
    exact ⟨.credit data, l', trivial, hstep, hlt⟩
  rcases hadjusts : l.adjusts with - | ⟨m, rest⟩
  swap
  · obtain ⟨l', hstep, hlt⟩ := backlog_adjust h (hadjusts ▸ List.mem_cons_self)
    exact ⟨.adjust m, l', trivial, hstep, hlt⟩
  by_cases hreserved : ∃ code, 0 < l.sender.reserved code
  · obtain ⟨code, hpos⟩ := hreserved
    obtain ⟨l', hstep, hlt⟩ := backlog_send h hpos
    exact ⟨.send code, l', trivial, hstep, hlt⟩
  by_cases hgranted : l.granted = 0
  · obtain ⟨l', hstep, hlt⟩ := backlog_widen hgranted
    exact ⟨.widen 1, l', trivial, hstep, hlt⟩
  -- Nothing is on the way, so the sender has the whole window, and some call has data left.
  simp only [not_exists, not_not, Nat.not_lt, Nat.le_zero] at hread hreserved
  have hunread : l.chan.unread = 0 := Finset.sum_eq_zero fun code _ ↦ by rw [hread code]; rfl
  have hbytes : l.sender.reservedBytes = 0 := Finset.sum_eq_zero fun code _ ↦ hreserved code
  have hwin : l.sender.remoteWin ≠ 0 := by
    have hcredit := h.credit
    have hwindow := h.window
    rw [hbytes, hwire, hadjusts, show wireBytes [] = 0 from rfl, List.sum_nil] at hcredit
    rw [hunread, uncreditedBytes, huncredited, List.map_nil, List.sum_nil] at hwindow
    omega
  obtain ⟨code, hcode⟩ := Function.ne_iff.1 hne
  have hunsent : l.sender.unsent code ≠ [] := fun hnil ↦ by
    have hdata := h.data code
    rw [hread code, hwire, hnil, show flying [] code = [] from rfl] at hdata
    exact hcode (by simpa using hdata)
  obtain ⟨l', hstep, hlt⟩ := backlog_reserve h hsmall hunsent (hreserved code) hwin
  exact ⟨.reserve code, l', trivial, hstep, hlt⟩

/-! ### From one end to the other -/

/-- Only a call with 2³² bytes or more makes a state that is not small. -/
theorem small_step_iff (h : Inv l) (hsmall : Small l) (hstep : l.step a = some l') :
    Small l' ↔ Fits l a := by
  by_cases hwrite : ∃ code data, a = .write code data
  · obtain ⟨code, data, rfl⟩ := hwrite
    obtain ⟨s, hbegin, rfl⟩ := Option.map_eq_some_iff.1 hstep
    obtain ⟨hmoved, -⟩ := h.sender.begin hbegin
    have hunsent : ∀ other, s.unsent other = Function.update l.sender.unsent code data other :=
      congrFun hmoved.unsent
    constructor
    · intro hsmall'
      have hcode := hsmall' code
      rwa [show Sender.unsent _ code = s.unsent code from rfl, hunsent,
        Function.update_self] at hcode
    · intro hdata other
      show (s.unsent other).length < 2 ^ 32
      rw [hunsent]
      rcases eq_or_ne other code with rfl | hne
      · rwa [Function.update_self]
      · rw [Function.update_of_ne hne]
        exact hsmall other
  · have ha : ∀ code data, a ≠ .write code data := fun code data h ↦ hwrite ⟨code, data, h⟩
    refine iff_of_true (fun code ↦ ?_) ?_
    · -- only a write adds to what is unsent
      have hdiv := unsent_div_step h ha hstep code
      have hlt := hsmall code
      omega
    · cases a with
      | write code data => exact absurd rfl (ha code data)
      | _ => trivial

theorem GoesOn.ne_write (h : GoesOn n l a) (code : UInt32) (data : Bytes) :
    a ≠ .write code data := by
  rintro rfl
  exact h

/-- **What is written arrives**, exactly if no call has 2³² bytes left. -/
theorem demuxed_iff (h : Inv l) : Demuxed l ↔ Small l := by
  constructor
  · intro hdemuxed code
    obtain ⟨as, l', hrun, hgot⟩ := hdemuxed.drains 1 one_ne_zero
    by_contra hlarge
    -- The call keeps 2³² bytes, whatever else goes on.
    obtain ⟨hinv, hwritten, hleft⟩ := hrun.invariant
      (I := fun m ↦ Inv m ∧ m.written = l.written ∧ 2 ^ 32 ≤ (m.sender.unsent code).length)
      (fun m a m' ⟨hinv, hwritten, hleft⟩ hgoes hstep ↦ by
        have hdiv := unsent_div_step hinv hgoes.ne_write hstep code
        exact ⟨hinv.step hstep, ((step_frame hstep).2 hgoes.ne_write).trans hwritten, by omega⟩)
      ⟨h, rfl, Nat.not_lt.1 hlarge⟩
    have hdata := congrArg List.length (hinv.data code)
    rw [hwritten, hgot] at hdata
    simp only [List.length_append] at hdata
    omega
  · intro hsmall
    refine ⟨h.got_prefix, fun n hn ↦ ?_⟩
    obtain ⟨as, l', hrun, ⟨-, -, hwritten⟩, hdone⟩ := RunWhile.exists_of_measure
      (C := GoesOn n) (I := fun m ↦ Inv m ∧ Small m ∧ m.written = l.written)
      (D := fun m ↦ m.got = m.written) backlog
      (fun m ⟨hinv, hsmall, hwritten⟩ hne ↦ by
        obtain ⟨a, m', hgoes, hstep, hlt⟩ := exists_progress hinv hsmall hn hne
        have hsmall' := (small_step_iff hinv hsmall hstep).2 (by
          cases a with
          | write code data => exact hgoes.elim
          | _ => trivial)
        exact ⟨a, m', hgoes, hstep, ⟨hinv.step hstep, hsmall',
          ((step_frame hstep).2 hgoes.ne_write).trans hwritten⟩, hlt⟩)
      ⟨h, hsmall, rfl⟩
    exact ⟨as, l', hrun, hdone.trans hwritten⟩

/-- **The streams of a channel, end to end.** For every `MaxPacketSize` a peer may announce, every
window and every run: in every state what was read of each code is the beginning of what was
written, and the rest can be read by reads of any size, exactly when every call of the run has fewer
than 2³² bytes. -/
theorem demux_throughout_iff (remoteId : UInt32) {maxPacketSize window : ℕ}
    (hsize : ValidMaxPacketSize maxPacketSize) (hwindow : window < 2 ^ 32) {as : List Action}
    (h : Run Link.step (opened remoteId maxPacketSize window) as l) :
    Throughout Link.step Demuxed (opened remoteId maxPacketSize window) as ↔
      RunWhile Link.step Fits (opened remoteId maxPacketSize window) as l := by
  have hinv := inv_opened remoteId hsize hwindow
  refine h.throughout_iff (J := Inv) (fun _ _ _ h ↦ h.step) ?_ hinv ?_
  · intro l a l' hinv hdemuxed hstep
    rw [demuxed_iff (hinv.step hstep)]
    exact small_step_iff hinv ((demuxed_iff hinv).1 hdemuxed) hstep
  · exact (demuxed_iff hinv).2 fun _ ↦ show ([] : Bytes).length < 2 ^ 32 by decide

theorem demux_stderrInFlight :
    ValidMaxPacketSize 9 ∧ ∃ l, Run Link.step (opened 7 9 4) stderrInFlight l ∧ l.got 1 = [5, 6] ∧
      Throughout Link.step Demuxed (opened 7 9 4) stderrInFlight := by
  have hsize : ValidMaxPacketSize 9 := ⟨by decide, by decide⟩
  obtain ⟨l, hrun, hfits, hgot⟩ : ∃ l, Run Link.step (opened 7 9 4) stderrInFlight l ∧
      RunWhile Link.step Fits (opened 7 9 4) stderrInFlight l ∧ l.got 1 = [5, 6] :=
    ⟨_, run_iff_foldlM.2 rfl, runWhile_iff_foldlM.2 rfl, rfl⟩
  exact ⟨hsize, l, hrun, hgot, (demux_throughout_iff 7 hsize (by decide) hrun).2 hfits⟩

/-- A call can be made while none with the code is in progress. -/
theorem exists_write (h : l.sender.calls code = none) (data : Bytes) :
    ∃ l', l.step (.write code data) = some l' := by
  have hcall : ¬ (l.sender.calls code).isSome = true := by
    rw [h]
    exact Bool.false_ne_true
  simp only [step, Sender.begin, if_neg hcall]
  split_ifs
  · exact ⟨_, rfl⟩
  · exact ⟨_, rfl⟩

/-- **A call with 2³² bytes does not arrive**, between two channels of this package. -/
theorem exists_not_demuxed :
    ∃ l, Run Link.step (opened 7 channelMaxPacket channelWindowSize)
        [.write 1 (List.replicate (2 ^ 32) 0)] l ∧ ¬ Demuxed l := by
  have hinv : Inv (opened 7 channelMaxPacket channelWindowSize) :=
    inv_opened 7 ⟨by decide, by decide⟩ (by decide)
  have hsmall : Small (opened 7 channelMaxPacket channelWindowSize) := fun _ ↦
    show ([] : Bytes).length < 2 ^ 32 by decide
  obtain ⟨l, hstep⟩ := exists_write
    (show (opened 7 channelMaxPacket channelWindowSize).sender.calls 1 = none from rfl)
    (List.replicate (2 ^ 32) 0)
  refine ⟨l, .cons trivial hstep (.nil l), fun hdemuxed ↦ ?_⟩
  have hfits := (small_step_iff hinv hsmall hstep).1 ((demuxed_iff (hinv.step hstep)).1 hdemuxed)
  rw [Fits, List.length_replicate] at hfits
  exact lt_irrefl _ hfits

end Link

end Ssh
