import Isle.Guest.Adverts

/-!
# Agreement of the subscribers with what is advertised

Whether a subscriber that takes the snapshot of `RegisterEvents` and then every event ends with the
advertisements of `Adverts`, once all events are delivered. The two halves differ.

* **Nothing is missed** (`reaching_of_run`), in any run: what is advertised is held by each
  subscriber, or in its channel, or with a goroutine that has not passed it. The snapshot is taken
  under the lock that `Add` holds, and the walk of a goroutine yields every key that was there when
  it began.
* **Nothing is too much**, only where nothing is taken back. `Remove` sends its event with `Add`
  set, so that a subscriber keeps what was removed, and gets it if it did not have it; and an event
  that is still on its way when its advertisement is removed is inserted later.

`agrees_of_runWhile` has the condition: an advertisement is removed only while it is advertised
under another id or nobody is registered, and nobody registers while an event of a removed
advertisement is on its way.

The snapshot itself is not the list `Adverts` returns. It is made with the length of the map and
then appended to, so it begins with as many `nil`s as there are advertisements; it is that list
exactly when every advertisement was taken back (`snapshotExact_iff_takenBack`).
-/

open Function (update update_self update_of_ne)

namespace Guest.Adverts

variable {α : Type}

/-- All events are delivered. -/
structure State.Quiet (s : State α) : Prop where
  notifiers : s.notifiers = []
  buffer : ∀ e ∈ s.advertEvents, s.buffer e.2 = []

/-- **Every subscriber holds what is advertised**, and nothing else. -/
def State.Agrees (s : State α) : Prop :=
  ∀ e ∈ s.advertEvents, ∀ ad, ad ∈ s.held e.2 ↔ ad ∈ s.advertised

/-- What is taken back was told to nobody: a removed advertisement is advertised under another id or
there is no subscriber, and nobody registers while an event of what is not advertised is on its
way. -/
def Additive (s : State α) : Action α → Prop
  | .register _ => ∀ g ∈ s.notifiers, ∀ ad ∈ g.event.advertisement, ad ∈ s.advertised
  | .remove id => s.advertEvents = [] ∨
      ∀ ad ∈ (s.adverts.filter fun e ↦ e.1 = id).map Prod.snd, ad ∈ (s.withoutId id).map Prod.snd
  | _ => True

instance [DecidableEq α] (s : State α) : ∀ a, Decidable (Additive s a)
  | .register _ => inferInstanceAs (Decidable (∀ g ∈ s.notifiers, ∀ _ ∈ _, _ ∈ s.advertised))
  | .remove _ => inferInstanceAs (Decidable (_ ∨ _))
  | .unregister _ | .add _ | .next _ _ | .deliver _ | .finish _ | .receive _ | .stop _ =>
    inferInstanceAs (Decidable True)

/-! ### Lists of goroutines -/

section Lists

variable {β : Type} {l : List β} {i : ℕ} {x y : β}

theorem eq_or_mem_set (h : l[i]? = some x) (z : β) (hy : y ∈ l) : y = x ∨ y ∈ l.set i z := by
  obtain ⟨j, hj⟩ := List.mem_iff_getElem?.1 hy
  rcases eq_or_ne i j with rfl | hne
  · exact .inl (Option.some.inj (hj.symm.trans h))
  · exact .inr (List.mem_of_getElem? ((List.getElem?_set_ne hne).trans hj))

theorem eq_or_mem_eraseIdx (h : l[i]? = some x) (hy : y ∈ l) : y = x ∨ y ∈ l.eraseIdx i := by
  obtain ⟨j, hj⟩ := List.mem_iff_getElem?.1 hy
  rcases eq_or_ne j i with rfl | hne
  · exact .inl (Option.some.inj (hj.symm.trans h))
  · exact .inr (List.mem_eraseIdx_iff_getElem?.2 ⟨j, hne, hj⟩)

theorem mem_set_self (h : l[i]? = some x) (z : β) : z ∈ l.set i z := by
  obtain ⟨hi, -⟩ := List.getElem?_eq_some_iff.1 h
  exact List.mem_set hi z

end Lists

/-! ### What a step brings -/

theorem mem_foldl_mountAd {held : List α} {ads : List (Option α)} {ad : α} :
    ad ∈ ads.foldl mountAd held ↔ ad ∈ held ∨ some ad ∈ ads := by
  induction ads generalizing held with
  | nil => simp
  | cons a ads ih =>
    rw [List.foldl_cons, ih, List.mem_cons]
    rcases a with - | a
    · simp [mountAd]
    · simp only [mountAd, List.mem_cons, Option.some.injEq]
      tauto

/-- The subscriber has what is advertised when it registers. -/
theorem mem_snapshot {s : State α} {ad : α} :
    ad ∈ s.snapshot.foldl mountAd [] ↔ ad ∈ s.advertised := by
  rw [mem_foldl_mountAd]
  simp [State.snapshot, List.mem_replicate]

section Register

variable (s : State α) (key : String)

theorem held_registerEvents_self :
    (s.registerEvents key).held s.nextChan = s.snapshot.foldl mountAd [] :=
  update_self ..

theorem held_registerEvents_of_ne {c : ℕ} (h : c ≠ s.nextChan) :
    (s.registerEvents key).held c = s.held c :=
  update_of_ne h ..

theorem buffer_registerEvents_self : (s.registerEvents key).buffer s.nextChan = [] :=
  update_self ..

theorem buffer_registerEvents_of_ne {c : ℕ} (h : c ≠ s.nextChan) :
    (s.registerEvents key).buffer c = s.buffer c :=
  update_of_ne h ..

end Register

variable [DecidableEq α] {s s' : State α} {a : Action α}

/-- Goroutines and subscribers do not touch the registry. -/
theorem registry_of_step (h : step s a = some s') (ha : a.isCall = false) :
    s'.adverts = s.adverts ∧ s'.advertEvents = s.advertEvents ∧ s'.nextChan = s.nextChan ∧
      s'.nextId = s.nextId := by
  cases a with
  | register | unregister | add | remove => cases ha
  | next i key =>
    obtain ⟨_, _, -, -, -, -, rfl⟩ := next_cases h
    exact ⟨rfl, rfl, rfl, rfl⟩
  | deliver i =>
    obtain ⟨_, _, -, -, -, rfl⟩ := deliver_cases h
    exact ⟨rfl, rfl, rfl, rfl⟩
  | finish i =>
    obtain ⟨_, -, -, -, rfl⟩ := finish_cases h
    exact ⟨rfl, rfl, rfl, rfl⟩
  | receive c =>
    obtain ⟨_, _, -, rfl⟩ := receive_cases h
    exact ⟨rfl, rfl, rfl, rfl⟩
  | stop c =>
    cases h
    exact ⟨rfl, rfl, rfl, rfl⟩

/-- A goroutine goes on, or is new with the event of its call. -/
theorem event_of_step (h : step s a = some s') {g : Notifier α} (hg : g ∈ s'.notifiers) :
    (∃ g₀ ∈ s.notifiers, g₀.event = g.event) ∨
      (∃ ad, a = .add ad ∧ g.event = ⟨true, some ad⟩) ∨
      ∃ id, a = .remove id ∧ g.event = ⟨true, s.adverts.lookup id⟩ := by
  cases a with
  | register key =>
    cases h
    obtain ⟨g₀, hg₀, rfl | rfl⟩ := State.mem_entered hg
    · exact .inl ⟨g, hg₀, rfl⟩
    · exact .inl ⟨g₀, hg₀, rfl⟩
  | unregister key =>
    cases h
    obtain ⟨g₀, hg₀, rfl⟩ := List.mem_map.1 hg
    exact .inl ⟨g₀, hg₀, rfl⟩
  | add ad =>
    cases h
    rcases List.mem_cons.1 hg with rfl | hg
    · exact .inr (.inl ⟨ad, rfl, rfl⟩)
    · exact .inl ⟨g, hg, rfl⟩
  | remove id =>
    cases h
    rcases List.mem_cons.1 hg with rfl | hg
    · exact .inr (.inr ⟨id, rfl, rfl⟩)
    · exact .inl ⟨g, hg, rfl⟩
  | next i key =>
    obtain ⟨g₀, c, hg₀, -, -, -, rfl⟩ := next_cases h
    rcases List.mem_or_eq_of_mem_set hg with hg | rfl
    · exact .inl ⟨g, hg, rfl⟩
    · exact .inl ⟨g₀, List.mem_of_getElem? hg₀, rfl⟩
  | deliver i =>
    obtain ⟨g₀, c, hg₀, -, -, rfl⟩ := deliver_cases h
    rcases List.mem_or_eq_of_mem_set hg with hg | rfl
    · exact .inl ⟨g, hg, rfl⟩
    · exact .inl ⟨g₀, List.mem_of_getElem? hg₀, rfl⟩
  | finish i =>
    obtain ⟨_, -, -, -, rfl⟩ := finish_cases h
    exact .inl ⟨g, List.mem_of_mem_eraseIdx hg, rfl⟩
  | receive c =>
    obtain ⟨_, _, -, rfl⟩ := receive_cases h
    exact .inl ⟨g, hg, rfl⟩
  | stop c =>
    cases h
    exact .inl ⟨g, hg, rfl⟩

variable {c : ℕ} {x : α}

/-- An event in a channel was there or comes from a goroutine that sent to it. -/
theorem buffer_of_step (h : step s a = some s') {ev : AdvertEvent α} (hev : ev ∈ s'.buffer c) :
    ev ∈ s.buffer c ∨ ∃ g ∈ s.notifiers, g.target = some c ∧ g.event = ev := by
  cases a with
  | register key =>
    cases h
    rcases eq_or_ne c s.nextChan with rfl | hne
    · rw [buffer_registerEvents_self] at hev
      cases hev
    · rw [buffer_registerEvents_of_ne s key hne] at hev
      exact .inl hev
  | deliver i =>
    obtain ⟨g, c', hg, htarget, -, rfl⟩ := deliver_cases h
    rcases eq_or_ne c c' with rfl | hne
    · obtain rfl : ev = g.event := by simpa using hev
      exact .inr ⟨g, List.mem_of_getElem? hg, htarget, rfl⟩
    · exact .inl (by simpa [hne] using hev)
  | receive c' =>
    obtain ⟨ev', rest, hbuf, rfl⟩ := receive_cases h
    rcases eq_or_ne c c' with rfl | hne
    · have hrest : ev ∈ rest := by simpa using hev
      exact .inl (by rw [hbuf]; exact List.mem_cons_of_mem _ hrest)
    · exact .inl (by simpa [hne] using hev)
  | next i key =>
    obtain ⟨_, _, -, -, -, -, rfl⟩ := next_cases h
    exact .inl hev
  | finish i =>
    obtain ⟨_, -, -, -, rfl⟩ := finish_cases h
    exact .inl hev
  | unregister | add | remove | stop =>
    cases h
    exact .inl hev

omit [DecidableEq α] in
theorem mem_mountAd {held : List α} {ad : Option α} :
    x ∈ mountAd held ad ↔ x ∈ held ∨ ad = some x := by
  rcases ad with - | ad
  · simp [mountAd]
  · simp [mountAd, or_comm, eq_comm]

/-- A subscriber held it, took it from its channel, or found it advertised. -/
theorem held_of_step (h : step s a = some s') (hx : x ∈ s'.held c) :
    x ∈ s.held c ∨ (∃ ev ∈ s.buffer c, ev.advertisement = some x) ∨
      ((∃ key, a = .register key) ∧ x ∈ s.advertised) := by
  cases a with
  | register key =>
    cases h
    rcases eq_or_ne c s.nextChan with rfl | hne
    · rw [held_registerEvents_self] at hx
      exact .inr (.inr ⟨⟨key, rfl⟩, mem_snapshot.1 hx⟩)
    · rw [held_registerEvents_of_ne s key hne] at hx
      exact .inl hx
  | receive c' =>
    obtain ⟨ev, rest, hbuf, rfl⟩ := receive_cases h
    rcases eq_or_ne c c' with rfl | hne
    · have hx' : x ∈ applyEvent (s.held c) ev := by simpa using hx
      -- an event mounts what it advertises and otherwise only takes away
      unfold applyEvent at hx'
      split_ifs at hx'
      · rcases mem_mountAd.1 hx' with hx' | hx'
        · exact .inl hx'
        · exact .inr (.inl ⟨ev, by rw [hbuf]; exact List.mem_cons_self, hx'⟩)
      · unfold removeAd at hx'
        split at hx'
        · exact .inl (List.mem_of_mem_filter hx')
        · exact .inl hx'
    · exact .inl (by simpa [hne] using hx)
  | next i key =>
    obtain ⟨_, _, -, -, -, -, rfl⟩ := next_cases h
    exact .inl hx
  | deliver i =>
    obtain ⟨_, _, -, -, -, rfl⟩ := deliver_cases h
    exact .inl hx
  | finish i =>
    obtain ⟨_, -, -, -, rfl⟩ := finish_cases h
    exact .inl hx
  | unregister | add | remove | stop =>
    cases h
    exact .inl hx

/-- A channel was registered or is the new one. -/
theorem entry_of_step (h : step s a = some s') {e : String × ℕ} (he : e ∈ s'.advertEvents) :
    e ∈ s.advertEvents ∨ ∃ key, a = .register key ∧ e = (key, s.nextChan) := by
  cases a with
  | register key =>
    cases h
    rcases List.mem_cons.1 he with rfl | he
    · exact .inr ⟨key, rfl, rfl⟩
    · exact .inl (List.mem_of_mem_filter he)
  | unregister key =>
    cases h
    exact .inl (List.mem_of_mem_filter he)
  | add | remove =>
    cases h
    exact .inl he
  | next | deliver | finish | receive | stop =>
    rw [(registry_of_step h rfl).2.1] at he
    exact .inl he

/-! ### Nothing is too much -/

/-- What is held or on its way to a subscriber is advertised. -/
structure State.Current (s : State α) : Prop where
  notifiers : s.advertEvents ≠ [] → ∀ g ∈ s.notifiers, ∀ x ∈ g.event.advertisement, x ∈ s.advertised
  buffer : ∀ e ∈ s.advertEvents, ∀ ev ∈ s.buffer e.2, ∀ x ∈ ev.advertisement, x ∈ s.advertised
  held : ∀ e ∈ s.advertEvents, ∀ x ∈ s.held e.2, x ∈ s.advertised

/-- With a subscriber, nothing that is advertised goes away. -/
theorem advertised_of_step (ha : Additive s a) (h : step s a = some s') (hne : s'.advertEvents ≠ [])
    (hx : x ∈ s.advertised) : x ∈ s'.advertised := by
  cases a with
  | add ad =>
    cases h
    exact List.mem_cons_of_mem _ hx
  | remove id =>
    cases h
    obtain ⟨e, he, rfl⟩ := List.mem_map.1 hx
    by_cases hid : e.1 = id
    · refine (ha.resolve_left hne) e.2 (List.mem_map.2 ⟨e, List.mem_filter.2 ⟨he, ?_⟩, rfl⟩)
      exact decide_eq_true hid
    · exact List.mem_map.2 ⟨e, List.mem_filter.2 ⟨he, decide_eq_true hid⟩, rfl⟩
  | register | unregister =>
    cases h
    exact hx
  | next | deliver | finish | receive | stop =>
    rwa [State.advertised, (registry_of_step h rfl).1]

/-- The goroutines of a step that has a subscriber have told what is advertised. -/
theorem State.Current.told (hs : s.Current) (ha : Additive s a) (h : step s a = some s')
    (hne : s'.advertEvents ≠ []) {g : Notifier α} (hg : g ∈ s.notifiers)
    (hx : x ∈ g.event.advertisement) : x ∈ s.advertised := by
  by_cases hempty : s.advertEvents = []
  · -- The first subscriber registers.
    obtain ⟨e, he⟩ := List.exists_mem_of_ne_nil _ hne
    rcases entry_of_step h he with he | ⟨key, rfl, -⟩
    · rw [hempty] at he
      cases he
    · exact ha g hg x hx
  · exact hs.notifiers hempty g hg x hx

/-- **One step** brings no subscriber anything that is not advertised. -/
theorem current_step (hs : s.Current) (ha : Additive s a) (h : step s a = some s') :
    s'.Current := by
  refine ⟨fun hne g hg x hx ↦ ?_, fun e he ev hev x hx ↦ ?_, fun e he x hx ↦ ?_⟩
  · obtain ⟨g₀, hg₀, hev⟩ | ⟨ad, rfl, hev⟩ | ⟨id, rfl, hev⟩ := event_of_step h hg
    · exact advertised_of_step ha h hne (hs.told ha h hne hg₀ (by rwa [hev]))
    · rw [hev] at hx
      cases hx
      cases h
      exact List.mem_cons_self
    · rw [hev] at hx
      obtain ⟨l₁, l₂, hl, -⟩ := List.lookup_eq_some_iff.1 (Option.mem_def.1 hx)
      refine advertised_of_step ha h hne (List.mem_map.2 ⟨(id, x), ?_, rfl⟩)
      rw [hl]
      simp
  · have hne : s'.advertEvents ≠ [] := List.ne_nil_of_mem he
    rcases entry_of_step h he with he | ⟨key, rfl, rfl⟩
    · obtain hev | ⟨g, hg, -, rfl⟩ := buffer_of_step h hev
      · exact advertised_of_step ha h hne (hs.buffer e he ev hev x hx)
      · exact advertised_of_step ha h hne (hs.told ha h hne hg hx)
    · cases h
      rw [buffer_registerEvents_self] at hev
      cases hev
  · have hne : s'.advertEvents ≠ [] := List.ne_nil_of_mem he
    rcases entry_of_step h he with he | ⟨key, rfl, rfl⟩
    · obtain hx | ⟨ev, hev, hx⟩ | ⟨-, hx⟩ := held_of_step h hx
      · exact advertised_of_step ha h hne (hs.held e he x hx)
      · exact advertised_of_step ha h hne (hs.buffer e he ev hev x hx)
      · exact advertised_of_step ha h hne hx
    · cases h
      rw [held_registerEvents_self] at hx
      exact mem_snapshot.1 hx

/-! ### Nothing is missed -/

/-- Every event says `Add`. -/
structure State.Adding (s : State α) : Prop where
  notifiers : ∀ g ∈ s.notifiers, g.event.add = true
  buffer : ∀ c, ∀ ev ∈ s.buffer c, ev.add = true

theorem adding_step (hs : s.Adding) (h : step s a = some s') : s'.Adding := by
  refine ⟨fun g hg ↦ ?_, fun c ev hev ↦ ?_⟩
  · obtain ⟨g₀, hg₀, hev⟩ | ⟨ad, -, hev⟩ | ⟨id, -, hev⟩ := event_of_step h hg
    · rw [← hev]
      exact hs.notifiers g₀ hg₀
    · rw [hev]
    · rw [hev]
  · obtain hev | ⟨g, hg, -, rfl⟩ := buffer_of_step h hev
    · exact hs.buffer c ev hev
    · exact hs.notifiers g hg

/-- A key has one channel, and the next channel is new. -/
structure State.Keyed (s : State α) : Prop where
  unique : ∀ e ∈ s.advertEvents, ∀ e' ∈ s.advertEvents, e.1 = e'.1 → e = e'
  lt_nextChan : ∀ e ∈ s.advertEvents, e.2 < s.nextChan

theorem nextChan_of_step (h : step s a = some s') (ha : ¬∃ key, a = .register key) :
    s'.nextChan = s.nextChan := by
  cases a with
  | register key => exact absurd ⟨key, rfl⟩ ha
  | unregister | add | remove =>
    cases h
    rfl
  | next | deliver | finish | receive | stop => exact (registry_of_step h rfl).2.2.1

/-- Every step keeps it. -/
theorem keyed_step (hs : s.Keyed) (h : step s a = some s') : s'.Keyed := by
  by_cases hreg : ∃ key, a = .register key
  · obtain ⟨key, rfl⟩ := hreg
    cases h
    have hold : ∀ e ∈ s.advertEvents.filter fun e ↦ e.1 ≠ key, e ∈ s.advertEvents ∧ e.1 ≠ key :=
      fun e he ↦ ⟨List.mem_of_mem_filter he, of_decide_eq_true (List.mem_filter.1 he).2⟩
    refine ⟨fun e he e' he' hkey ↦ ?_, fun e he ↦ ?_⟩
    · rcases List.mem_cons.1 he with rfl | he <;> rcases List.mem_cons.1 he' with rfl | he'
      · rfl
      · exact absurd hkey.symm (hold e' he').2
      · exact absurd hkey (hold e he).2
      · exact hs.unique e (hold e he).1 e' (hold e' he').1 hkey
    · rcases List.mem_cons.1 he with rfl | he
      · exact Nat.lt_succ_self _
      · exact Nat.lt_succ_of_lt (hs.lt_nextChan e (hold e he).1)
  · have hsub : ∀ e ∈ s'.advertEvents, e ∈ s.advertEvents := fun e he ↦
      (entry_of_step h he).resolve_right fun ⟨key, hkey, _⟩ ↦ hreg ⟨key, hkey⟩
    refine ⟨fun e he e' he' ↦ hs.unique e (hsub e he) e' (hsub e' he'), fun e he ↦ ?_⟩
    rw [nextChan_of_step h hreg]
    exact hs.lt_nextChan e (hsub e he)

/-- The goroutine sends to the subscriber, or will come to it. -/
def Notifier.OnWay (g : Notifier α) (e : String × ℕ) : Prop :=
  g.target = some e.2 ∨ e.1 ∉ g.seen ∧ e.1 ∉ g.late

/-- The advertisement is held by the subscriber, in its channel, or with a goroutine on its way. -/
def State.Reaches (s : State α) (e : String × ℕ) (x : α) : Prop :=
  x ∈ s.held e.2 ∨ (∃ ev ∈ s.buffer e.2, x ∈ ev.advertisement) ∨
    ∃ g ∈ s.notifiers, x ∈ g.event.advertisement ∧ g.OnWay e

/-- What is advertised is held by every subscriber or on its way. -/
def State.Reaching (s : State α) : Prop :=
  ∀ e ∈ s.advertEvents, ∀ x ∈ s.advertised, s.Reaches e x

omit [DecidableEq α] in
/-- What was on its way to a subscriber still is, where each stage hands on to the next. -/
theorem State.Reaches.of_stages {e : String × ℕ} (h : s.Reaches e x)
    (hheld : ∀ y ∈ s.held e.2, y ∈ s'.held e.2)
    (hbuffer : ∀ ev ∈ s.buffer e.2, ev ∈ s'.buffer e.2 ∨ ∀ y ∈ ev.advertisement, y ∈ s'.held e.2)
    (hnotifiers : ∀ g ∈ s.notifiers, g.OnWay e → g.event ∈ s'.buffer e.2 ∨
      ∃ g' ∈ s'.notifiers, g'.event = g.event ∧ g'.OnWay e) :
    s'.Reaches e x := by
  obtain hx | ⟨ev, hev, hx⟩ | ⟨g, hg, hx, hway⟩ := h
  · exact .inl (hheld x hx)
  · obtain hev | hmounted := hbuffer ev hev
    · exact .inr (.inl ⟨ev, hev, hx⟩)
    · exact .inl (hmounted x hx)
  · obtain hev | ⟨g', hg', hevent, hway'⟩ := hnotifiers g hg hway
    · exact .inr (.inl ⟨g.event, hev, hx⟩)
    · exact .inr (.inr ⟨g', hg', by rwa [hevent], hway'⟩)

omit [DecidableEq α] in
/-- A new subscriber holds what is advertised, and the others keep their channels. -/
theorem State.Reaching.register (hs : s.Reaching) (hk : s.Keyed) (key : String) :
    (s.registerEvents key).Reaching := by
  intro e he x hx
  rcases List.mem_cons.1 he with rfl | he
  · refine .inl ?_
    rw [held_registerEvents_self]
    exact mem_snapshot.2 hx
  · obtain ⟨he, hdec⟩ := List.mem_filter.1 he
    have hkey : e.1 ≠ key := by simpa using hdec
    have hne : e.2 ≠ s.nextChan := Nat.ne_of_lt (hk.lt_nextChan e he)
    refine (hs e he x hx).of_stages (fun y hy ↦ ?_) (fun ev hev ↦ .inl ?_) fun g hg hway ↦ .inr ?_
    · rwa [held_registerEvents_of_ne s key hne]
    · rwa [buffer_registerEvents_of_ne s key hne]
    · rcases State.mem_entered_or key hg with hg | hg
      · exact ⟨g, hg, rfl, hway⟩
      · refine ⟨g.enter key, hg, rfl, hway.imp_right fun ⟨hseen, hlate⟩ ↦ ⟨hseen, fun hm ↦ ?_⟩⟩
        exact (List.mem_cons.1 hm).elim hkey hlate

omit [DecidableEq α] in
/-- The walk yields a key, and the goroutine is at its channel. -/
theorem State.Reaching.yield (hs : s.Reaching) (hk : s.Keyed) {i : ℕ} {key : String}
    {g₀ : Notifier α} (hg₀ : s.notifiers[i]? = some g₀) (htarget : g₀.target = none)
    (hc : (key, c) ∈ s.advertEvents) :
    State.Reaching { s with notifiers := s.notifiers.set i (g₀.yield key c) } := by
  intro e he x hx
  refine (hs e he x hx).of_stages (fun _ hy ↦ hy) (fun _ hev ↦ .inl hev) fun g hg hway ↦ .inr ?_
  rcases eq_or_mem_set hg₀ (g₀.yield key c) hg with rfl | hg
  · refine ⟨g.yield key c, mem_set_self hg₀ _, rfl, ?_⟩
    obtain ⟨hseen, hlate⟩ := hway.resolve_left (by simp [htarget])
    rcases eq_or_ne e.1 key with hkey | hkey
    · obtain rfl := hk.unique (key, c) hc e he hkey.symm
      exact .inl rfl
    · exact .inr ⟨fun hm ↦ (List.mem_cons.1 hm).elim hkey hseen, hlate⟩
  · exact ⟨g, hg, rfl, hway⟩

omit [DecidableEq α] in
/-- The event goes from the goroutine into the channel. -/
theorem State.Reaching.deliver (hs : s.Reaching) {i : ℕ} {g₀ : Notifier α}
    (hg₀ : s.notifiers[i]? = some g₀) (htarget : g₀.target = some c) (hempty : s.buffer c = []) :
    State.Reaching { s with
      buffer := update s.buffer c [g₀.event]
      notifiers := s.notifiers.set i (g₀.delivered c) } := by
  intro e he x hx
  refine (hs e he x hx).of_stages (fun _ hy ↦ hy) (fun ev hev ↦ .inl ?_) fun g hg hway ↦ ?_
  · have hne : e.2 ≠ c := by
      rintro rfl
      rw [hempty] at hev
      cases hev
    simpa only [update_of_ne hne] using hev
  · rcases eq_or_mem_set hg₀ (g₀.delivered c) hg with rfl | hg
    · rcases hway with hway | hway
      · obtain rfl : c = e.2 := Option.some.inj (htarget.symm.trans hway)
        simp only [update_self]
        exact .inl List.mem_cons_self
      · exact .inr ⟨g.delivered c, mem_set_self hg₀ _, rfl, .inr hway⟩
    · exact .inr ⟨g, hg, rfl, hway⟩

/-- The event goes from the channel to what the subscriber holds. -/
theorem State.Reaching.receive (hs : s.Reaching) {ev : AdvertEvent α} {rest : List (AdvertEvent α)}
    (hbuf : s.buffer c = ev :: rest) (hadd : ev.add = true) :
    State.Reaching { s with
      buffer := update s.buffer c rest
      held := update s.held c (applyEvent (s.held c) ev) } := by
  have hheld : applyEvent (s.held c) ev = mountAd (s.held c) ev.advertisement := if_pos hadd
  intro e he x hx
  rcases eq_or_ne e.2 c with rfl | hne
  · refine (hs e he x hx).of_stages (fun y hy ↦ ?_) (fun ev' hev' ↦ ?_)
      fun g hg hway ↦ .inr ⟨g, hg, rfl, hway⟩
    · simp only [update_self, hheld]
      exact mem_mountAd.2 (.inl hy)
    · simp only [update_self, hheld]
      rw [hbuf] at hev'
      rcases List.mem_cons.1 hev' with rfl | hev'
      · exact .inr fun y hy ↦ mem_mountAd.2 (.inr hy)
      · exact .inl hev'
  · refine (hs e he x hx).of_stages (fun y hy ↦ ?_) (fun ev' hev' ↦ .inl ?_)
      fun g hg hway ↦ .inr ⟨g, hg, rfl, hway⟩
    · simpa only [update_of_ne hne] using hy
    · simpa only [update_of_ne hne] using hev'

/-- **One step** loses nothing that is on its way. -/
theorem reaching_step (hk : s.Keyed) (hadd : s.Adding) (hs : s.Reaching)
    (h : step s a = some s') : s'.Reaching := by
  cases a with
  | register key =>
    cases h
    exact hs.register hk key
  | unregister key =>
    cases h
    intro e he x hx
    refine (hs e (List.mem_of_mem_filter he) x hx).of_stages (fun _ hy ↦ hy)
      (fun _ hev ↦ .inl hev) fun g hg hway ↦ .inr ?_
    refine ⟨g.forget key, List.mem_map_of_mem hg, rfl, hway.imp_right fun ⟨hseen, hlate⟩ ↦ ?_⟩
    exact ⟨fun hm ↦ hseen (List.mem_of_mem_filter hm), fun hm ↦ hlate (List.mem_of_mem_filter hm)⟩
  | add ad =>
    cases h
    intro e he x hx
    rcases List.mem_cons.1 hx with rfl | hx
    · exact .inr (.inr ⟨_, List.mem_cons_self, rfl, .inr ⟨List.not_mem_nil, List.not_mem_nil⟩⟩)
    · exact (hs e he x hx).of_stages (fun _ hy ↦ hy) (fun _ hev ↦ .inl hev)
        fun g hg hway ↦ .inr ⟨g, List.mem_cons_of_mem _ hg, rfl, hway⟩
  | remove id =>
    cases h
    intro e he x hx
    obtain ⟨entry, hentry, rfl⟩ := List.mem_map.1 hx
    have hx' : entry.2 ∈ s.advertised := List.mem_map_of_mem (List.mem_of_mem_filter hentry)
    exact (hs e he entry.2 hx').of_stages (fun _ hy ↦ hy) (fun _ hev ↦ .inl hev)
      fun g hg hway ↦ .inr ⟨g, List.mem_cons_of_mem _ hg, rfl, hway⟩
  | next i key =>
    obtain ⟨g, c, hg, htarget, -, hc, rfl⟩ := next_cases h
    exact hs.yield hk hg htarget hc
  | deliver i =>
    obtain ⟨g, c, hg, htarget, hempty, rfl⟩ := deliver_cases h
    exact hs.deliver hg htarget hempty
  | finish i =>
    obtain ⟨g₀, hg₀, htarget, hall, rfl⟩ := finish_cases h
    intro e he x hx
    refine (hs e he x hx).of_stages (fun _ hy ↦ hy) (fun _ hev ↦ .inl hev) fun g hg hway ↦ .inr ?_
    rcases eq_or_mem_eraseIdx hg₀ hg with rfl | hg
    · -- The walk is over, so it has come to the subscriber.
      obtain ⟨hseen, hlate⟩ := hway.resolve_left (by simp [htarget])
      exact absurd (hall e he) (not_or.2 ⟨hseen, hlate⟩)
    · exact ⟨g, hg, rfl, hway⟩
  | receive c =>
    obtain ⟨ev, rest, hbuf, rfl⟩ := receive_cases h
    exact hs.receive hbuf (hadd.buffer c ev (by rw [hbuf]; exact List.mem_cons_self))
  | stop c =>
    cases h
    exact hs

/-! ### Whole runs -/

/-- **Nothing is missed.** In every run, what is advertised is held by each subscriber, or is in its
channel, or is with a goroutine that has not passed it. -/
theorem reaching_of_run {as : List (Action α)} (h : Run step init as s) : s.Reaching := by
  have hinv : s.Keyed ∧ s.Adding ∧ s.Reaching :=
    h.invariant (I := fun s ↦ s.Keyed ∧ s.Adding ∧ s.Reaching)
      (fun _ _ _ ⟨hk, hadd, hs⟩ _ hstep ↦
        ⟨keyed_step hk hstep, adding_step hadd hstep, reaching_step hk hadd hs hstep⟩)
      ⟨⟨by simp [init], by simp [init]⟩, ⟨by simp [init], by simp [init]⟩,
        fun e he ↦ absurd he List.not_mem_nil⟩
  exact hinv.2.2

/-- **When the subscribers agree with what is advertised.** In every run of calls, goroutines and
subscribers in which an advertisement is removed only while it is advertised under another id or
nobody is registered, and nobody registers while an event of what is not advertised is on its way:
whenever all events are delivered, every subscriber holds what is advertised and nothing else. -/
theorem agrees_of_runWhile {as : List (Action α)} (h : RunWhile step Additive init as s)
    (hquiet : s.Quiet) : s.Agrees := by
  have hcurrent : s.Current :=
    h.invariant (fun _ _ _ hs ha hstep ↦ current_step hs ha hstep)
      ⟨by simp [init], by simp [init], by simp [init]⟩
  have hreaching : s.Reaching := reaching_of_run (h.mono fun _ _ _ ↦ trivial)
  intro e he x
  refine ⟨hcurrent.held e he x, fun hx ↦ ?_⟩
  obtain hx | ⟨ev, hev, -⟩ | ⟨g, hg, -⟩ := hreaching e he x hx
  · exact hx
  · rw [hquiet.buffer e he] at hev
    cases hev
  · rw [hquiet.notifiers] at hg
    cases hg

/-- A subscriber registers between two additions, while the event of the first is on its way. -/
def addRegisterAdd : List (Action ℕ) :=
  [.add 7, .register "a", .add 8, .next 1 "a", .deliver 1, .receive 0, .next 0 "a", .deliver 0,
    .finish 1, .finish 0, .receive 0]

theorem agrees_of_addRegisterAdd :
    ∃ s : State ℕ, RunWhile step Additive init addRegisterAdd s ∧ s.Quiet ∧ s.advertised = [8, 7] ∧
      s.Agrees := by
  obtain ⟨s, hrun, hquiet, hads⟩ : ∃ s : State ℕ, RunWhile step Additive init addRegisterAdd s ∧
      s.Quiet ∧ s.advertised = [8, 7] :=
    ⟨_, runWhile_iff_foldlM.2 rfl, ⟨by decide +kernel, by decide +kernel⟩, by decide +kernel⟩
  exact ⟨s, hrun, hquiet, hads, agrees_of_runWhile hrun hquiet⟩

/-- **What is removed stays with the subscriber**, which is told that it was added. -/
theorem exists_quiet_disagreement :
    ∃ s : State ℕ, Run step init [.register "a", .add 7, .next 0 "a", .deliver 0, .finish 0,
        .receive 0, .remove 0, .next 0 "a", .deliver 0, .finish 0, .receive 0] s ∧ s.Quiet ∧
      s.advertised = [] ∧ ¬s.Agrees := by
  refine ⟨_, run_iff_foldlM.2 rfl, ⟨by decide +kernel, by decide +kernel⟩, by decide +kernel,
    fun h ↦ ?_⟩
  have hheld := (h ("a", 0) (by decide +kernel) 7).1 (by decide +kernel)
  exact absurd hheld (by decide +kernel)

/-! ### Snapshots -/

/-- `Add` is the call that uses up an id. -/
def Action.isAdd : Action α → Bool
  | .add _ => true
  | _ => false

/-- Every `Add` of a history was followed by the `Remove` of the id it returned: the number of
additions before it. -/
def TakenBack (as : List (Action α)) : Prop :=
  ∀ before ad after, as = before ++ .add ad :: after →
    .remove (before.countP Action.isAdd) ∈ after

namespace State

variable (s : State α)

/-- What `RegisterEvents` returns if its walk of the map comes to the entries in this order. -/
def snapshotOf (walk : List (ℕ × α)) : List (Option α) :=
  walk.foldl (fun ads e ↦ ads ++ [some e.2]) (List.replicate s.adverts.length none)

/-- What `Adverts` returns if its walk of the map comes to the entries in this order. -/
def advertsOf (walk : List (ℕ × α)) : List (Option α) :=
  walk.foldl (fun out e ↦ out ++ [some e.2]) []

/-- **The snapshot is what `Adverts` returns**, up to the order of the two walks. -/
def SnapshotExact : Prop :=
  ∀ walk walk', walk.Perm s.adverts → walk'.Perm s.adverts →
    (s.snapshotOf walk).Perm (advertsOf walk')

end State

section Snapshots

omit [DecidableEq α]

private theorem foldl_append_some (walk : List (ℕ × α)) (out : List (Option α)) :
    walk.foldl (fun out e ↦ out ++ [some e.2]) out = out ++ walk.map fun e ↦ some e.2 := by
  induction walk generalizing out with
  | nil => simp
  | cons e walk ih =>
    rw [List.foldl_cons, ih, List.map_cons, List.append_assoc]
    rfl

theorem snapshotOf_eq (walk : List (ℕ × α)) :
    s.snapshotOf walk = List.replicate s.adverts.length none ++ walk.map fun e ↦ some e.2 :=
  foldl_append_some walk _

theorem advertsOf_eq (walk : List (ℕ × α)) :
    State.advertsOf walk = walk.map fun e ↦ some e.2 :=
  foldl_append_some walk []

/-- The snapshot a subscriber takes is that of one such walk. -/
theorem snapshot_eq_snapshotOf : s.snapshot = s.snapshotOf s.adverts := by
  rw [snapshotOf_eq, State.snapshot, State.advertised, List.map_map]
  rfl

/-- The two lists agree only where there is nothing to list: one is twice as long as the other. -/
theorem snapshotExact_iff : s.SnapshotExact ↔ s.adverts = [] := by
  constructor
  · intro h
    have hlen := (h s.adverts s.adverts (.refl _) (.refl _)).length_eq
    rw [snapshotOf_eq, advertsOf_eq, List.length_append, List.length_replicate,
      List.length_map] at hlen
    exact List.length_eq_zero_iff.1 (by omega)
  · intro hnil walk walk' hwalk hwalk'
    rw [hnil] at hwalk hwalk'
    rw [hwalk.eq_nil, hwalk'.eq_nil, snapshotOf_eq, advertsOf_eq, hnil]
    exact .refl _

end Snapshots

theorem nextId_of_step (h : step s a = some s') :
    s'.nextId = s.nextId + if a.isAdd then 1 else 0 := by
  cases a with
  | register | unregister | add | remove =>
    cases h
    rfl
  | next | deliver | finish | receive | stop => exact (registry_of_step h rfl).2.2.2

/-- An entry of the map was there and is not removed, or is added. -/
theorem mem_adverts_of_step (h : step s a = some s') {e : ℕ × α} :
    e ∈ s'.adverts ↔
      e ∈ s.adverts ∧ a ≠ .remove e.1 ∨ ∃ ad, a = .add ad ∧ e = (s.nextId, ad) := by
  cases a with
  | add ad =>
    cases h
    simp [State.add, or_comm]
  | remove id =>
    cases h
    simp only [State.remove, State.withoutId, List.mem_filter, decide_eq_true_eq, ne_eq,
      Action.remove.injEq, reduceCtorEq, false_and, exists_false, or_false, eq_comm (a := id)]
  | register | unregister =>
    cases h
    simp [State.registerEvents, State.unregisterEvents]
  | next | deliver | finish | receive | stop =>
    rw [(registry_of_step h rfl).1]
    simp

/-- **What is advertised after a history**: what was advertised before it and is not removed in it,
and what is added in it and not removed afterwards. -/
theorem mem_adverts_of_run {as : List (Action α)} (h : Run step s as s') {e : ℕ × α} :
    e ∈ s'.adverts ↔ e ∈ s.adverts ∧ .remove e.1 ∉ as ∨
      ∃ before ad after, as = before ++ .add ad :: after ∧
        e = (s.nextId + before.countP Action.isAdd, ad) ∧ .remove e.1 ∉ after := by
  induction h with
  | nil s => simp
  | @cons s t u a as _ hstep _ ih =>
    rw [ih, mem_adverts_of_step hstep, nextId_of_step hstep]
    constructor
    · rintro (⟨⟨he, ha⟩ | ⟨ad, rfl, rfl⟩, has⟩ | ⟨before, ad, after, rfl, rfl, hafter⟩)
      · exact .inl ⟨he, fun hm ↦ (List.mem_cons.1 hm).elim (fun hm ↦ ha hm.symm) has⟩
      · exact .inr ⟨[], ad, as, rfl, rfl, has⟩
      · refine .inr ⟨a :: before, ad, after, rfl, ?_, hafter⟩
        rw [List.countP_cons]
        congr 1
        omega
    · rintro (⟨he, has⟩ | ⟨before, ad, after, heq, rfl, hafter⟩)
      · exact .inl ⟨.inl ⟨he, fun ha ↦ has (ha ▸ List.mem_cons_self)⟩,
          fun hm ↦ has (List.mem_cons_of_mem _ hm)⟩
      · rcases before with - | ⟨b, before⟩
        · obtain ⟨rfl, rfl⟩ := List.cons_eq_cons.1 heq
          exact .inl ⟨.inr ⟨ad, rfl, rfl⟩, hafter⟩
        · obtain ⟨rfl, rfl⟩ := List.cons_eq_cons.1 heq
          refine .inr ⟨before, ad, after, rfl, ?_, hafter⟩
          rw [List.countP_cons]
          congr 1
          omega

/-- **When the snapshot is exact.** After a history of calls, what `RegisterEvents` returns is a
permutation of what `Adverts` returns exactly if every addition of the history was taken back. -/
theorem snapshotExact_iff_takenBack {as : List (Action α)} (h : Run step init as s) :
    s.SnapshotExact ↔ TakenBack as := by
  rw [snapshotExact_iff, List.eq_nil_iff_forall_not_mem]
  constructor
  · intro hnone before ad after has
    by_contra hafter
    refine hnone (before.countP Action.isAdd, ad) ((mem_adverts_of_run h).2 (.inr ?_))
    exact ⟨before, ad, after, has, by simp [init], hafter⟩
  · intro hback e he
    rcases (mem_adverts_of_run h).1 he with ⟨he, -⟩ | ⟨before, ad, after, has, rfl, hafter⟩
    · exact List.not_mem_nil he
    · exact hafter (by simpa [init] using hback before ad after has)

theorem takenBack_of_add_remove :
    ∃ s : State ℕ, Run step init [.add 7, .remove 0] s ∧ s.SnapshotExact ∧
      TakenBack ([.add 7, .remove 0] : List (Action ℕ)) := by
  obtain ⟨s, hrun, hnil⟩ : ∃ s : State ℕ, Run step init [.add 7, .remove 0] s ∧ s.adverts = [] :=
    ⟨_, run_iff_foldlM.2 rfl, rfl⟩
  have hexact := snapshotExact_iff.2 hnil
  exact ⟨s, hrun, hexact, (snapshotExact_iff_takenBack hrun).1 hexact⟩

/-- **One advertisement, and the snapshot has two entries**: a `nil` and the advertisement. -/
theorem exists_not_snapshotExact :
    ∃ s : State ℕ, Run step init [.add 7] s ∧ s.snapshotOf s.adverts = [none, some 7] ∧
      State.advertsOf s.adverts = [some 7] ∧ ¬s.SnapshotExact := by
  refine ⟨_, run_iff_foldlM.2 rfl, rfl, rfl, fun h ↦ ?_⟩
  exact absurd (snapshotExact_iff.1 h) (List.cons_ne_nil _ _)

end Guest.Adverts
