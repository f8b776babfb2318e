import Isle.Foundation.Run
import Mathlib.Data.List.Basic
import Mathlib.Logic.Function.Basic

/-!
# Advertisements and their subscribers

`Advertisements` of `guest/adverts.go`, with the loop of `bootContainer` in `guest/runc.go` as the
subscriber. `Add` and `Remove` change a map under a lock, and leave it to a goroutine to tell the
subscribers: it walks the map of their channels, each of capacity one, **without the lock**, and
waits at each channel until its event fits.

A goroutine is its event with where it is in the walk. A walk of a Go map yields no key twice, does
not yield a key that is gone, and may or may not yield a key that was entered during the walk
(`late`). Which key comes next is left open.

The goroutine stays with a channel whose subscriber has gone, and then never comes to the others.
`not_starved_of_runWhile` has a condition that rules it out: nobody unregisters while an event is
being sent to them. That the subscribers hold what is advertised is the subject of
`Isle.Guest.Agreement`.
-/

namespace Guest.Adverts

variable {α : Type}

/-! ### The registry -/

/-- What subscribers are told. -/
structure AdvertEvent (α : Type) where
  add : Bool
  /-- `nil` where an id was removed that is not in use. -/
  advertisement : Option α
  deriving DecidableEq, Repr

/-- A goroutine that `Add` or `Remove` has started. -/
structure Notifier (α : Type) where
  event : AdvertEvent α
  /-- The keys that the walk has yielded. -/
  seen : List String
  /-- The keys that were entered during the walk. -/
  late : List String
  /-- The channel that it sends to. -/
  target : Option ℕ
  /-- The channels that have got the event. -/
  sent : List ℕ
  deriving DecidableEq, Repr

/-- The registry, its subscribers, and the goroutines that tell them. -/
structure State (α : Type) where
  /-- The advertisements by id. -/
  adverts : List (ℕ × α)
  /-- The next id of `xid`. -/
  nextId : ℕ
  /-- The channels of the subscribers. -/
  advertEvents : List (String × ℕ)
  nextChan : ℕ
  /-- The events in a channel. -/
  buffer : ℕ → List (AdvertEvent α)
  /-- What the subscriber with a channel holds. -/
  held : ℕ → List α
  /-- The subscriber with a channel has left its loop. -/
  stopped : ℕ → Bool
  notifiers : List (Notifier α)

/-- Nothing is advertised, and nobody listens. -/
def init : State α where
  adverts := []
  nextId := 0
  advertEvents := []
  nextChan := 0
  buffer _ := []
  held _ := []
  stopped _ := false
  notifiers := []

/-- `mountAd` of a subscriber, which passes over `nil`. -/
def mountAd (held : List α) : Option α → List α
  | some ad => ad :: held
  | none => held

/-! ### Calls -/

namespace Notifier

/-- A goroutine that has not begun its walk. -/
def start (ev : AdvertEvent α) : Notifier α where
  event := ev
  seen := []
  late := []
  target := none
  sent := []

/-- A key is entered in the map during the walk. -/
def enter (key : String) (g : Notifier α) : Notifier α := { g with late := key :: g.late }

/-- A key is taken out of the map during the walk. Entered again, it may be yielded again. -/
def forget (key : String) (g : Notifier α) : Notifier α :=
  { g with
    seen := g.seen.filter fun k ↦ k ≠ key
    late := g.late.filter fun k ↦ k ≠ key }

/-- The walk yields a key, and the goroutine sends to its channel. -/
def yield (key : String) (c : ℕ) (g : Notifier α) : Notifier α :=
  { g with seen := key :: g.seen, target := some c }

/-- The channel has taken the event. -/
def delivered (c : ℕ) (g : Notifier α) : Notifier α :=
  { g with target := none, sent := c :: g.sent }

end Notifier

namespace State

/-- The advertisements of `Adverts`. -/
def advertised (s : State α) : List α := s.adverts.map Prod.snd

/-- The snapshot of `RegisterEvents`: a slice that is made with a length and then appended to. -/
def snapshot (s : State α) : List (Option α) :=
  List.replicate s.adverts.length none ++ s.advertised.map some

/-- There is a channel for a key. -/
def Registered (s : State α) (key : String) : Prop := key ∈ s.advertEvents.map Prod.fst

instance (s : State α) (key : String) : Decidable (s.Registered key) :=
  inferInstanceAs (Decidable (_ ∈ _))

/-- The goroutines after a key is entered. -/
def entered (s : State α) (key : String) : List (Notifier α) :=
  if s.Registered key then s.notifiers else s.notifiers.map (.enter key)

/-- `RegisterEvents`, and the subscriber that takes the snapshot. -/
def registerEvents (s : State α) (key : String) : State α :=
  { s with
    advertEvents := (key, s.nextChan) :: s.advertEvents.filter fun e ↦ e.1 ≠ key
    nextChan := s.nextChan + 1
    buffer := Function.update s.buffer s.nextChan []
    held := Function.update s.held s.nextChan (s.snapshot.foldl mountAd [])
    stopped := Function.update s.stopped s.nextChan false
    notifiers := s.entered key }

/-- `UnregisterEvents`: the channel is taken out, and no walk comes to it any more. -/
def unregisterEvents (s : State α) (key : String) : State α :=
  { s with
    advertEvents := s.advertEvents.filter fun e ↦ e.1 ≠ key
    notifiers := s.notifiers.map (.forget key) }

/-- `Add`: the goroutine that tells the subscribers is started. -/
def add (s : State α) (ad : α) : State α :=
  { s with
    adverts := (s.nextId, ad) :: s.adverts
    nextId := s.nextId + 1
    notifiers := .start ⟨true, some ad⟩ :: s.notifiers }

/-- The advertisements without an id. -/
def withoutId (s : State α) (id : ℕ) : List (ℕ × α) := s.adverts.filter fun e ↦ e.1 ≠ id

/-- `Remove`: its event says `Add` as well. -/
def remove (s : State α) (id : ℕ) : State α :=
  { s with
    adverts := s.withoutId id
    notifiers := .start ⟨true, s.adverts.lookup id⟩ :: s.notifiers }

end State

/-! ### Runs -/

/-- What can happen next. -/
inductive Action (α : Type)
  | register (key : String)
  | unregister (key : String)
  | add (ad : α)
  | remove (id : ℕ)
  /-- The walk of the goroutine with a number yields the key, and the channel under it. -/
  | next (i : ℕ) (key : String)
  /-- The event fits in the channel. -/
  | deliver (i : ℕ)
  /-- The walk is over. -/
  | finish (i : ℕ)
  /-- The subscriber with the channel takes an event. -/
  | receive (c : ℕ)
  /-- The subscriber with the channel leaves its loop. -/
  | stop (c : ℕ)

/-- The action is a call of a method, under the lock. -/
def Action.isCall : Action α → Bool
  | .register _ | .unregister _ | .add _ | .remove _ => true
  | .next _ _ | .deliver _ | .finish _ | .receive _ | .stop _ => false

/-- The steps of a goroutine with a number. -/
def State.nextKey (s : State α) (i : ℕ) (key : String) (g : Notifier α) : Option (State α) :=
  if g.target = none ∧ key ∉ g.seen then
    (s.advertEvents.lookup key).map fun c ↦
      { s with notifiers := s.notifiers.set i (g.yield key c) }
  else none

/-- The event is put into the channel that the walk has come to, which has room for one. -/
def State.deliver (s : State α) (i : ℕ) (g : Notifier α) : Option (State α) :=
  g.target.bind fun c ↦
    if s.buffer c = [] then
      some { s with
        buffer := Function.update s.buffer c [g.event]
        notifiers := s.notifiers.set i (g.delivered c) }
    else none

/-- The walk has come to all keys but those that were entered during it. -/
def State.finish (s : State α) (i : ℕ) (g : Notifier α) : Option (State α) :=
  if g.target = none ∧ ∀ e ∈ s.advertEvents, e.1 ∈ g.seen ∨ e.1 ∈ g.late then
    some { s with notifiers := s.notifiers.eraseIdx i }
  else none

variable {s : State α} {g : Notifier α}

theorem State.mem_entered {key : String} (h : g ∈ s.entered key) :
    ∃ g₀ ∈ s.notifiers, g = g₀ ∨ g = g₀.enter key := by
  unfold entered at h
  split_ifs at h
  · exact ⟨g, h, .inl rfl⟩
  · obtain ⟨g₀, hg₀, rfl⟩ := List.mem_map.1 h
    exact ⟨g₀, hg₀, .inr rfl⟩

theorem State.mem_entered_or (key : String) (h : g ∈ s.notifiers) :
    g ∈ s.entered key ∨ g.enter key ∈ s.entered key := by
  unfold entered
  split_ifs
  · exact .inl h
  · exact .inr (List.mem_map_of_mem h)

section Step

variable [DecidableEq α]

/-- `removeAd` of a subscriber. -/
def removeAd (held : List α) : Option α → List α
  | some ad => held.filter fun x ↦ x ≠ ad
  | none => held

/-- One round of the loop of `bootContainer`. -/
def applyEvent (held : List α) (ev : AdvertEvent α) : List α :=
  if ev.add then mountAd held ev.advertisement else removeAd held ev.advertisement

/-- A subscriber takes an event, and does what it says. -/
def State.receive (s : State α) (c : ℕ) : Option (State α) :=
  match s.buffer c with
  | [] => none
  | ev :: rest =>
    if s.stopped c = false then
      some { s with
        buffer := Function.update s.buffer c rest
        held := Function.update s.held c (applyEvent (s.held c) ev) }
    else none

/-- One call, or one step of a goroutine or a subscriber. -/
def step (s : State α) : Action α → Option (State α)
  | .register key => some (s.registerEvents key)
  | .unregister key => some (s.unregisterEvents key)
  | .add ad => some (s.add ad)
  | .remove id => some (s.remove id)
  | .next i key => s.notifiers[i]?.bind (s.nextKey i key)
  | .deliver i => s.notifiers[i]?.bind (s.deliver i)
  | .finish i => s.notifiers[i]?.bind (s.finish i)
  | .receive c => s.receive c
  | .stop c => some { s with stopped := Function.update s.stopped c true }

/-! ### What a step does -/

variable {s s' : State α} {i : ℕ}

/-- A goroutine takes a step in the walk, and the others stay. -/
theorem next_cases {key : String} (h : step s (.next i key) = some s') :
    ∃ g c, s.notifiers[i]? = some g ∧ g.target = none ∧ key ∉ g.seen ∧ (key, c) ∈ s.advertEvents ∧
      s' = { s with notifiers := s.notifiers.set i (g.yield key c) } := by
  obtain ⟨g, hg, h⟩ := Option.bind_eq_some_iff.1 h
  obtain ⟨⟨htarget, hseen⟩, h⟩ := Option.ite_none_right_eq_some.1 h
  obtain ⟨c, hc, rfl⟩ := Option.map_eq_some_iff.1 h
  obtain ⟨l₁, l₂, hl, -⟩ := List.lookup_eq_some_iff.1 hc
  exact ⟨g, c, hg, htarget, hseen, by rw [hl]; simp, rfl⟩

theorem deliver_cases (h : step s (.deliver i) = some s') :
    ∃ g c, s.notifiers[i]? = some g ∧ g.target = some c ∧ s.buffer c = [] ∧
      s' = { s with
        buffer := Function.update s.buffer c [g.event]
        notifiers := s.notifiers.set i (g.delivered c) } := by
  obtain ⟨g, hg, h⟩ := Option.bind_eq_some_iff.1 h
  obtain ⟨c, hc, h⟩ := Option.bind_eq_some_iff.1 h
  obtain ⟨hempty, rfl⟩ := guarded_eq_some h
  exact ⟨g, c, hg, hc, hempty, rfl⟩

theorem finish_cases (h : step s (.finish i) = some s') :
    ∃ g, s.notifiers[i]? = some g ∧ g.target = none ∧
      (∀ e ∈ s.advertEvents, e.1 ∈ g.seen ∨ e.1 ∈ g.late) ∧
        s' = { s with notifiers := s.notifiers.eraseIdx i } := by
  obtain ⟨g, hg, h⟩ := Option.bind_eq_some_iff.1 h
  obtain ⟨⟨htarget, hall⟩, rfl⟩ := guarded_eq_some h
  exact ⟨g, hg, htarget, hall, rfl⟩

theorem receive_cases {c : ℕ} (h : step s (.receive c) = some s') :
    ∃ ev rest, s.buffer c = ev :: rest ∧ s' = { s with
      buffer := Function.update s.buffer c rest
      held := Function.update s.held c (applyEvent (s.held c) ev) } := by
  rcases hbuf : s.buffer c with - | ⟨ev, rest⟩
  · simp [step, State.receive, hbuf] at h
  · simp only [step, State.receive, hbuf] at h
    obtain ⟨-, rfl⟩ := guarded_eq_some h
    exact ⟨ev, rest, rfl, rfl⟩

end Step

/-! ### Subscribers that have gone -/

/-- **A subscriber is starved**: a goroutine waits at the full channel of a subscriber that has
unregistered and receives no more, and another subscriber, which is registered, has not been sent
the event. -/
def State.Starved (s : State α) : Prop :=
  ∃ g ∈ s.notifiers, ∃ c, g.target = some c ∧ s.buffer c ≠ [] ∧ s.stopped c = true ∧
    c ∉ s.advertEvents.map Prod.snd ∧ ∃ e ∈ s.advertEvents, e.2 ∉ g.sent

/-- No event is being sent to the subscriber. -/
def State.Unsent (s : State α) (key : String) : Prop :=
  ∀ g ∈ s.notifiers, ∀ c ∈ g.target, (key, c) ∉ s.advertEvents

/-- Nobody unregisters, or registers anew, while an event is being sent to them. -/
def Polite (s : State α) : Action α → Prop
  | .register key | .unregister key => s.Unsent key
  | _ => True

instance (s : State α) : ∀ a, Decidable (Polite s a)
  | .register key | .unregister key =>
    inferInstanceAs (Decidable (∀ g ∈ s.notifiers, ∀ c ∈ g.target, (key, c) ∉ s.advertEvents))
  | .add _ | .remove _ | .next _ _ | .deliver _ | .finish _ | .receive _ | .stop _ =>
    inferInstanceAs (Decidable True)

/-- Every goroutine sends to a channel that is registered. -/
def State.Targeted (s : State α) : Prop :=
  ∀ g ∈ s.notifiers, ∀ c ∈ g.target, c ∈ s.advertEvents.map Prod.snd

theorem State.Targeted.not_starved (h : s.Targeted) : ¬s.Starved := by
  rintro ⟨g, hg, c, hc, -, -, hnot, -⟩
  exact hnot (h g hg c hc)

/-- A goroutine that nobody cuts off keeps its channel. -/
theorem State.Targeted.filter (h : s.Targeted) {key : String} (hkey : s.Unsent key)
    (hg : g ∈ s.notifiers) {c : ℕ} (hc : c ∈ g.target) :
    c ∈ (s.advertEvents.filter fun e ↦ e.1 ≠ key).map Prod.snd := by
  obtain ⟨e, he, rfl⟩ := List.mem_map.1 (h g hg c hc)
  refine List.mem_map.2 ⟨e, List.mem_filter.2 ⟨he, decide_eq_true ?_⟩, rfl⟩
  rintro rfl
  exact hkey g hg e.2 hc he

variable [DecidableEq α]

/-- **One step** keeps every goroutine at a channel that is registered. -/
theorem targeted_step {s' : State α} {a : Action α} (h : s.Targeted) (hpolite : Polite s a)
    (hstep : step s a = some s') : s'.Targeted := by
  cases a with
  | register key =>
    cases hstep
    intro g hg c hc
    obtain ⟨g₀, hg₀, rfl | rfl⟩ := State.mem_entered hg <;>
      exact List.mem_cons_of_mem _ (h.filter hpolite hg₀ hc)
  | unregister key =>
    cases hstep
    intro g hg c hc
    obtain ⟨g₀, hg₀, rfl⟩ := List.mem_map.1 hg
    exact h.filter hpolite hg₀ hc
  | add ad | remove id =>
    cases hstep
    intro g hg c hc
    rcases List.mem_cons.1 hg with rfl | hg
    · -- a notifier begins without a channel to send to
      cases hc
    · exact h g hg c hc
  | next i key =>
    obtain ⟨g₀, c₀, -, -, -, hc₀, rfl⟩ := next_cases hstep
    intro g hg c hc
    rcases List.mem_or_eq_of_mem_set hg with hg | rfl
    · exact h g hg c hc
    · cases hc
      exact List.mem_map.2 ⟨_, hc₀, rfl⟩
  | deliver i =>
    obtain ⟨g₀, c₀, -, -, -, rfl⟩ := deliver_cases hstep
    intro g hg c hc
    rcases List.mem_or_eq_of_mem_set hg with hg | rfl
    · exact h g hg c hc
    · cases hc
  | finish i =>
    obtain ⟨g₀, -, -, -, rfl⟩ := finish_cases hstep
    intro g hg c hc
    exact h g (List.mem_of_mem_eraseIdx hg) c hc
  | receive c₀ =>
    obtain ⟨ev, rest, -, rfl⟩ := receive_cases hstep
    exact h
  | stop c₀ =>
    cases hstep
    exact h

/-- **When a subscriber that has gone starves nobody.** In every run of calls, goroutines and
subscribers in which nobody unregisters, or registers anew, while an event is being sent to them, no
goroutine waits at the channel of a subscriber that has gone while another subscriber has not been
sent the event. -/
theorem not_starved_of_runWhile {as : List (Action α)} {s : State α}
    (h : RunWhile step Polite init as s) : ¬s.Starved := by
  have hs : s.Targeted :=
    h.invariant (fun _ _ _ hs hpolite hstep ↦ targeted_step hs hpolite hstep)
      fun g hg ↦ absurd hg List.not_mem_nil
  exact hs.not_starved

/-- Two subscribers, of which the first leaves with an event in its channel, after the goroutine has
gone on to the second. -/
theorem not_starved_of_leaving :
    ∃ s : State ℕ, RunWhile step Polite init [.register "a", .register "b", .add 7, .next 0 "a",
        .deliver 0, .next 0 "b", .stop 0, .unregister "a"] s ∧ s.notifiers ≠ [] ∧ ¬s.Starved := by
  obtain ⟨s, hrun, hne⟩ : ∃ s : State ℕ, RunWhile step Polite init [.register "a", .register "b",
      .add 7, .next 0 "a", .deliver 0, .next 0 "b", .stop 0, .unregister "a"] s ∧
        s.notifiers ≠ [] :=
    ⟨_, runWhile_iff_foldlM.2 rfl, by decide +kernel⟩
  exact ⟨s, hrun, hne, not_starved_of_runWhile hrun⟩

/-- **A subscriber that leaves starves the others.** Two events are on their way, the first is in
the channel of the subscriber that leaves, and the goroutine of the second waits there. -/
theorem exists_starved :
    ∃ s : State ℕ, Run step init [.register "a", .register "b", .add 7, .add 8, .next 1 "a",
        .deliver 1, .next 0 "a", .stop 0, .unregister "a"] s ∧ s.Starved := by
  refine ⟨_, run_iff_foldlM.2 rfl, ⟨⟨true, some 8⟩, [], [], some 0, []⟩, by decide +kernel, 0, rfl,
    by decide +kernel, by decide +kernel, by decide +kernel, ("b", 1), by decide +kernel, ?_⟩
  exact List.not_mem_nil

end Guest.Adverts
