import Isle.Foundation.Run
import Isle.Go.Filepath
import Mathlib.Data.List.Nodup
import Mathlib.Logic.Function.Basic

/-!
# The directory of running apps

`monitorAppsDir`, `startAppsDir`, `startApp` and `removeApp` of `guest/app.go`. The guest runs an
app for each entry of a directory, and follows the directory by the events of a watcher. Changes of
the directory and the handling of the events are steps of their own: an event is handled some time
after the change, and a configuration is loaded from what is in the directory by then.

The guest keeps the paths that it has started an app for (`detectedApps`) and the app that runs
under each name (`apps`). **Neither is ever taken back**, so that a path is started once: an entry
that is removed and added again stays down, and the old name of a renamed entry, for which the guest
calls `startApp` as well, is skipped and goes on running.

`follows_of_runWhile` has the condition under which the apps follow the directory: no entry is
created or renamed at a path for which an app was started.

The watcher is taken to see everything from the listing of the directory on.
-/

namespace Guest.Apps

open Filepath

/-! ### Paths of apps -/

/-- The directory that is watched. -/
def root : Path := ["data", "apps", "running"]

/-- The path of an entry of the directory. -/
structure AppPath where
  name : String
  deriving DecidableEq, Repr

namespace AppPath

/-- Where an entry is. -/
def path (p : AppPath) : Path := root ++ [p.name]

/-- `filepath.Base` -/
def base (p : AppPath) : String := p.path.getLastD ""

@[simp] theorem base_eq (p : AppPath) : p.base = p.name := by
  simp [base, path]

theorem base_injective : Function.Injective base := by
  rintro ⟨n⟩ ⟨m⟩ h
  simpa using h

end AppPath

/-! ### The guest -/

/-- An event of the watcher. -/
inductive Event
  | create (p : AppPath)
  | rename (p : AppPath)
  | remove (p : AppPath)
  deriving DecidableEq, Repr

/-- The entry that an event is about. -/
def Event.path : Event → AppPath
  | .create p | .rename p | .remove p => p

/-- A `MonitorApp` goroutine that was not cancelled. -/
structure Instance where
  id : ℕ
  path : AppPath
  deriving DecidableEq, Repr

/-- The directory, the events about it, and what the guest has started. -/
structure State where
  /-- The entries of the directory, each with whether its configuration loads. -/
  dir : AppPath → Option Bool
  /-- The events that were not handled. -/
  queue : List Event
  detectedApps : AppPath → Option String
  /-- The id of the app by name, which stands for its cancel function. -/
  apps : String → Option ℕ
  live : List Instance
  /-- The next id of `xid`. -/
  next : ℕ

/-- `LoadConfig`, of which the name is used. -/
def loadConfig (dir : AppPath → Option Bool) (p : AppPath) : Option String :=
  if dir p = some true then some p.base else none

/-- The guest with a new app at a path, entered in both maps. -/
def State.started (s : State) (p : AppPath) (name : String) : State :=
  { s with
    apps := Function.update s.apps name (some s.next)
    detectedApps := Function.update s.detectedApps p (some name)
    live := s.live ++ [⟨s.next, p⟩]
    next := s.next + 1 }

/-- `startApp`: an app that is known already is not started again. -/
def startApp (s : State) (p : AppPath) : State :=
  match s.detectedApps p with
  | some _ => s
  | none =>
    match loadConfig s.dir p with
    | none => s
    | some name => s.started p name

/-- `removeApp`: it cancels the app and waits for its goroutine to end. -/
def removeApp (s : State) (p : AppPath) : State :=
  match s.detectedApps p with
  | none => s
  | some name =>
    match s.apps name with
    | none => s
    | some id => { s with live := s.live.filter fun i ↦ i.id ≠ id }

/-- The state before anything was started. -/
def boot (dir : AppPath → Option Bool) : State where
  dir := dir
  queue := []
  detectedApps _ := none
  apps _ := none
  live := []
  next := 0

/-- `startAppsDir`, for the entries of the directory when the watching starts. -/
def startAppsDir (entries : List (AppPath × Bool)) : State :=
  (entries.map Prod.fst).foldl startApp (boot fun p ↦ entries.lookup p)

/-- One round of the loop of `monitorAppsDir`. -/
def handle (s : State) : Event → State
  | .create p | .rename p => startApp s p
  | .remove p => removeApp s p

/-! ### Runs -/

/-- What can happen next. -/
inductive Action
  /-- An entry is made or moved into the directory. -/
  | create (p : AppPath) (loads : Bool)
  | remove (p : AppPath)
  /-- An entry gets the name of another path, and takes the place of an entry there. -/
  | rename (p q : AppPath)
  /-- An entry is moved out of the directory. -/
  | moveOut (p : AppPath)
  /-- The guest handles the next event. -/
  | handle
  deriving DecidableEq

/-- The directory changes at a path, and the watcher has an event. -/
def State.change (s : State) (p : AppPath) (entry : Option Bool) (ev : Event) : State :=
  { s with dir := Function.update s.dir p entry, queue := s.queue ++ [ev] }

/-- A change of the directory, or the handling of an event. -/
def step (s : State) : Action → Option State
  | .create p loads => if s.dir p = none then some (s.change p (some loads) (.create p)) else none
  | .remove p => if s.dir p ≠ none then some (s.change p none (.remove p)) else none
  | .rename p q =>
    if p ≠ q ∧ s.dir p ≠ none then
      some ((s.change p none (.rename p)).change q (s.dir p) (.create q))
    else none
  | .moveOut p => if s.dir p ≠ none then some (s.change p none (.rename p)) else none
  | .handle =>
    match s.queue with
    | [] => none
    | ev :: queue => some (handle { s with queue := queue } ev)

/-- An app of the path is live. -/
def State.Runs (s : State) (p : AppPath) : Prop := ∃ i ∈ s.live, i.path = p

/-- **The apps follow the directory**: those are live whose entry is there and loads, each once. -/
structure State.Follows (s : State) : Prop where
  runs_iff : ∀ p, s.Runs p ↔ s.dir p = some true
  once : (s.live.map Instance.path).Nodup

/-- The event is a created or renamed entry only where no app was started for the path. -/
def FreshEvent (s : State) : Event → Prop
  | .create p | .rename p => s.detectedApps p = none
  | .remove _ => True

/-- The guest handles no created or renamed entry at a path for which an app was started. -/
def Fresh (s : State) (a : Action) : Prop := a = .handle → ∀ ev ∈ s.queue.head?, FreshEvent s ev

instance (s : State) : ∀ ev, Decidable (FreshEvent s ev)
  | .create p | .rename p => inferInstanceAs (Decidable (s.detectedApps p = none))
  | .remove _ => inferInstanceAs (Decidable True)

instance (s : State) (a : Action) : Decidable (Fresh s a) :=
  inferInstanceAs (Decidable (_ → ∀ ev ∈ s.queue.head?, FreshEvent s ev))

/-! ### The maps and the goroutines -/

/-- The two maps know every goroutine, and no path has two. -/
structure State.Known (s : State) : Prop where
  name_eq : ∀ p name, s.detectedApps p = some name → name = p.base
  live : ∀ i ∈ s.live, s.detectedApps i.path = some i.path.base ∧ s.apps i.path.base = some i.id
  fresh : ∀ name id, s.apps name = some id → id < s.next
  injective : ∀ name name' id, s.apps name = some id → s.apps name' = some id → name = name'
  once : (s.live.map Instance.path).Nodup

theorem known_boot (dir : AppPath → Option Bool) : (boot dir).Known where
  name_eq := by simp [boot]
  live := by simp [boot]
  fresh := by simp [boot]
  injective := by simp [boot]
  once := List.nodup_nil

variable {s : State} {p : AppPath}

theorem State.Known.not_runs (h : s.Known) (hp : s.detectedApps p = none) : ¬s.Runs p := by
  rintro ⟨i, hi, rfl⟩
  rw [(h.live i hi).1] at hp
  cases hp

section Started

variable (s : State) (p : AppPath) (name : String)

theorem State.detectedApps_started_self : (s.started p name).detectedApps p = some name :=
  Function.update_self ..

theorem State.detectedApps_started_of_ne {q : AppPath} (h : q ≠ p) :
    (s.started p name).detectedApps q = s.detectedApps q :=
  Function.update_of_ne h ..

theorem State.apps_started_self : (s.started p name).apps name = some s.next :=
  Function.update_self ..

theorem State.apps_started_of_ne {other : String} (h : other ≠ name) :
    (s.started p name).apps other = s.apps other :=
  Function.update_of_ne h ..

end Started

/-- A path that has no goroutine gets one. -/
theorem State.Known.started (h : s.Known) (hp : s.detectedApps p = none) :
    (s.started p p.base).Known := by
  have hnot : ∀ i ∈ s.live, i.path ≠ p := fun i hi hip ↦ h.not_runs hp ⟨i, hi, hip⟩
  have hbase : ∀ i ∈ s.live, i.path.base ≠ p.base :=
    fun i hi hip ↦ hnot i hi (AppPath.base_injective hip)
  have hnew : ∀ name, s.apps name ≠ some s.next := fun name hid ↦ (h.fresh name _ hid).false
  refine ⟨fun q name hq ↦ ?_, fun i hi ↦ ?_, fun name id hid ↦ ?_,
    fun name name' id hid hid' ↦ ?_, ?_⟩
  · rcases eq_or_ne q p with rfl | hne
    · rw [s.detectedApps_started_self] at hq
      exact (Option.some.inj hq).symm
    · rw [s.detectedApps_started_of_ne _ _ hne] at hq
      exact h.name_eq q name hq
  · rcases List.mem_append.1 hi with hi | hi
    · rw [s.detectedApps_started_of_ne _ _ (hnot i hi), s.apps_started_of_ne _ _ (hbase i hi)]
      exact h.live i hi
    · obtain rfl := List.mem_singleton.1 hi
      exact ⟨s.detectedApps_started_self p p.base, s.apps_started_self p p.base⟩
  · rcases eq_or_ne name p.base with rfl | hne
    · rw [s.apps_started_self] at hid
      exact (Option.some.inj hid).symm.trans_lt (Nat.lt_succ_self _)
    · rw [s.apps_started_of_ne _ _ hne] at hid
      exact (h.fresh name id hid).trans (Nat.lt_succ_self _)
  · -- The new id is no other's.
    rcases eq_or_ne name p.base with rfl | hne <;> rcases eq_or_ne name' p.base with rfl | hne'
    · rfl
    · rw [s.apps_started_self] at hid
      rw [s.apps_started_of_ne _ _ hne', ← hid] at hid'
      exact absurd hid' (hnew name')
    · rw [s.apps_started_self] at hid'
      rw [s.apps_started_of_ne _ _ hne, ← hid'] at hid
      exact absurd hid (hnew name)
    · rw [s.apps_started_of_ne _ _ hne] at hid
      rw [s.apps_started_of_ne _ _ hne'] at hid'
      exact h.injective name name' id hid hid'
  · rw [State.started, List.map_append, List.map_singleton]
    refine h.once.append (List.nodup_singleton p) ?_
    simpa [List.Disjoint] using hnot

/-- What `startApp` does: nothing, or a new app for a path that is not known. -/
theorem startApp_cases (s : State) (p : AppPath) :
    startApp s p = s ∧ (s.detectedApps p = none → s.dir p ≠ some true) ∨
      s.detectedApps p = none ∧ s.dir p = some true ∧ startApp s p = s.started p p.base := by
  rcases hdet : s.detectedApps p with - | name
  · by_cases hload : s.dir p = some true
    · right
      refine ⟨rfl, hload, ?_⟩
      rw [startApp, hdet, loadConfig, if_pos hload]
    · left
      refine ⟨?_, fun _ ↦ hload⟩
      rw [startApp, hdet, loadConfig, if_neg hload]
  · left
    refine ⟨?_, fun h ↦ absurd h (Option.some_ne_none name)⟩
    rw [startApp, hdet]

theorem State.Known.startApp (h : s.Known) (p : AppPath) : (startApp s p).Known := by
  obtain ⟨heq, -⟩ | ⟨hdet, -, heq⟩ := startApp_cases s p
  · rwa [heq]
  · rw [heq]
    exact h.started hdet

/-- What `removeApp` does, as far as the maps go. -/
theorem removeApp_cases (s : State) (p : AppPath) :
    removeApp s p = s ∧ (∀ name, s.detectedApps p = some name → s.apps name = none) ∨
      ∃ name id, s.detectedApps p = some name ∧ s.apps name = some id ∧
        removeApp s p = { s with live := s.live.filter fun i ↦ i.id ≠ id } := by
  unfold removeApp
  split
  · next hdet => exact .inl ⟨rfl, fun name h ↦ absurd (hdet.symm.trans h) (by simp)⟩
  · next name hdet =>
    split
    · next hid =>
      refine .inl ⟨rfl, fun name' h ↦ ?_⟩
      obtain rfl := Option.some.inj (hdet.symm.trans h)
      exact hid
    · next id hid => exact .inr ⟨name, id, hdet, hid, rfl⟩

/-- **What `removeApp` does**: the goroutine of the path is gone, and no other. -/
theorem State.Known.removeApp_eq (h : s.Known) (p : AppPath) :
    removeApp s p = { s with live := s.live.filter fun i ↦ i.path ≠ p } := by
  obtain ⟨heq, hunknown⟩ | ⟨name, id, hdet, hid, heq⟩ := removeApp_cases s p
  · have hnot : ∀ i ∈ s.live, i.path ≠ p := by
      rintro i hi rfl
      exact absurd ((hunknown _ (h.live i hi).1).symm.trans (h.live i hi).2) (by simp)
    rw [heq, List.filter_eq_self.2 fun i hi ↦ decide_eq_true (hnot i hi)]
  · obtain rfl := h.name_eq p name hdet
    have hiff : ∀ i ∈ s.live, i.id = id ↔ i.path = p := by
      intro i hi
      constructor
      · rintro rfl
        exact AppPath.base_injective (h.injective _ _ _ (h.live i hi).2 hid)
      · rintro rfl
        exact Option.some.inj ((h.live i hi).2.symm.trans hid)
    have hfilter : (s.live.filter fun i ↦ i.id ≠ id) = s.live.filter fun i ↦ i.path ≠ p :=
      List.filter_congr fun i hi ↦ decide_eq_decide.2 (not_congr (hiff i hi))
    rw [heq, hfilter]

theorem State.Known.removeApp (h : s.Known) (p : AppPath) : (removeApp s p).Known := by
  rw [h.removeApp_eq]
  exact ⟨h.name_eq, fun i hi ↦ h.live i (List.mem_of_mem_filter hi), h.fresh, h.injective,
    h.once.sublist (List.filter_sublist.map _)⟩

/-- Handling an event changes neither the directory nor the other events. -/
theorem handle_frame (s : State) (ev : Event) :
    (handle s ev).dir = s.dir ∧ (handle s ev).queue = s.queue := by
  have hstart : ∀ p, (startApp s p).dir = s.dir ∧ (startApp s p).queue = s.queue := by
    intro p
    obtain ⟨heq, -⟩ | ⟨-, -, heq⟩ := startApp_cases s p <;> rw [heq] <;> exact ⟨rfl, rfl⟩
  cases ev with
  | create p => exact hstart p
  | rename p => exact hstart p
  | remove p =>
    obtain ⟨heq, -⟩ | ⟨_, _, -, -, heq⟩ := removeApp_cases s p <;>
      rw [handle, heq] <;> exact ⟨rfl, rfl⟩

theorem State.Known.handle (h : s.Known) (ev : Event) : (handle s ev).Known := by
  cases ev with
  | create p => exact h.startApp p
  | rename p => exact h.startApp p
  | remove p => exact h.removeApp p

/-! ### The apps behind the events -/

/-- The last event of a path that was not handled. -/
def lastEvent (queue : List Event) (p : AppPath) : Option Event :=
  (queue.filter fun ev ↦ ev.path = p).getLast?

theorem lastEvent_concat (queue : List Event) (ev : Event) (p : AppPath) :
    lastEvent (queue ++ [ev]) p = if ev.path = p then some ev else lastEvent queue p := by
  by_cases h : ev.path = p <;> simp [lastEvent, h]

theorem lastEvent_cons (ev : Event) (queue : List Event) (p : AppPath) :
    lastEvent (ev :: queue) p
      = (lastEvent queue p).or (if ev.path = p then some ev else none) := by
  by_cases h : ev.path = p
  · simp only [lastEvent, h, List.filter_cons, decide_true, if_true, List.getLast?_cons]
    exact (Option.or_some ..).symm
  · simp [lastEvent, h]

/-- The event leaves an entry at its path. -/
def Event.isCreate : Event → Bool
  | .create _ => true
  | .rename _ | .remove _ => false

/-- What the events of a path say, given the last one: without an event an app runs as the entry
says, and the last event says whether there is an entry. -/
def TrackedAt (last : Option Event) (runs : Prop) (entry : Option Bool) : Prop :=
  match last with
  | none => runs ↔ entry = some true
  | some ev => ev.isCreate = true ↔ entry ≠ none

/-- The events make up the difference between the directory and the apps. -/
def State.Tracked (s : State) : Prop :=
  ∀ p, TrackedAt (lastEvent s.queue p) (s.Runs p) (s.dir p)

theorem State.runs_started {q : AppPath} {name : String} :
    (s.started p name).Runs q ↔ s.Runs q ∨ q = p := by
  constructor
  · rintro ⟨i, hi, rfl⟩
    rcases List.mem_append.1 hi with hi | hi
    · exact .inl ⟨i, hi, rfl⟩
    · exact .inr (congrArg Instance.path (List.mem_singleton.1 hi))
  · rintro (⟨i, hi, rfl⟩ | rfl)
    · exact ⟨i, List.mem_append_left _ hi, rfl⟩
    · exact ⟨⟨s.next, q⟩, List.mem_append_right _ List.mem_cons_self, rfl⟩

/-- After `startApp` for a path that was not known, the path runs if its entry loads. -/
theorem runs_startApp (hp : s.detectedApps p = none) (q : AppPath) :
    (startApp s p).Runs q ↔ s.Runs q ∨ q = p ∧ s.dir p = some true := by
  obtain ⟨heq, hload⟩ | ⟨-, hload, heq⟩ := startApp_cases s p
  · rw [heq]
    exact (or_iff_left fun hq ↦ hload hp hq.2).symm
  · rw [heq, State.runs_started]
    exact or_congr_right (and_iff_left hload).symm

theorem runs_removeApp (h : s.Known) (p q : AppPath) :
    (removeApp s p).Runs q ↔ s.Runs q ∧ q ≠ p := by
  rw [h.removeApp_eq]
  constructor
  · rintro ⟨i, hi, rfl⟩
    obtain ⟨hi, hne⟩ := List.mem_filter.1 hi
    exact ⟨⟨i, hi, rfl⟩, of_decide_eq_true hne⟩
  · rintro ⟨⟨i, hi, rfl⟩, hne⟩
    exact ⟨i, List.mem_filter.2 ⟨hi, decide_eq_true hne⟩, rfl⟩

/-- **An event that is handled** settles its path, if it is the last event there, and leaves the
others. -/
theorem runs_handle (h : s.Known) {ev : Event} (hfresh : FreshEvent s ev) :
    (∀ q ≠ ev.path, (handle s ev).Runs q ↔ s.Runs q) ∧
      ((ev.isCreate = true ↔ s.dir ev.path ≠ none) →
        ((handle s ev).Runs ev.path ↔ s.dir ev.path = some true)) := by
  have hstart : ∀ p, s.detectedApps p = none →
      (∀ q ≠ p, (startApp s p).Runs q ↔ s.Runs q) ∧
        ((startApp s p).Runs p ↔ s.dir p = some true) := by
    intro p hp
    refine ⟨fun q hq ↦ ?_, ?_⟩
    · rw [runs_startApp hp]
      exact or_iff_left fun hqp ↦ hq hqp.1
    · rw [runs_startApp hp]
      simp [h.not_runs hp]
  cases ev with
  | create p | rename p => exact ⟨(hstart p hfresh).1, fun _ ↦ (hstart p hfresh).2⟩
  | remove p =>
    refine ⟨fun q hq ↦ (runs_removeApp h p q).trans (and_iff_left hq), fun hgone ↦ ?_⟩
    have hlookup : s.dir p = none :=
      not_not.1 fun hne ↦ absurd (hgone.2 hne) Bool.false_ne_true
    rw [Event.path, hlookup]
    exact iff_of_false (fun hruns ↦ ((runs_removeApp h p p).1 hruns).2 rfl) (by simp)

/-! ### Whole runs -/

theorem State.dir_change_self (s : State) (p : AppPath) (entry : Option Bool) (ev : Event) :
    (s.change p entry ev).dir p = entry :=
  Function.update_self ..

theorem State.dir_change_of_ne (s : State) {q : AppPath} (h : q ≠ p) (entry : Option Bool)
    (ev : Event) : (s.change p entry ev).dir q = s.dir q :=
  Function.update_of_ne h ..

/-- A change of the directory with its event. -/
theorem State.Tracked.change (h : s.Tracked) {entry : Option Bool} (ev : Event)
    (hev : ev.isCreate = true ↔ entry ≠ none) : (s.change ev.path entry ev).Tracked := by
  intro p
  have hqueue : (s.change ev.path entry ev).queue = s.queue ++ [ev] := rfl
  rw [hqueue, lastEvent_concat]
  by_cases hp : ev.path = p
  · subst hp
    rw [if_pos rfl, s.dir_change_self]
    exact hev
  · rw [if_neg hp, s.dir_change_of_ne (Ne.symm hp)]
    exact h p

/-- The guest handles the first event. -/
theorem State.Tracked.handle {ev : Event} {queue : List Event} (h : s.Tracked) (hk : s.Known)
    (hqueue : s.queue = ev :: queue) (hfresh : FreshEvent s ev) :
    (handle { s with queue := queue } ev).Tracked := by
  have hk' : State.Known { s with queue := queue } := ⟨hk.1, hk.2, hk.3, hk.4, hk.5⟩
  have hfresh' : FreshEvent { s with queue := queue } ev := by cases ev <;> exact hfresh
  obtain ⟨hother, hself⟩ := runs_handle hk' hfresh'
  obtain ⟨hdir, hq⟩ := handle_frame { s with queue := queue } ev
  intro p
  have hp := h p
  rw [hqueue, lastEvent_cons] at hp
  rw [hq, hdir]
  rcases hlast : lastEvent queue p with - | last
  · rw [hlast, Option.none_or] at hp
    by_cases hpath : ev.path = p
    · subst hpath
      rw [if_pos rfl] at hp
      exact hself hp
    · rw [if_neg hpath] at hp
      exact (hother p (Ne.symm hpath)).trans hp
  · rw [hlast, Option.some_or] at hp
    exact hp

/-- The two invariants together. -/
structure State.Sound (s : State) : Prop where
  known : s.Known
  tracked : s.Tracked

theorem State.Known.change (h : s.Known) (p : AppPath) (entry : Option Bool) (ev : Event) :
    (s.change p entry ev).Known :=
  ⟨h.1, h.2, h.3, h.4, h.5⟩

theorem State.Sound.change (h : s.Sound) {entry : Option Bool} (ev : Event)
    (hev : ev.isCreate = true ↔ entry ≠ none) : (s.change ev.path entry ev).Sound :=
  ⟨h.known.change ev.path entry ev, h.tracked.change ev hev⟩

/-- **One step** of the directory or of the guest. -/
theorem sound_step {s' : State} {a : Action} (h : s.Sound) (hfresh : Fresh s a)
    (hstep : step s a = some s') : s'.Sound := by
  cases a with
  | create p loads =>
    obtain ⟨-, rfl⟩ := guarded_eq_some hstep
    exact h.change (.create p) (by simp [Event.isCreate])
  | remove p =>
    obtain ⟨-, rfl⟩ := guarded_eq_some hstep
    exact h.change (.remove p) (by simp [Event.isCreate])
  | rename p q =>
    obtain ⟨⟨-, hp⟩, rfl⟩ := guarded_eq_some hstep
    have hgone : (s.change p none (.rename p)).Sound :=
      h.change (.rename p) (by simp [Event.isCreate])
    exact hgone.change (.create q) (by simpa [Event.isCreate] using hp)
  | moveOut p =>
    obtain ⟨-, rfl⟩ := guarded_eq_some hstep
    exact h.change (.rename p) (by simp [Event.isCreate])
  | handle =>
    rcases hqueue : s.queue with - | ⟨ev, queue⟩
    · simp [step, hqueue] at hstep
    · simp only [step, hqueue, Option.some.injEq] at hstep
      subst hstep
      have hev : FreshEvent s ev := hfresh rfl ev (by rw [hqueue]; rfl)
      have hk : State.Known { s with queue := queue } :=
        ⟨h.known.1, h.known.2, h.known.3, h.known.4, h.known.5⟩
      exact ⟨hk.handle ev, h.tracked.handle h.known hqueue hev⟩

/-- The loop of `startAppsDir` starts the apps of the entries that load. -/
theorem runs_foldl_startApp (ps : List AppPath) (h : s.Known)
    (hruns : ∀ p, s.detectedApps p ≠ none → s.Runs p) (p : AppPath) :
    (ps.foldl startApp s).Runs p ↔ s.Runs p ∨ p ∈ ps ∧ s.dir p = some true := by
  induction ps generalizing s with
  | nil => simp
  | cons q ps ih =>
    rw [List.foldl_cons]
    rcases hdet : s.detectedApps q with - | name
    · have hruns' : ∀ p, (startApp s q).detectedApps p ≠ none → (startApp s q).Runs p := by
        intro p hp
        obtain ⟨heq, -⟩ | ⟨-, -, heq⟩ := startApp_cases s q
        · rw [heq] at hp ⊢
          exact hruns p hp
        · rw [heq] at hp ⊢
          rw [State.runs_started]
          rcases eq_or_ne p q with rfl | hne
          · exact .inr rfl
          · exact .inl (hruns p (by rwa [s.detectedApps_started_of_ne _ _ hne] at hp))
      have hdir : (startApp s q).dir = s.dir := (handle_frame s (.create q)).1
      rw [ih (h.startApp q) hruns', runs_startApp hdet, hdir, List.mem_cons, or_and_right, or_assoc]
      refine or_congr_right (or_congr_left (and_congr_right ?_))
      rintro rfl
      exact Iff.rfl
    · -- The path comes a second time, and its app runs already.
      have hskip : startApp s q = s := by rw [startApp, hdet]
      have hq : s.Runs q := hruns q (by rw [hdet]; exact Option.some_ne_none name)
      rw [hskip, ih h hruns, List.mem_cons, or_and_right, ← or_assoc]
      refine or_congr_left (or_iff_left_of_imp ?_).symm
      rintro ⟨rfl, -⟩
      exact hq

theorem foldl_startApp_frame (ps : List AppPath) (h : s.Known) :
    (ps.foldl startApp s).Known ∧ (ps.foldl startApp s).dir = s.dir ∧
      (ps.foldl startApp s).queue = s.queue := by
  induction ps generalizing s with
  | nil => exact ⟨h, rfl, rfl⟩
  | cons q ps ih =>
    obtain ⟨hknown, hdir, hqueue⟩ := ih (h.startApp q)
    obtain ⟨hdir', hqueue'⟩ := handle_frame s (.create q)
    exact ⟨hknown, hdir.trans hdir', hqueue.trans hqueue'⟩

theorem sound_startAppsDir (entries : List (AppPath × Bool)) : (startAppsDir entries).Sound := by
  have hboot := known_boot fun p ↦ entries.lookup p
  obtain ⟨hknown, hdir, hqueue⟩ := foldl_startApp_frame (entries.map Prod.fst) hboot
  refine ⟨hknown, fun p ↦ ?_⟩
  rw [startAppsDir, hqueue, hdir]
  have hnot : ¬(boot fun p ↦ entries.lookup p).Runs p := hboot.not_runs rfl
  have hruns := runs_foldl_startApp (entries.map Prod.fst) hboot (fun p hp ↦ absurd rfl hp) p
  refine hruns.trans ((or_iff_right hnot).trans (and_iff_right_of_imp fun hp ↦ ?_))
  obtain ⟨l₁, l₂, rfl, -⟩ := List.lookup_eq_some_iff.1 hp
  exact List.mem_map.2 ⟨(p, true), by simp, rfl⟩

/-- **When the apps follow the directory.** For every content of the directory at the start and
every run in which it changes and the guest handles the events: where the guest handles no created
or renamed entry at a path for which it had started an app, the apps follow the directory whenever
all events are handled. -/
theorem follows_of_runWhile {entries : List (AppPath × Bool)} {as : List Action} {s : State}
    (h : RunWhile step Fresh (startAppsDir entries) as s) (hqueue : s.queue = []) : s.Follows := by
  have hs : s.Sound :=
    h.invariant (fun _ _ _ hs hfresh hstep ↦ sound_step hs hfresh hstep)
      (sound_startAppsDir entries)
  refine ⟨fun p ↦ ?_, hs.known.once⟩
  have hp := hs.tracked p
  rw [hqueue] at hp
  exact hp

/-! ### Entries that come back -/

/-- An app. -/
def web : AppPath := ⟨"web"⟩

/-- Another entry is made while an app runs, the running one is removed, and both events are handled
late. -/
theorem follows_of_replacement :
    ∃ s, RunWhile step Fresh (startAppsDir [(web, true)])
        [.create ⟨"db"⟩ true, .remove web, .handle, .handle] s ∧ s.queue = [] ∧ s.Follows := by
  obtain ⟨s, hrun, hqueue⟩ : ∃ s, RunWhile step Fresh (startAppsDir [(web, true)])
      [.create ⟨"db"⟩ true, .remove web, .handle, .handle] s ∧ s.queue = [] :=
    ⟨_, runWhile_iff_foldlM.2 rfl, rfl⟩
  exact ⟨s, hrun, hqueue, follows_of_runWhile hrun hqueue⟩

/-- **An app that is removed and added again stays down.** -/
theorem exists_readded_app_down :
    ∃ s, Run step (startAppsDir [(web, true)])
        [.remove web, .handle, .create web true, .handle] s ∧ s.queue = [] ∧
      s.dir web = some true ∧ ¬s.Runs web ∧ ¬s.Follows := by
  have hdown : ∀ s : State, s.live = [] → ¬s.Runs web := by
    rintro s hs ⟨i, hi, -⟩
    rw [hs] at hi
    cases hi
  refine ⟨_, run_iff_foldlM.2 rfl, rfl, by decide +kernel, hdown _ (by decide +kernel), fun h ↦ ?_⟩
  exact hdown _ (by decide +kernel) ((h.runs_iff web).2 (by decide +kernel))

end Guest.Apps
