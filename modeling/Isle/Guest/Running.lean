import Isle.Foundation.Run
import Isle.Guest.Console
import Mathlib.Logic.Function.Basic

/-!
# The map of running containers

`g.running` of `guest/runc.go` with the three parties that change what it is about: `Container`,
which looks a container up, adopts one it finds or boots one; the goroutine that boots a container,
keeps it and tears it down (`bootContainer`); and the `delete` command of the console.

`Container` and `delete` hold the lock of the guest from beginning to end, and the boot goroutines
do not take it. So the state has at most one holder of the lock (`Held`), and any number of boots,
each with a context that can be cancelled at any time: it is derived from the context `Container`
was called with, which for a forwarded channel ends with the connection it came on.

An entry is **sound** when its container exists and has a task. Nothing in a teardown touches the
map, and what is put into it was observed earlier, so three kinds of steps can leave an unsound
entry (`KeepsSound`), and by `sound_throughout_iff` no others can.
-/

open Function (update update_self update_of_ne)

namespace Guest

variable {Name : Type*}

/-! ### The state -/

/-- A container of containerd: its `name` label, and whether it has a task. -/
structure Cont (Name : Type*) where
  name : Name
  task : Bool
  deriving DecidableEq, Repr

/-- Where a boot is. In the last phases it deletes the task and then the container, with the context
it was given or with the background context. -/
inductive BootPhase
  | preparing
  | created
  | tasked
  | started
  | leaving (background : Bool)
  | untasked (background : Bool)
  | returned
  deriving DecidableEq, Repr

/-- The goroutine of a boot: for which name, where it is, whether its context is cancelled, and
whether it has announced itself on the channel `started`. -/
structure BootRoutine (Name : Type*) where
  name : Name
  phase : BootPhase
  cancelled : Bool
  announced : Bool
  deriving DecidableEq, Repr

/-- What the holder of the lock is doing. -/
inductive Held (Name : Type*)
  /-- `Container` has seen a task and is about to put the container into the map. -/
  | adopting (name : Name) (id : ℕ)
  /-- `Container` has seen no task and is about to delete the container. -/
  | removing (name : Name) (id : ℕ)
  /-- `Container` waits for a boot. -/
  | waiting (name : Name) (id : ℕ)
  /-- `delete` has dropped the entry and is about to clean up. -/
  | deleting (name : Name)
  deriving DecidableEq, Repr

/-- The guest, as far as containers go, and containerd. -/
structure Runtime (Name : Type*) where
  running : Name → Option RunningContainer
  conts : ℕ → Option (Cont Name)
  boots : ℕ → Option (BootRoutine Name)
  held : Option (Held Name)
  /-- Identifiers from here on are unused. -/
  next : ℕ

/-- The guest after `Init`: an empty map, and whatever containers there are from before. -/
structure Runtime.Initial (s : Runtime Name) : Prop where
  running : ∀ name, s.running name = none
  boots : ∀ id, s.boots id = none
  held : s.held = none
  conts : ∀ id k, s.conts id = some k → id < s.next

/-! ### The steps -/

/-- What became of a container in `CleanupContainer`. -/
inductive Removal
  | nothing
  | task
  | all
  deriving DecidableEq, Repr

/-- What happens next. -/
inductive RunAction (Name : Type*)
  /-- `Container` returns the entry of the map. -/
  | hit (name : Name)
  /-- `Container` finds no entry but a container, and asks for its task. -/
  | find (name : Name) (id : ℕ) (task : Bool)
  /-- `Container` finds nothing, and starts a boot. -/
  | spawn (name : Name)
  | adopt
  | remove
  /-- `Container` fails to delete the container. -/
  | giveUp
  /-- The context of a boot is cancelled. -/
  | cancel (id : ℕ)
  | newContainer (id : ℕ)
  | newTask (id : ℕ)
  /-- The boot is through, and announces itself. -/
  | announce (id : ℕ)
  /-- The boot fails. -/
  | abort (id : ℕ)
  /-- The boot sees that its context is cancelled, and leaves its loop. -/
  | exit (id : ℕ)
  | deleteTask (id : ℕ) (ok : Bool)
  | deleteContainer (id : ℕ) (ok : Bool)
  /-- `Container` sees that its context is cancelled. -/
  | callDone
  /-- `Container` gets the error of the boot. -/
  | callError
  /-- `Container` gets the announcement. -/
  | callStarted
  | delete (name : Name)
  | cleanup (id : ℕ) (r : Removal)
  | deleted
  deriving DecidableEq, Repr

section Steps

variable [DecidableEq Name]

namespace Runtime

variable (s : Runtime Name)

/-- No container has the label. -/
def unlabelled (name : Name) : Bool :=
  (List.range s.next).all fun id ↦ (s.conts id).all fun k ↦ k.name ≠ name

/-- The entry of a name is changed. -/
def setEntry (name : Name) (e : Option RunningContainer) : Runtime Name :=
  { s with running := update s.running name e }

/-- The container with an id is changed. -/
def setCont (id : ℕ) (k : Option (Cont Name)) : Runtime Name :=
  { s with conts := update s.conts id k }

/-- The goroutine with an id goes on. -/
def setBoot (id : ℕ) (b : BootRoutine Name) : Runtime Name :=
  { s with boots := update s.boots id (some b) }

/-- The lock is taken or given back. -/
def hold (h : Option (Held Name)) : Runtime Name := { s with held := h }

/-- A new boot, and `Container` waits for it. -/
def boot (name : Name) : Runtime Name :=
  { s with
    boots := update s.boots s.next (some ⟨name, .preparing, false, false⟩)
    held := some (.waiting name s.next)
    next := s.next + 1 }

/-- The steps of `Container`. -/
def containerStep : RunAction Name → Option (Runtime Name)
  | .hit name => if s.held = none ∧ (s.running name).isSome then some s else none
  | .find name id task =>
    match s.held, s.running name, s.conts id with
    | none, none, some k =>
      if k.name = name ∧ (task = true → k.task = true) then
        some (s.hold (some (if task then .adopting name id else .removing name id)))
      else none
    | _, _, _ => none
  | .spawn name =>
    if s.held = none ∧ s.running name = none ∧ s.unlabelled name = true then some (s.boot name)
    else none
  | .adopt =>
    match s.held with
    | some (.adopting name id) => some ((s.setEntry name (some ⟨id, false⟩)).hold none)
    | _ => none
  | .remove =>
    match s.held with
    | some (.removing name id) =>
      -- containerd does not delete a container that has a task
      match s.conts id with
      | some ⟨_, false⟩ => some ((s.setCont id none).boot name)
      | _ => none
    | _ => none
  | .giveUp =>
    match s.held with
    | some (.removing _ _) => some (s.hold none)
    | _ => none
  | .callDone =>
    match s.held with
    | some (.waiting _ id) =>
      if (s.boots id).any (·.cancelled) then some (s.hold none) else none
    | _ => none
  | .callError =>
    match s.held with
    | some (.waiting _ id) =>
      if (s.boots id).any (·.phase = .returned) then some (s.hold none) else none
    | _ => none
  | .callStarted =>
    match s.held with
    | some (.waiting name id) =>
      if (s.boots id).any (·.announced) then
        some ((s.setEntry name (some ⟨id, true⟩)).hold none)
      else none
    | _ => none
  | _ => none

/-- The steps of a boot. -/
def bootStep (id : ℕ) (b : BootRoutine Name) : RunAction Name → Option (Runtime Name)
  | .cancel _ => some (s.setBoot id { b with cancelled := true })
  | .newContainer _ =>
    if b.phase = .preparing ∧ s.conts id = none then
      some ((s.setCont id (some ⟨b.name, false⟩)).setBoot id { b with phase := .created })
    else none
  | .newTask _ =>
    match b.phase, s.conts id with
    | .created, some ⟨name, false⟩ =>
      some ((s.setCont id (some ⟨name, true⟩)).setBoot id { b with phase := .tasked })
    | _, _ => none
  | .announce _ =>
    if b.phase = .tasked then
      some (s.setBoot id { b with phase := .started, announced := true })
    else none
  | .abort _ =>
    match b.phase with
    -- the deferred deletions are in place once there is a task
    | .preparing | .created => some (s.setBoot id { b with phase := .returned })
    | .tasked => some (s.setBoot id { b with phase := .leaving false })
    | _ => none
  | .exit _ =>
    if b.phase = .started ∧ b.cancelled = true then
      some (s.setBoot id { b with phase := .leaving true })
    else none
  | .deleteTask _ ok =>
    match b.phase with
    | .leaving bg =>
      if ok = true then
        -- a call with a cancelled context fails
        if bg = true ∨ b.cancelled = false then
          some ((s.setCont id ((s.conts id).map fun k ↦ { k with task := false })).setBoot id
            { b with phase := .untasked bg })
        else none
      else some (s.setBoot id { b with phase := .untasked bg })
    | _ => none
  | .deleteContainer _ ok =>
    match b.phase with
    | .untasked bg =>
      if ok = true then
        if (bg = true ∨ b.cancelled = false) ∧ (s.conts id).all (·.task = false) then
          some ((s.setCont id none).setBoot id { b with phase := .returned })
        else none
      else some (s.setBoot id { b with phase := .returned })
    | _ => none
  | _ => none

/-- The steps of the `delete` command. An entry without a `cancel` function is a nil pointer, and
nothing follows. -/
def deleteStep : RunAction Name → Option (Runtime Name)
  | .delete name =>
    match s.held, s.running name with
    | none, none => some (s.hold (some (.deleting name)))
    | none, some ⟨id, true⟩ =>
      some (((match s.boots id with
        | some b => s.setBoot id { b with cancelled := true }
        | none => s).setEntry name none).hold (some (.deleting name)))
    | _, _ => none
  | .cleanup id r =>
    match s.held, s.conts id with
    | some (.deleting name), some ⟨name', true⟩ =>
      if name' = name then
        match r with
        | .nothing => some (s.hold none)
        | .task => some ((s.setCont id (some ⟨name', false⟩)).hold none)
        | .all => some ((s.setCont id none).hold none)
      else none
    | _, _ => none
  | .deleted =>
    match s.held with
    | some (.deleting _) => some (s.hold none)
    | _ => none
  | _ => none

/-- One step. -/
def step (a : RunAction Name) : Option (Runtime Name) :=
  match a with
  | .cancel id | .newContainer id | .newTask id | .announce id | .abort id | .exit id
  | .deleteTask id _ | .deleteContainer id _ => (s.boots id).bind fun b ↦ s.bootStep id b a
  | .delete _ | .cleanup _ _ | .deleted => s.deleteStep a
  | _ => s.containerStep a

end Runtime

/-! ### What each step can do -/

/-- A step that neither puts an entry into the map nor takes a task away at the end of a boot. -/
def RunAction.quiet : RunAction Name → Bool
  | .adopt | .callStarted | .deleteTask _ true => false
  | _ => true

namespace Runtime

/-- The steps, with what each of them needs and does. -/
inductive Step (s : Runtime Name) : RunAction Name → Runtime Name → Prop
  | hit {a} (ha : a.quiet = true) : Step s a s
  | find {a name id k h} (ha : a.quiet = true) (hk : s.conts id = some k) (hname : k.name = name)
      (hh : h = .adopting name id ∨ h = .removing name id) : Step s a (s.hold (some h))
  | spawn {a name} (ha : a.quiet = true) : Step s a (s.boot name)
  | adopt {name id} (hheld : s.held = some (.adopting name id)) :
      Step s .adopt ((s.setEntry name (some ⟨id, false⟩)).hold none)
  | remove {a name id k} (ha : a.quiet = true) (hk : s.conts id = some k) (htask : k.task = false) :
      Step s a ((s.setCont id none).boot name)
  | release {a} (ha : a.quiet = true) : Step s a (s.hold none)
  | callStarted {name id} (hheld : s.held = some (.waiting name id)) :
      Step s .callStarted ((s.setEntry name (some ⟨id, true⟩)).hold none)
  | moves {a id b b'} (ha : a.quiet = true) (hb : s.boots id = some b) (hname : b'.name = b.name) :
      Step s a (s.setBoot id b')
  | newContainer {a id b b'} (ha : a.quiet = true) (hb : s.boots id = some b)
      (hname : b'.name = b.name) (hk : s.conts id = none) :
      Step s a ((s.setCont id (some ⟨b.name, false⟩)).setBoot id b')
  | newTask {a id b b' name} (ha : a.quiet = true) (hb : s.boots id = some b)
      (hname : b'.name = b.name) (hk : s.conts id = some ⟨name, false⟩) :
      Step s a ((s.setCont id (some ⟨name, true⟩)).setBoot id b')
  | deleteTask {id b b'} (hb : s.boots id = some b) (hname : b'.name = b.name) :
      Step s (.deleteTask id true)
        ((s.setCont id ((s.conts id).map fun k ↦ { k with task := false })).setBoot id b')
  | deleteContainer {a id b b'} (ha : a.quiet = true) (hb : s.boots id = some b)
      (hname : b'.name = b.name) (hk : ∀ k, s.conts id = some k → k.task = false) :
      Step s a ((s.setCont id none).setBoot id b')
  | delete {a name u} (ha : a.quiet = true)
      (hu : u = s ∨ ∃ id b b', s.boots id = some b ∧ b'.name = b.name ∧ u = s.setBoot id b') :
      Step s a ((u.setEntry name none).hold (some (.deleting name)))
  | deleteNone {a name} (ha : a.quiet = true) (hrun : s.running name = none) :
      Step s a (s.hold (some (.deleting name)))
  | cleanup {a name id k} (ha : a.quiet = true) (hheld : s.held = some (.deleting name))
      (hk : s.conts id = some ⟨name, true⟩) (hk' : k = none ∨ k = some ⟨name, false⟩) :
      Step s a ((s.setCont id k).hold none)

variable {s t : Runtime Name} {a : RunAction Name}

/-- The steps of those who hold the lock. -/
theorem containerStep_cases (h : s.containerStep a = some t) : Step s a t := by
  cases a with
  | hit name =>
    obtain ⟨-, rfl⟩ := guarded_eq_some h
    exact .hit rfl
  | find name id task =>
    simp only [containerStep] at h
    split at h
    · next hk =>
      obtain ⟨⟨hname, -⟩, rfl⟩ := guarded_eq_some h
      refine .find rfl hk hname ?_
      cases task
      · exact .inr rfl
      · exact .inl rfl
    · exact absurd h (by simp)
  | spawn name =>
    obtain ⟨-, rfl⟩ := guarded_eq_some h
    exact .spawn rfl
  | adopt =>
    simp only [containerStep] at h
    split at h
    · next hheld => cases h; exact .adopt hheld
    · exact absurd h (by simp)
  | remove =>
    simp only [containerStep] at h
    split at h
    · split at h
      · next hk => cases h; exact .remove rfl hk rfl
      · exact absurd h (by simp)
    · exact absurd h (by simp)
  | giveUp =>
    simp only [containerStep] at h
    split at h
    · cases h; exact .release rfl
    · exact absurd h (by simp)
  | callDone | callError =>
    simp only [containerStep] at h
    split at h
    · obtain ⟨-, rfl⟩ := guarded_eq_some h
      exact .release rfl
    · exact absurd h (by simp)
  | callStarted =>
    simp only [containerStep] at h
    split at h
    · next hheld =>
      obtain ⟨-, rfl⟩ := guarded_eq_some h
      exact .callStarted hheld
    · exact absurd h (by simp)
  | _ => exact absurd h (by simp [containerStep])

/-- The steps of a goroutine of `bootContainer`. -/
theorem bootStep_cases {id : ℕ} {b : BootRoutine Name} (hb : s.boots id = some b)
    (ha : ∀ j ok, a = .deleteTask j ok → j = id) (h : s.bootStep id b a = some t) : Step s a t := by
  cases a with
  | cancel j => cases h; exact .moves rfl hb rfl
  | newContainer j =>
    obtain ⟨⟨-, hk⟩, rfl⟩ := guarded_eq_some h
    exact .newContainer rfl hb rfl hk
  | newTask j =>
    simp only [bootStep] at h
    split at h
    · next hk => cases h; exact .newTask rfl hb rfl hk
    · exact absurd h (by simp)
  | announce j | exit j =>
    obtain ⟨-, rfl⟩ := guarded_eq_some h
    exact .moves rfl hb rfl
  | abort j =>
    simp only [bootStep] at h
    split at h <;> first | (cases h; exact .moves rfl hb rfl) | exact absurd h (by simp)
  | deleteTask j ok =>
    obtain rfl := ha j ok rfl
    simp only [bootStep] at h
    split at h
    · split at h
      · next hok =>
        subst hok
        obtain ⟨-, rfl⟩ := guarded_eq_some h
        exact .deleteTask hb rfl
      · next hok =>
        obtain rfl : ok = false := by simpa using hok
        cases h
        exact .moves rfl hb rfl
    · exact absurd h (by simp)
  | deleteContainer j ok =>
    simp only [bootStep] at h
    split at h
    · split at h
      · obtain ⟨⟨-, hk⟩, rfl⟩ := guarded_eq_some h
        refine .deleteContainer rfl hb rfl fun k hk' ↦ ?_
        simpa [hk'] using hk
      · cases h
        exact .moves rfl hb rfl
    · exact absurd h (by simp)
  | _ => exact absurd h (by simp [bootStep])

/-- The steps of a deletion. -/
theorem deleteStep_cases (h : s.deleteStep a = some t) : Step s a t := by
  cases a with
  | delete name =>
    simp only [deleteStep] at h
    split at h
    · next hrun => cases h; exact .deleteNone rfl hrun
    · next id _ _ =>
      cases h
      -- the goroutine that is cancelled may be gone
      refine .delete rfl ?_
      split
      · next b hb => exact .inr ⟨id, b, { b with cancelled := true }, hb, rfl, rfl⟩
      · exact .inl rfl
    · exact absurd h (by simp)
  | cleanup id r =>
    simp only [deleteStep] at h
    split at h
    · next hheld hk =>
      split at h
      · next hname =>
        subst hname
        split at h
        · cases h; exact .release rfl
        · cases h; exact .cleanup rfl hheld hk (.inr rfl)
        · cases h; exact .cleanup rfl hheld hk (.inl rfl)
      · exact absurd h (by simp)
    · exact absurd h (by simp)
  | deleted =>
    simp only [deleteStep] at h
    split at h
    · cases h; exact .release rfl
    · exact absurd h (by simp)
  | _ => exact absurd h (by simp [deleteStep])

theorem step_cases (h : s.step a = some t) : Step s a t := by
  unfold step at h
  split at h
  case h_1 | h_2 | h_3 | h_4 | h_5 | h_6 | h_8 =>
    obtain ⟨b, hb, h⟩ := Option.bind_eq_some_iff.1 h
    exact bootStep_cases hb (by simp) h
  case h_7 =>
    obtain ⟨b, hb, h⟩ := Option.bind_eq_some_iff.1 h
    refine bootStep_cases hb (fun j ok hj ↦ ?_) h
    cases hj
    rfl
  case h_9 | h_10 | h_11 => exact deleteStep_cases h
  case h_12 => exact containerStep_cases h

end Runtime

end Steps

/-! ### Labels -/

namespace Runtime

section Labels

variable {s : Runtime Name}

/-- All that there is under an identifier is of one name. -/
structure NamedAs (s : Runtime Name) (id : ℕ) (name : Name) : Prop where
  conts : ∀ k, s.conts id = some k → k.name = name
  boots : ∀ b, s.boots id = some b → b.name = name
  lt : id < s.next

/-- Whatever refers to an identifier refers to it by its name; and there is no entry for a name that
is being deleted. -/
structure Labelled (s : Runtime Name) : Prop where
  running : ∀ name e, s.running name = some e → s.NamedAs e.id name
  conts : ∀ id k, s.conts id = some k → s.NamedAs id k.name
  boots : ∀ id b, s.boots id = some b → s.NamedAs id b.name
  adopting : ∀ name id, s.held = some (.adopting name id) → s.NamedAs id name
  waiting : ∀ name id, s.held = some (.waiting name id) → s.NamedAs id name
  deleting : ∀ name, s.held = some (.deleting name) → s.running name = none

theorem Initial.labelled (h : s.Initial) : s.Labelled where
  running name e he := absurd he (by simp [h.running name])
  conts id k hk := {
    conts := fun k' hk' ↦ by rw [hk] at hk'; cases hk'; rfl
    boots := fun b hb ↦ absurd hb (by simp [h.boots id])
    lt := h.conts id k hk }
  boots id b hb := absurd hb (by simp [h.boots id])
  adopting name id hh := absurd hh (by simp [h.held])
  waiting name id hh := absurd hh (by simp [h.held])
  deleting name hh := absurd hh (by simp [h.held])

namespace Labelled

/-- The lock is taken, handed on or released. -/
theorem hold (h : s.Labelled) {x : Option (Held Name)}
    (hadopt : ∀ name id, x = some (.adopting name id) → s.NamedAs id name)
    (hwait : ∀ name id, x = some (.waiting name id) → s.NamedAs id name)
    (hdelete : ∀ name, x = some (.deleting name) → s.running name = none) :
    (s.hold x).Labelled where
  running name e he := { h.running name e he with }
  conts id k hk := { h.conts id k hk with }
  boots id b hb := { h.boots id b hb with }
  adopting name id hx := { hadopt name id hx with }
  waiting name id hx := { hwait name id hx with }
  deleting := hdelete

theorem release (h : s.Labelled) : (s.hold none).Labelled :=
  h.hold (by simp) (by simp) (by simp)

/-- The entries and the lock are as before, and what was of one name still is. -/
theorem transport (h : s.Labelled) {t : Runtime Name} (hrun : t.running = s.running)
    (hheld : t.held = s.held)
    (htrans : ∀ {id : ℕ} {name : Name}, s.NamedAs id name → t.NamedAs id name)
    (hconts : ∀ id k, t.conts id = some k → t.NamedAs id k.name)
    (hboots : ∀ id b, t.boots id = some b → t.NamedAs id b.name) : t.Labelled where
  running name e he := htrans (h.running name e (hrun ▸ he))
  conts := hconts
  boots := hboots
  adopting name id hh := htrans (h.adopting name id (hheld ▸ hh))
  waiting name id hh := htrans (h.waiting name id (hheld ▸ hh))
  deleting name hh := hrun ▸ h.deleting name (hheld ▸ hh)

/-- A boot moves on. -/
theorem setBoot (h : s.Labelled) {id : ℕ} {b b' : BootRoutine Name} (hb : s.boots id = some b)
    (hname : b'.name = b.name) : (s.setBoot id b').Labelled := by
  have htrans : ∀ {j name}, s.NamedAs j name → (s.setBoot id b').NamedAs j name := by
    intro j name hj
    refine { hj with boots := fun c hc ↦ ?_ }
    by_cases hne : j = id
    · subst hne
      simp only [Runtime.setBoot, update_self, Option.some.injEq] at hc
      rw [← hc, hname]
      exact hj.boots b hb
    · simp only [Runtime.setBoot, update_of_ne hne] at hc
      exact hj.boots c hc
  refine h.transport rfl rfl htrans (fun j k hk ↦ htrans (h.conts j k hk)) fun j c hc ↦ ?_
  by_cases hne : j = id
  · subst hne
    simp only [Runtime.setBoot, update_self, Option.some.injEq] at hc
    rw [← hc, hname]
    exact htrans (h.boots j b hb)
  · simp only [Runtime.setBoot, update_of_ne hne] at hc
    exact htrans (h.boots j c hc)

/-- A container is made by its boot, changed or removed. -/
theorem setCont (h : s.Labelled) {id : ℕ} {x : Option (Cont Name)}
    (hx : ∀ k, x = some k → (∃ b, s.boots id = some b ∧ b.name = k.name) ∨
      ∃ k', s.conts id = some k' ∧ k'.name = k.name) : (s.setCont id x).Labelled := by
  have htrans : ∀ {j name}, s.NamedAs j name → (s.setCont id x).NamedAs j name := by
    intro j name hj
    refine { hj with conts := fun k hk ↦ ?_ }
    by_cases hne : j = id
    · subst hne
      simp only [Runtime.setCont, update_self] at hk
      rcases hx k hk with ⟨b, hb, hbk⟩ | ⟨k', hk', hkk⟩
      · rw [← hbk]
        exact hj.boots b hb
      · rw [← hkk]
        exact hj.conts k' hk'
    · simp only [Runtime.setCont, update_of_ne hne] at hk
      exact hj.conts k hk
  refine h.transport rfl rfl htrans (fun j k hk ↦ ?_) fun j b hb ↦ htrans (h.boots j b hb)
  by_cases hne : j = id
  · subst hne
    simp only [Runtime.setCont, update_self] at hk
    rcases hx k hk with ⟨b, hb, hbk⟩ | ⟨k', hk', hkk⟩
    · exact hbk ▸ htrans (h.boots j b hb)
    · exact hkk ▸ htrans (h.conts j k' hk')
  · simp only [Runtime.setCont, update_of_ne hne] at hk
    exact htrans (h.conts j k hk)

/-- A boot gets an identifier that nothing refers to. -/
theorem boot (h : s.Labelled) (name : Name) : (s.boot name).Labelled := by
  have htrans : ∀ {j name'}, s.NamedAs j name' → (s.boot name).NamedAs j name' := by
    intro j name' hj
    refine ⟨hj.conts, fun b hb ↦ ?_, Nat.lt_succ_of_lt hj.lt⟩
    simp only [Runtime.boot, update_of_ne (Nat.ne_of_lt hj.lt)] at hb
    exact hj.boots b hb
  have hnext : (s.boot name).NamedAs s.next name := by
    refine ⟨fun k hk ↦ absurd (h.conts s.next k hk).lt (Nat.lt_irrefl _), fun b hb ↦ ?_,
      Nat.lt_succ_self _⟩
    simp only [Runtime.boot, update_self, Option.some.injEq] at hb
    rw [← hb]
  refine {
    running := fun name' e he ↦ htrans (h.running name' e he)
    conts := fun j k hk ↦ htrans (h.conts j k hk)
    boots := fun j b hb ↦ ?_
    adopting := fun _ _ hh ↦ absurd hh (by simp [Runtime.boot])
    waiting := fun name' j hh ↦ ?_
    deleting := fun _ hh ↦ absurd hh (by simp [Runtime.boot]) }
  · by_cases hne : j = s.next
    · subst hne
      have hb' := hnext.boots b hb
      rw [hb']
      exact hnext
    · simp only [Runtime.boot, update_of_ne hne] at hb
      exact htrans (h.boots j b hb)
  · obtain ⟨rfl, rfl⟩ : name = name' ∧ s.next = j := by simpa [Runtime.boot] using hh
    exact hnext

end Labelled

end Labels

variable [DecidableEq Name] {s t : Runtime Name} {a : RunAction Name}

namespace Labelled

/-- An entry is set, and its name is not held any more, or for a container that is deleted. -/
theorem setEntry_hold (h : s.Labelled) {name : Name} {o : Option RunningContainer}
    {x : Option (Held Name)} (ho : ∀ e, o = some e → s.NamedAs e.id name)
    (hx : x = none ∨ x = some (.deleting name) ∧ o = none) :
    ((s.setEntry name o).hold x).Labelled where
  running name' e' he' := by
    by_cases hne : name' = name
    · subst hne
      simp only [Runtime.hold, setEntry, update_self] at he'
      exact { ho e' he' with }
    · simp only [Runtime.hold, setEntry, update_of_ne hne] at he'
      exact { h.running name' e' he' with }
  conts id k hk := { h.conts id k hk with }
  boots id b hb := { h.boots id b hb with }
  adopting _ _ hh := by rcases hx with rfl | ⟨rfl, -⟩ <;> cases hh
  waiting _ _ hh := by rcases hx with rfl | ⟨rfl, -⟩ <;> cases hh
  deleting name' hh := by
    rcases hx with rfl | ⟨rfl, rfl⟩ <;> cases hh
    exact update_self ..

/-- An entry is put into the map. -/
theorem record (h : s.Labelled) {name : Name} {e : RunningContainer} (he : s.NamedAs e.id name) :
    ((s.setEntry name (some e)).hold none).Labelled :=
  h.setEntry_hold (fun _ he' ↦ Option.some.inj he' ▸ he) (.inl rfl)

/-- An entry is dropped from the map, for its container to be deleted. -/
theorem drop (h : s.Labelled) (name : Name) :
    ((s.setEntry name none).hold (some (.deleting name))).Labelled :=
  h.setEntry_hold (fun _ he ↦ absurd he (by simp)) (.inr ⟨rfl, rfl⟩)

end Labelled

/-- **Every step keeps the labels.** -/
theorem labelled_step (h : s.Labelled) (hstep : s.step a = some t) : t.Labelled := by
  cases step_cases hstep with
  | hit _ => exact h
  | @find _ name id k x _ hk hname hx =>
    have hnamed : s.NamedAs id name := hname ▸ h.conts id k hk
    refine h.hold (fun name' id' hx' ↦ ?_) (fun name' id' hx' ↦ ?_) (fun name' hx' ↦ ?_) <;>
      rcases hx with rfl | rfl <;> cases hx'
    exact hnamed
  | spawn _ => exact h.boot _
  | adopt hheld => exact h.record (h.adopting _ _ hheld)
  | remove _ _ _ => exact (h.setCont (by simp)).boot _
  | release _ => exact h.release
  | callStarted hheld => exact h.record (h.waiting _ _ hheld)
  | moves _ hb hname => exact h.setBoot hb hname
  | @newContainer _ id b b' _ hb hname hk =>
    -- the container gets the name of the goroutine that makes it
    refine (h.setCont fun k hk' ↦ .inl ⟨b, hb, ?_⟩).setBoot hb hname
    cases hk'
    rfl
  | newTask _ hb hname hk =>
    refine (h.setCont fun k hk' ↦ .inr ⟨_, hk, ?_⟩).setBoot hb hname
    cases hk'
    rfl
  | @deleteTask id b b' hb hname =>
    refine (h.setCont fun k hk' ↦ .inr ?_).setBoot hb hname
    obtain ⟨k', hk, rfl⟩ := Option.map_eq_some_iff.1 hk'
    exact ⟨k', hk, rfl⟩
  | deleteContainer _ hb hname _ => exact (h.setCont (by simp)).setBoot hb hname
  | delete _ hu =>
    rcases hu with rfl | ⟨id, b, b', hb, hname, rfl⟩
    · exact h.drop _
    · exact (h.setBoot hb hname).drop _
  | deleteNone _ hrun =>
    refine h.hold (by simp) (by simp) fun name' hx' ↦ ?_
    cases hx'
    exact hrun
  | cleanup _ hheld hk hk' =>
    refine (h.setCont fun k hx ↦ .inr ⟨_, hk, ?_⟩).release
    rcases hk' with rfl | rfl <;> cases hx
    rfl

/-! ### Soundness of the map -/

/-- The container exists and has a task. -/
def HasTask (s : Runtime Name) (id : ℕ) : Prop := ∃ k, s.conts id = some k ∧ k.task = true

/-- Every entry of the map is of a container that exists and has a task. -/
def Sound (s : Runtime Name) : Prop := ∀ name e, s.running name = some e → s.HasTask e.id

/-- The steps that leave no unsound entry. -/
def KeepsSound (s : Runtime Name) : RunAction Name → Prop
  -- a container that was seen with a task still has one when it is put into the map
  | .adopt => ∀ name id, s.held = some (.adopting name id) → s.HasTask id
  -- and so has one whose boot has announced itself
  | .callStarted => ∀ name id, s.held = some (.waiting name id) → s.HasTask id
  -- a boot deletes the task of a container that is not in the map
  | .deleteTask id true => ∀ name e, s.running name = some e → e.id ≠ id
  | _ => True

omit [DecidableEq Name] in
theorem keepsSound_of_quiet (ha : a.quiet = true) : s.KeepsSound a := by
  unfold KeepsSound
  split
  · exact absurd ha (by simp [RunAction.quiet])
  · exact absurd ha (by simp [RunAction.quiet])
  · exact absurd ha (by simp [RunAction.quiet])
  · trivial

theorem sound_record_iff (h : s.Sound) {name : Name} {e : RunningContainer} :
    ((s.setEntry name (some e)).hold none).Sound ↔ s.HasTask e.id := by
  constructor
  · exact fun ht ↦ ht name e (update_self ..)
  · intro he name' e' he'
    by_cases hne : name' = name
    · subst hne
      obtain rfl : e = e' := by simpa [Runtime.hold, setEntry] using he'
      exact he
    · exact h name' e' ((update_of_ne hne _ _).symm.trans he')

omit [DecidableEq Name] in
theorem sound_setCont_iff (h : s.Sound) {id : ℕ} {x : Option (Cont Name)} :
    (s.setCont id x).Sound ↔
      ∀ name e, s.running name = some e → e.id = id → ∃ k, x = some k ∧ k.task = true := by
  constructor
  · rintro ht name e he rfl
    obtain ⟨k, hk, htask⟩ := ht name e he
    simp only [setCont, update_self] at hk
    exact ⟨k, hk, htask⟩
  · intro hx name e he
    by_cases hne : e.id = id
    · obtain ⟨k, hk, htask⟩ := hx name e he hne
      exact ⟨k, by simp [setCont, hne, hk], htask⟩
    · obtain ⟨k, hk, htask⟩ := h name e he
      exact ⟨k, (update_of_ne hne _ _).trans hk, htask⟩

omit [DecidableEq Name] in
/-- A container without a task may go: no sound entry is about it. -/
theorem sound_setCont_of_taskless (h : s.Sound) {id : ℕ}
    (hk : ∀ k, s.conts id = some k → k.task = false) (x : Option (Cont Name)) :
    (s.setCont id x).Sound := by
  refine (sound_setCont_iff h).2 fun name e he hid ↦ ?_
  obtain ⟨k, hk', htask⟩ := h name e he
  rw [hid] at hk'
  exact absurd htask (by simp [hk k hk'])

/-- **A step leaves no unsound entry exactly when it is guarded.** -/
theorem sound_step_iff (hl : s.Labelled) (h : s.Sound) (hstep : s.step a = some t) :
    t.Sound ↔ s.KeepsSound a := by
  cases step_cases hstep with
  | hit ha | find ha _ _ _ | spawn ha | release ha | moves ha _ _ | deleteNone ha _ =>
    exact iff_of_true h (keepsSound_of_quiet ha)
  | adopt hheld | callStarted hheld =>
    rw [sound_record_iff h]
    simp [KeepsSound, hheld]
  | remove ha hk htask =>
    refine iff_of_true (sound_setCont_of_taskless h (fun k hk' ↦ ?_) none) (keepsSound_of_quiet ha)
    rw [hk] at hk'
    cases hk'
    exact htask
  | newContainer ha hb hname hk =>
    exact iff_of_true (sound_setCont_of_taskless h (by simp [hk]) _) (keepsSound_of_quiet ha)
  | newTask ha hb hname hk =>
    exact iff_of_true ((sound_setCont_iff h).2 (by simp)) (keepsSound_of_quiet ha)
  | @deleteTask id b b' hb hname =>
    refine (sound_setCont_iff h).trans ?_
    constructor
    · intro hx name e he hid
      obtain ⟨k, hk, htask⟩ := hx name e he hid
      obtain ⟨k', -, rfl⟩ := Option.map_eq_some_iff.1 hk
      exact absurd htask (by simp)
    · exact fun hx name e he hid ↦ absurd hid (hx name e he)
  | deleteContainer ha hb hname hk =>
    exact iff_of_true (sound_setCont_of_taskless h hk none) (keepsSound_of_quiet ha)
  | @delete _ name u ha hu =>
    have hu' : u.running = s.running ∧ u.conts = s.conts := by
      rcases hu with rfl | ⟨id, b, b', -, -, rfl⟩ <;> exact ⟨rfl, rfl⟩
    refine iff_of_true (fun name' e' he' ↦ ?_) (keepsSound_of_quiet ha)
    have hold : s.running name' = some e' := by
      by_cases hne : name' = name
      · subst hne
        simp [Runtime.hold, setEntry] at he'
      · rw [← hu'.1]
        exact (update_of_ne hne _ _).symm.trans he'
    obtain ⟨k, hk, htask⟩ := h name' e' hold
    exact ⟨k, (congrFun hu'.2 e'.id).trans hk, htask⟩
  | @cleanup _ name id x ha hheld hk hx =>
    -- the entry of the container was dropped, and no other entry is about it
    refine iff_of_true ((sound_setCont_iff h).2 fun name' e he hid ↦ ?_) (keepsSound_of_quiet ha)
    have hname : name = name' := (hl.running name' e he).conts ⟨name, true⟩ (by rw [hid, hk])
    rw [← hname, hl.deleting name hheld] at he
    exact absurd he (by simp)

/-- **The map is sound at every point of a run exactly when each step of it keeps it so.** -/
theorem sound_throughout_iff {s₀ : Runtime Name} (h₀ : s₀.Initial) {as : List (RunAction Name)}
    (h : Run step s₀ as s) : Throughout step Sound s₀ as ↔ RunWhile step KeepsSound s₀ as s :=
  h.throughout_iff (fun _ _ _ hs hstep ↦ labelled_step hs hstep)
    (fun _ _ _ hl hs hstep ↦ sound_step_iff hl hs hstep) h₀.labelled
    (fun name e he ↦ absurd he (by simp [h₀.running name]))

/-- Nothing is there yet. -/
def empty : Runtime Name := ⟨fun _ ↦ none, fun _ ↦ none, fun _ ↦ none, none, 0⟩

omit [DecidableEq Name] in
theorem initial_empty : (empty : Runtime Name).Initial :=
  ⟨fun _ ↦ rfl, fun _ ↦ rfl, rfl, fun _ _ h ↦ absurd h (by simp [empty])⟩

/-- A container is booted and put into the map. -/
def bootRun : List (RunAction String) :=
  [.spawn "ubuntu", .newContainer 0, .newTask 0, .announce 0, .callStarted]

theorem sound_bootRun : Throughout step Sound empty bootRun := by
  obtain ⟨s, hs⟩ : ∃ s, RunWhile step KeepsSound empty bootRun s := by
    refine ⟨_, .cons trivial rfl <| .cons trivial rfl <| .cons trivial rfl <| .cons trivial rfl <|
      .cons ?_ rfl <| .nil _⟩
    intro name id hheld
    cases hheld
    exact ⟨⟨"ubuntu", true⟩, rfl, rfl⟩
  exact (sound_throughout_iff initial_empty (hs.mono fun _ _ _ ↦ trivial)).2 hs

/-- The context it was booted with ends, and the boot deletes the container; `Container` goes on
returning it. -/
theorem not_sound_after_cancel :
    ∃ s, Run step empty
        (bootRun ++ [.cancel 0, .exit 0, .deleteTask 0 true, .deleteContainer 0 true]) s ∧
      s.running "ubuntu" = some ⟨0, true⟩ ∧ s.conts 0 = none ∧
      step s (.hit "ubuntu") = some s ∧ ¬ s.Sound := by
  refine ⟨_, run_iff_foldlM.2 rfl, rfl, rfl, rfl, fun h ↦ ?_⟩
  obtain ⟨k, hk, -⟩ := h "ubuntu" ⟨0, true⟩ rfl
  cases hk

end Runtime

end Guest
