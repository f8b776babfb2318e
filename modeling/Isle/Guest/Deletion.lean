import Isle.Guest.Running

/-!
# Deleting a container that was adopted

`deleteContainer` of `guest/runc.go` next to `deleteCommand.Run` of `guest/console.go`, in the
states that the guest can be in. Both drop the entry of the isle from `g.running`, and call its
`cancel` function first. `Container` puts two kinds of entries into the map: a container that it
booted has the function, and one that it **adopted**, because it was running already, does not. The
loop of `Cleanup` looks whether there is one; the two deletions do not, and calling it is a panic.

`deletable_throughout_iff`: every entry can be deleted at every point of a run exactly if no
container is adopted in it.
-/

open Function (update update_self update_of_ne update_eq_self)

namespace Guest

open Filepath

/-! ### `deleteContainer` -/

/-- How `deleteContainer` ends. -/
inductive Deletion
  /-- A nil function was called. -/
  | panic
  | returned (err : Option String)
  deriving DecidableEq, Repr

/-- `deleteContainer`. Unlike the command, it keeps the bundle of an isle without a container. -/
def deleteContainer (g : ConsoleGuest) (name : String) (env : DeleteEnv) :
    Deletion × ConsoleGuest :=
  match g.running name with
  | some ⟨_, false⟩ => (.panic, g)
  | _ =>
    let g := { g with running := update g.running name none }
    match env.containers with
    | .error e => (.returned (some e), g)
    | .ok [] => (.returned none, g)
    | .ok (id :: ids) =>
      let g := g.cleanup (id :: ids)
      let bundlePath := join basePath name
      (.returned
          (if g.tree.removeAllFails env.stuck bundlePath then some env.removeError else none),
        { g with tree := g.tree.removeAll env.stuck bundlePath })

/-- **An isle can be deleted**, one way and the other: no nil function is called, and its entry is
gone from the map, and no other. -/
structure DeletesEntry (running : String → Option RunningContainer) (name : String) : Prop where
  container : ∀ tree cleanups env,
    (deleteContainer ⟨running, tree, cleanups⟩ name env).1 ≠ .panic ∧
      (deleteContainer ⟨running, tree, cleanups⟩ name env).2.running =
        update running name none
  command : ∀ tree cleanups env,
    (deleteCommandRun ⟨running, tree, cleanups⟩ name env).1 ≠ .panic ∧
      (deleteCommandRun ⟨running, tree, cleanups⟩ name env).2.running =
        update running name none

/-- The entry, if there is one, has a `cancel` function. -/
def Cancellable (running : String → Option RunningContainer) (name : String) : Prop :=
  ∀ e, running name = some e → e.cancel = true

section Functions

variable {g : ConsoleGuest} {name : String} {env : DeleteEnv}

theorem deleteContainer_of_adopted {id : ℕ} (h : g.running name = some ⟨id, false⟩) :
    deleteContainer g name env = (.panic, g) := by
  simp only [deleteContainer, h]

theorem running_cleanup (g : ConsoleGuest) (ids : List ℕ) :
    (g.cleanup ids).running = g.running := by
  cases ids <;> rfl

theorem deleteContainer_of_cancellable (h : Cancellable g.running name) :
    (deleteContainer g name env).1 ≠ .panic ∧
      (deleteContainer g name env).2.running = update g.running name none := by
  unfold deleteContainer
  split
  · next hadopted => exact absurd (h _ hadopted) (by simp)
  · split
    · exact ⟨by simp, rfl⟩
    · exact ⟨by simp, rfl⟩
    · exact ⟨by simp, running_cleanup _ _⟩

theorem deleteCommandRun_of_cancellable (h : Cancellable g.running name) :
    (deleteCommandRun g name env).1 ≠ .panic ∧
      (deleteCommandRun g name env).2.running = update g.running name none := by
  unfold deleteCommandRun
  split
  · next hadopted => exact absurd (h _ hadopted) (by simp)
  · split
    · exact ⟨by simp, rfl⟩
    · unfold ConsoleGuest.removeBundle
      dsimp only
      split
      · exact ⟨by simp, running_cleanup _ _⟩
      · exact ⟨by simp, running_cleanup _ _⟩

end Functions

theorem deletesEntry_iff {running : String → Option RunningContainer} {name : String} :
    DeletesEntry running name ↔ Cancellable running name := by
  constructor
  · rintro h ⟨id, cancel⟩ he
    cases cancel with
    | true => rfl
    | false =>
      refine absurd ?_ (h.container (FileTree.ofPaths []) [] ⟨.ok [], fun _ ↦ false, ""⟩).1
      rw [deleteContainer_of_adopted he]
  · exact fun h ↦ ⟨fun _ _ _ ↦ deleteContainer_of_cancellable h,
      fun _ _ _ ↦ deleteCommandRun_of_cancellable h⟩

/-! ### Along a run -/

namespace Runtime

variable {s t : Runtime String} {a : RunAction String}

/-- Every isle can be deleted. -/
def Deletable (s : Runtime String) : Prop := ∀ name, DeletesEntry s.running name

theorem deletable_iff : s.Deletable ↔ ∀ name e, s.running name = some e → e.cancel = true :=
  forall_congr' fun _ ↦ deletesEntry_iff

/-- The `delete` of the system does to the map what the command does, which does not panic. -/
theorem running_of_delete {name : String} (hstep : s.step (.delete name) = some t) (tree : FileTree)
    (cleanups : List ℕ) (env : DeleteEnv) :
    (deleteCommandRun ⟨s.running, tree, cleanups⟩ name env).1 ≠ .panic ∧
      t.running = (deleteCommandRun ⟨s.running, tree, cleanups⟩ name env).2.running := by
  have hmap : Cancellable s.running name ∧ t.running = update s.running name none := by
    simp only [step, deleteStep] at hstep
    split at hstep
    · next hnone =>
      cases hstep
      refine ⟨fun e he ↦ absurd (hnone.symm.trans he) (by simp), ?_⟩
      rw [← hnone, update_eq_self]
      rfl
    · next id _ hsome =>
      cases hstep
      refine ⟨fun e he ↦ ?_, ?_⟩
      · rw [← Option.some.inj (hsome.symm.trans he)]
      · cases s.boots id <;> rfl
    · exact absurd hstep (by simp)
  have hrun := @deleteCommandRun_of_cancellable ⟨s.running, tree, cleanups⟩ name env hmap.1
  exact ⟨hrun.1, hmap.2.trans hrun.2.symm⟩

/-- Of the steps that put an entry into the map, only an adoption puts one without a `cancel`
function. -/
theorem deletable_step_iff (h : s.Deletable) (hstep : s.step a = some t) :
    t.Deletable ↔ a ≠ .adopt := by
  have hquiet : ∀ {b : RunAction String}, b.quiet = true → b ≠ .adopt := by
    rintro b hb rfl
    cases hb
  rw [deletable_iff] at h ⊢
  cases step_cases hstep with
  | hit ha | find ha _ _ _ | spawn ha | remove ha _ _ | release ha | moves ha _ _
  | newContainer ha _ _ _ | newTask ha _ _ _ | deleteContainer ha _ _ _ | deleteNone ha _
  | cleanup ha _ _ _ => exact iff_of_true h (hquiet ha)
  | deleteTask _ _ => exact iff_of_true h (by simp)
  | @adopt name id hheld =>
    refine iff_of_false (fun hall ↦ ?_) (by simp)
    exact absurd (hall name ⟨id, false⟩ (update_self ..)) (by simp)
  | @callStarted name id hheld =>
    refine iff_of_true (fun name' e he ↦ ?_) (by simp)
    by_cases hne : name' = name
    · have hself : update s.running name (some ⟨id, true⟩) name = some e := hne ▸ he
      rw [update_self] at hself
      rw [← Option.some.inj hself]
    · exact h name' e ((update_of_ne hne ..).symm.trans he)
  | @delete _ name u ha hu =>
    have hu' : u.running = s.running := by
      rcases hu with rfl | ⟨id, b, b', -, -, rfl⟩ <;> rfl
    refine iff_of_true (fun name' e he ↦ ?_) (hquiet ha)
    by_cases hne : name' = name
    · rw [hne] at he
      exact absurd ((update_self ..).symm.trans he) (by simp)
    · exact h name' e (hu' ▸ (update_of_ne hne ..).symm.trans he)

/-- **Deletion, exactly.** Both deletions of every isle complete without calling a nil function and
drop exactly its entry, at every point of a run, if and only if no container that was found running
is adopted in it. -/
theorem deletable_throughout_iff (s₀ s : Runtime String) (h₀ : s₀.Initial)
    (as : List (RunAction String)) (h : Run step s₀ as s) :
    Throughout step Deletable s₀ as ↔ RunWhile step (fun _ a ↦ a ≠ .adopt) s₀ as s :=
  h.throughout_iff (J := fun _ ↦ True) (fun _ _ _ _ _ ↦ trivial)
    (fun _ _ _ _ hs hstep ↦ deletable_step_iff hs hstep) trivial
    (deletable_iff.2 fun name e he ↦ absurd he (by simp [h₀.running name]))

/-- A container that this guest has booted can be deleted. -/
theorem deletable_bootRun : Throughout step Deletable empty bootRun := by
  obtain ⟨s, hs⟩ : ∃ s, RunWhile step (fun _ a ↦ a ≠ .adopt) empty bootRun s :=
    ⟨_, .cons (by simp) rfl <| .cons (by simp) rfl <| .cons (by simp) rfl <|
      .cons (by simp) rfl <| .cons (by simp) rfl <| .nil _⟩
  exact (deletable_throughout_iff empty s initial_empty bootRun (hs.mono fun _ _ _ ↦ trivial)).2 hs

/-- A guest that was restarted, with a container that has gone on running. -/
def restarted : Runtime String :=
  ⟨fun _ ↦ none, fun id ↦ if id = 0 then some ⟨"ubuntu", true⟩ else none, fun _ ↦ none, none, 1⟩

theorem initial_restarted : restarted.Initial := by
  refine ⟨fun _ ↦ rfl, fun _ ↦ rfl, rfl, fun id k hk ↦ ?_⟩
  by_cases hid : id = 0
  · rw [hid]
    exact Nat.one_pos
  · simp [restarted, hid] at hk

/-- **A session of the isle, and then its deletion**: the container is adopted, and either way of
deleting it calls a nil function. -/
theorem not_deletable_after_restart :
    ∃ s, restarted.Initial ∧ Run step restarted [.find "ubuntu" 0 true, .adopt] s ∧
      (∀ tree cleanups env,
        (deleteContainer ⟨s.running, tree, cleanups⟩ "ubuntu" env).1 = .panic ∧
          (deleteCommandRun ⟨s.running, tree, cleanups⟩ "ubuntu" env).1 = .panic) ∧
      ¬ s.Deletable := by
  refine ⟨_, initial_restarted, run_iff_foldlM.2 rfl, fun tree cleanups env ↦ ⟨rfl, rfl⟩,
    fun h ↦ ?_⟩
  exact absurd (deletable_iff.1 h "ubuntu" ⟨0, false⟩ rfl) (by simp)

end Runtime

end Guest
