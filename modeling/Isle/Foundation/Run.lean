import Mathlib.Data.List.Basic

/-!
# Runs of a labelled step function

The run substrate for every state machine of this development. A machine is a **partial step
function** `step : σ → α → Option σ`: the label resolves the nondeterminism (which party moves, what
the environment answers), and `none` says that the labelled step is not enabled.

## Guarded runs

A run is taken **under a guard** `C : σ → α → Prop` on the state before each step and the step's
label. The unguarded case is `C := fun _ _ ↦ True`, abbreviated `Run`. Statements of the form "in
every run whose steps all meet `C`, …" are statements about `RunWhile step C`.

* `RunWhile.invariant` is the one induction over runs: a predicate that every guarded step preserves
  holds wherever a guarded run from it ends.
* `RunWhile.exists_of_measure` is the rule for progress, and `RunWhile.simulates` that for the
  simulation of one machine by another.
* `RunWhile.append` builds runs; `runWhile_iff_foldlM` reads a run as an evaluation, which is how
  concrete runs are exhibited.
* `Throughout` says that a predicate holds in every state a run passes through, and
  `RunWhile.throughout_iff` is the rule for the exact guard under which it does;
  `RunWhile.throughout_iff_of_invariant` is the same among runs that are guarded already, and
  `RunWhile.last_iff` is about the end of a run, for what no step brings back.
-/

section Run

variable {σ α : Type*}

/-- A run of `step` from one state to another along a list of labels, each step of which meets the
guard `C` in the state it is taken from. -/
inductive RunWhile (step : σ → α → Option σ) (C : σ → α → Prop) : σ → List α → σ → Prop
  | nil (s : σ) : RunWhile step C s [] s
  | cons {s t u : σ} {a : α} {as : List α} (guard : C s a) (head : step s a = some t)
      (tail : RunWhile step C t as u) : RunWhile step C s (a :: as) u

/-- An unguarded run. -/
abbrev Run (step : σ → α → Option σ) : σ → List α → σ → Prop :=
  RunWhile step fun _ _ ↦ True

namespace RunWhile

variable {step : σ → α → Option σ} {C D : σ → α → Prop} {s t u : σ} {as bs : List α}

/-- **The induction over runs.** What every guarded step preserves holds at the end of a guarded
run. -/
theorem invariant {I : σ → Prop} (hstep : ∀ s a t, I s → C s a → step s a = some t → I t)
    (h : RunWhile step C s as t) (h0 : I s) : I t := by
  induction h with
  | nil s => exact h0
  | cons guard head _ ih => exact ih (hstep _ _ _ h0 guard head)

/-- A run under a guard is a run under every guard that follows from it along an invariant. -/
theorem guard_of_invariant {I : σ → Prop} (hstep : ∀ s a t, I s → C s a → step s a = some t → I t)
    (hCD : ∀ s a, I s → C s a → D s a) (h : RunWhile step C s as t) (h0 : I s) :
    RunWhile step D s as t := by
  induction h with
  | nil s => exact .nil s
  | cons guard head _ ih => exact .cons (hCD _ _ h0 guard) head (ih (hstep _ _ _ h0 guard head))

/-- A run under a guard is a run under every weaker one. -/
theorem mono (hCD : ∀ s a, C s a → D s a) (h : RunWhile step C s as t) : RunWhile step D s as t :=
  h.guard_of_invariant (I := fun _ ↦ True) (fun _ _ _ _ _ _ ↦ trivial) (fun s a _ ↦ hCD s a) trivial

theorem append (h : RunWhile step C s as t) (h' : RunWhile step C t bs u) :
    RunWhile step C s (as ++ bs) u := by
  induction h with
  | nil s => exact h'
  | cons guard head _ ih => exact .cons guard head (ih h')

end RunWhile

variable {s : σ} {P J : σ → Prop}

/-- **Progress.** Where from every state of an invariant that is not done some guarded step leads to
another, with a smaller measure, a guarded run leads to one that is done. -/
theorem RunWhile.exists_of_measure {step : σ → α → Option σ} {C : σ → α → Prop} {I D : σ → Prop}
    (μ : σ → ℕ) (hprogress : ∀ s, I s → ¬ D s → ∃ a t, C s a ∧ step s a = some t ∧ I t ∧ μ t < μ s)
    (hs : I s) : ∃ as t, RunWhile step C s as t ∧ I t ∧ D t := by
  induction hn : μ s using Nat.strongRecOn generalizing s with
  | ind n ih =>
    by_cases hD : D s
    · exact ⟨[], s, .nil s, hs, hD⟩
    · obtain ⟨a, t, hguard, hstep, ht, hlt⟩ := hprogress s hs hD
      obtain ⟨as, u, hrun, hu⟩ := ih (μ t) (hn ▸ hlt) ht rfl
      exact ⟨a :: as, u, .cons hguard hstep hrun, hu⟩

/-- **Simulation.** Where every guarded step can be followed by a run of another machine that ends
in a related state, every guarded run can. -/
theorem RunWhile.simulates {τ β : Type*} {step : σ → α → Option σ} {C : σ → α → Prop}
    {next : τ → β → Option τ} {R : σ → τ → Prop}
    (hstep : ∀ s a t u, R s u → C s a → step s a = some t → ∃ bs v, Run next u bs v ∧ R t v) {t : σ}
    {as : List α} (h : RunWhile step C s as t) {u : τ} (hu : R s u) :
    ∃ bs v, Run next u bs v ∧ R t v := by
  refine h.invariant (I := fun s ↦ ∃ bs v, Run next u bs v ∧ R s v) ?_ ⟨[], u, .nil u, hu⟩
  rintro s a t ⟨bs, v, hrun, hv⟩ hguard hs
  obtain ⟨cs, w, hrun', hw⟩ := hstep s a t v hv hguard hs
  exact ⟨bs ++ cs, w, hrun.append hrun', hw⟩

/-- A step given by a guard is taken when the guard holds. -/
theorem guarded_eq_some {p : Prop} [Decidable p] {t : σ}
    (h : (if p then some s else none) = some t) : p ∧ s = t := by
  simpa using h

variable {step : σ → α → Option σ} {C : σ → α → Prop} {s t : σ} {as : List α}

/-- **Runs evaluate.** A run under a decidable guard is exactly a successful monadic fold of the
guarded step function. -/
theorem runWhile_iff_foldlM [∀ s a, Decidable (C s a)] :
    RunWhile step C s as t ↔ as.foldlM (fun s a ↦ if C s a then step s a else none) s = some t := by
  induction as generalizing s with
  | nil =>
    constructor
    · rintro ⟨⟩
      rfl
    · intro h
      rw [List.foldlM_nil] at h
      cases h
      exact .nil _
  | cons a as ih =>
    rw [List.foldlM_cons]
    constructor
    · rintro (- | ⟨guard, head, tail⟩)
      rw [if_pos guard, head]
      exact ih.1 tail
    · intro h
      obtain ⟨u, hu, htail⟩ := Option.bind_eq_some_iff.1 h
      obtain ⟨guard, head⟩ := Option.ite_none_right_eq_some.1 hu
      exact .cons guard head (ih.2 htail)

theorem run_iff_foldlM : Run step s as t ↔ as.foldlM step s = some t := by
  have h : Run step s as t ↔ _ := runWhile_iff_foldlM
  simpa only [if_true] using h

/-! ### Predicates along a run -/

/-- `P` holds in every state that the run from `s` along `as` passes through, the first and the last
included. -/
def Throughout (step : σ → α → Option σ) (P : σ → Prop) (s : σ) (as : List α) : Prop :=
  ∀ bs t, bs <+: as → Run step s bs t → P t

theorem throughout_cons {a : α} (hs : step s a = some t) :
    Throughout step P s (a :: as) ↔ P s ∧ Throughout step P t as := by
  constructor
  · refine fun h ↦ ⟨h [] s List.nil_prefix (.nil s), fun bs u hbs hrun ↦ ?_⟩
    exact h (a :: bs) u (List.cons_prefix_cons.2 ⟨rfl, hbs⟩) (.cons trivial hs hrun)
  · rintro ⟨hP, h⟩ bs u hbs hrun
    cases hrun with
    | nil _ => exact hP
    | cons _ head tail =>
      obtain ⟨rfl, hbs'⟩ := List.cons_prefix_cons.1 hbs
      rw [hs] at head
      cases head
      exact h _ u hbs' tail

/-- **The exact guard, among guarded runs.** Where a step from the states of an invariant `I`, which
`P` follows from, leads to `P` exactly when it meets the guard `C` and then keeps `I`, a run keeps
`P` throughout exactly when every step of it meets `C`. -/
theorem RunWhile.throughout_iff_of_invariant {D : σ → α → Prop} {I : σ → Prop} (hP : ∀ s, I s → P s)
    (hiff : ∀ s a t, I s → D s a → step s a = some t → (P t ↔ C s a))
    (hI : ∀ s a t, I s → D s a → C s a → step s a = some t → I t) (h : RunWhile step D s as t)
    (hs : I s) : Throughout step P s as ↔ RunWhile step C s as t := by
  induction h with
  | nil s =>
    refine iff_of_true (fun bs u hbs hrun ↦ ?_) (.nil s)
    rw [List.prefix_nil.1 hbs] at hrun
    cases hrun
    exact hP s hs
  | cons guard head _ ih =>
    rw [throughout_cons head]
    constructor
    · rintro ⟨-, hthr⟩
      have hC := (hiff _ _ _ hs guard head).1 (hthr [] _ List.nil_prefix (.nil _))
      exact .cons hC head ((ih (hI _ _ _ hs guard hC head)).1 hthr)
    · rintro (- | ⟨hC, head', tail⟩)
      rw [head] at head'
      cases head'
      exact ⟨hP _ hs, (ih (hI _ _ _ hs guard hC head)).2 tail⟩

/-- **The exact guard.** Where, from the states of an invariant `J`, one step keeps `P` exactly when
it meets the guard, a run keeps `P` throughout exactly when every step of it meets the guard. -/
theorem RunWhile.throughout_iff (hJ : ∀ s a t, J s → step s a = some t → J t)
    (hiff : ∀ s a t, J s → P s → step s a = some t → (P t ↔ C s a)) (h : Run step s as t)
    (hJs : J s) (hPs : P s) : Throughout step P s as ↔ RunWhile step C s as t :=
  h.throughout_iff_of_invariant (I := fun s ↦ J s ∧ P s) (fun _ hs ↦ hs.2)
    (fun s a t hs _ hstep ↦ hiff s a t hs.1 hs.2 hstep)
    (fun s a t hs _ hC hstep ↦ ⟨hJ s a t hs.1 hstep, (hiff s a t hs.1 hs.2 hstep).2 hC⟩) ⟨hJs, hPs⟩

/-- What no step brings back holds throughout a run if it holds at the end. -/
theorem RunWhile.throughout_of_last (hJ : ∀ s a t, J s → step s a = some t → J t)
    (hback : ∀ s a t, J s → step s a = some t → P t → P s) (h : Run step s as t) (hJs : J s)
    (hPt : P t) : Throughout step P s as := by
  induction h with
  | nil s =>
    intro bs u hbs hrun
    rw [List.prefix_nil.1 hbs] at hrun
    cases hrun
    exact hPt
  | cons _ head _ ih =>
    have hthr := ih (hJ _ _ _ hJs head) hPt
    rw [throughout_cons head]
    exact ⟨hback _ _ _ hJs head (hthr [] _ List.nil_prefix (.nil _)), hthr⟩

/-- **The exact guard, for the end of a run.** Where one step keeps `P` exactly when it meets the
guard, and none brings it back, `P` holds at the end exactly when every step meets the guard. -/
theorem RunWhile.last_iff (hJ : ∀ s a t, J s → step s a = some t → J t)
    (hiff : ∀ s a t, J s → P s → step s a = some t → (P t ↔ C s a))
    (hback : ∀ s a t, J s → step s a = some t → P t → P s) (h : Run step s as t) (hJs : J s)
    (hPs : P s) : P t ↔ RunWhile step C s as t := by
  rw [← h.throughout_iff hJ hiff hJs hPs]
  exact ⟨h.throughout_of_last hJ hback hJs, fun hthr ↦ hthr as t List.prefix_rfl h⟩

end Run
