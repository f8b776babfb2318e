import Mathlib.Data.List.Basic

/-!
# Straight-line programs whose steps can fail

A sequence of steps, each of which either succeeds and goes on to the next, or fails and ends the
program: the shape of code that returns at the first error. A step that fails may leave something
behind, so it has **two effects**: what it does when it succeeds, and what it does when it does not.

Which steps fail is data (`fails`), so "for every step that may fail" is a quantifier over
functions.

* `runFaulty_invariant`: what both effects of every step preserve holds afterwards, whatever fails.
* `runFaulty_append_of_ok` and `runFaulty_append_of_failed` cut a program at a point it gets past,
  or does not.
* `runFaulty_eq_none`: with no failure, the state is the composition of the effects.
-/

/-- A step of a program: its name, its effect, and what it leaves behind when it fails. -/
structure FaultyStep (ε σ : Type*) where
  /-- The name under which the step fails. -/
  name : ε
  /-- The effect of a step that succeeds. -/
  done : σ → σ
  /-- The effect of a step that fails. -/
  broken : σ → σ

section Faulty

variable {ε σ : Type*}

/-- Run the steps until one fails: the step that failed, and the state. -/
def runFaulty (fails : ε → Bool) : List (FaultyStep ε σ) → σ → Option ε × σ
  | [], s => (none, s)
  | i :: is, s => if fails i.name then (some i.name, i.broken s) else runFaulty fails is (i.done s)

variable {fails : ε → Bool} {is js : List (FaultyStep ε σ)} {s : σ}

/-- **What every step keeps, the program keeps**, failing or not. -/
theorem runFaulty_invariant {P : σ → Prop}
    (hstep : ∀ i ∈ is, ∀ s, P s → P (i.done s) ∧ P (i.broken s)) (h : P s) :
    P (runFaulty fails is s).2 := by
  induction is generalizing s with
  | nil => exact h
  | cons i is ih =>
    rw [runFaulty]
    split
    · exact (hstep i (List.mem_cons_self ..) s h).2
    · exact ih (fun j hj ↦ hstep j (List.mem_cons_of_mem _ hj))
        (hstep i (List.mem_cons_self ..) s h).1

/-- Past a part that succeeds, the rest runs on its result. -/
theorem runFaulty_append_of_ok (h : ∀ i ∈ is, fails i.name = false) :
    runFaulty fails (is ++ js) s = runFaulty fails js (is.foldl (fun s i ↦ i.done s) s) := by
  induction is generalizing s with
  | nil => rfl
  | cons i is ih =>
    rw [List.cons_append, runFaulty, h i (List.mem_cons_self ..)]
    exact ih fun j hj ↦ h j (List.mem_cons_of_mem _ hj)

/-- A program that no step of which fails runs to its end. -/
theorem runFaulty_eq_none (h : ∀ i ∈ is, fails i.name = false) :
    runFaulty fails is s = (none, is.foldl (fun s i ↦ i.done s) s) := by
  rw [← List.append_nil is, runFaulty_append_of_ok h, List.append_nil]
  rfl

/-- **A step that fails ends the program**, with the same outcome whatever comes after it. -/
theorem exists_runFaulty_append_eq_some (h : ∃ i ∈ is, fails i.name = true) :
    ∃ e t, ∀ js, runFaulty fails (is ++ js) s = (some e, t) := by
  induction is generalizing s with
  | nil => simp at h
  | cons i is ih =>
    by_cases hi : fails i.name = true
    · exact ⟨i.name, i.broken s, fun js ↦ by rw [List.cons_append, runFaulty, if_pos hi]⟩
    · obtain ⟨j, hj, hfail⟩ := h
      rcases List.mem_cons.1 hj with rfl | hj'
      · exact absurd hfail hi
      · obtain ⟨e, t, hrest⟩ := ih (s := i.done s) ⟨j, hj', hfail⟩
        exact ⟨e, t, fun js ↦ by rw [List.cons_append, runFaulty, if_neg hi, hrest]⟩

/-- A program with a step that fails does not run to its end. -/
theorem isSome_runFaulty (h : ∃ i ∈ is, fails i.name = true) : (runFaulty fails is s).1.isSome := by
  obtain ⟨e, t, hrun⟩ := exists_runFaulty_append_eq_some (s := s) h
  rw [← List.append_nil is, hrun]
  rfl

/-- Past a part that fails, nothing runs. -/
theorem runFaulty_append_of_failed (h : ∃ i ∈ is, fails i.name = true) :
    runFaulty fails (is ++ js) s = runFaulty fails is s := by
  obtain ⟨e, t, hrun⟩ := exists_runFaulty_append_eq_some (s := s) h
  have hnil := hrun []
  rw [List.append_nil] at hnil
  rw [hrun, hnil]

end Faulty
