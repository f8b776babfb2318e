import Mathlib.Data.List.Basic

/-!
# Messages in a pipe

A writer turns messages into pieces of a stream, and changes with each of them; a reader takes the
messages off the stream again, and changes likewise. Between the two are the pieces that were
written and not read. `InFlight` says what they are: the reader would take the messages off them one
after the other, and would then be at the writer's place.

So it is enough to know what happens **at one place**. A writer and a reader that are at the same
place write and read a message, and are at the same place again (`InFlight.write`); everything that
is in between stays readable, and is read in the order in which it was written (`InFlight.read`).
-/

section Pipe

variable {σ τ π β : Type*}

/-- What the reader finds in the pipe, and the writer at the end of it. -/
inductive InFlight (reads : τ → List β → π → τ → List β → Prop) (sync : σ → τ → Prop) :
    τ → List π → List β → σ → Prop
  | nil {w r} (h : sync w r) : InFlight reads sync r [] [] w
  | cons {r r' p queue piece pipe w} (hne : piece ≠ [])
      (hread : ∀ rest, reads r (piece ++ rest) p r' rest)
      (tail : InFlight reads sync r' queue pipe w) :
      InFlight reads sync r (p :: queue) (piece ++ pipe) w

namespace InFlight

variable {reads : τ → List β → π → τ → List β → Prop} {sync : σ → τ → Prop} {r : τ} {w w' : σ}
  {queue : List π} {pipe piece : List β} {p : π}

/-- **Writing** puts a message at the end. -/
theorem write (h : InFlight reads sync r queue pipe w)
    (hwrite : ∀ r, sync w r →
      piece ≠ [] ∧ ∃ r', sync w' r' ∧ ∀ rest, reads r (piece ++ rest) p r' rest) :
    InFlight reads sync r (queue ++ [p]) (pipe ++ piece) w' := by
  induction h with
  | nil h =>
    obtain ⟨hne, r', hsync, hread⟩ := hwrite _ h
    simpa using InFlight.cons hne hread (.nil hsync)
  | cons hne' hread _ ih =>
    rw [List.append_assoc]
    exact .cons hne' hread (ih hwrite)

/-- **Reading** takes the first of them. -/
theorem read (h : InFlight reads sync r queue pipe w) (hne : pipe ≠ []) :
    ∃ p queue' r' pipe', queue = p :: queue' ∧ reads r pipe p r' pipe' ∧
      InFlight reads sync r' queue' pipe' w := by
  cases h with
  | nil => exact absurd rfl hne
  | cons _ hread tail => exact ⟨_, _, _, _, rfl, hread _, tail⟩

theorem queue_eq_nil_iff (h : InFlight reads sync r queue pipe w) : queue = [] ↔ pipe = [] := by
  cases h with
  | nil => exact iff_of_true rfl rfl
  | cons hne =>
    exact iff_of_false (List.cons_ne_nil _ _) fun hnil ↦ hne (List.append_eq_nil_iff.1 hnil).1

/-- A reader that takes everything off the pipe is at the writer's place. -/
theorem exists_sync (h : InFlight reads sync r queue pipe w) : ∃ r', sync w r' := by
  induction h with
  | nil h => exact ⟨_, h⟩
  | cons _ _ _ ih => exact ih

end InFlight

end Pipe
