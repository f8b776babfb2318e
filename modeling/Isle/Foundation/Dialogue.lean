import Mathlib.Data.List.Basic

/-!
# Two sequential processes and the queues between them

A `Dialogue` is a sequential process: it sends, receives and acts, in an order that depends on what
it received and on nothing else. Two of them, with a queue in each direction, may take their steps
in any order; but as neither of them ever chooses, all orders lead to the same end. So it is enough
to give **one** order in which both of them finish.

`Finishes` says that there is one, from where they are. `Finishes.send`, `Finishes.recv` and
`Finishes.act` say that it is kept by whatever step either of them takes next, and
`Finishes.progress` that one of them can take a step as long as not both have finished.

What a process does is watched by a monitor, a relation on its states: `Finishes` also says that the
monitor of either has a next state at each event, up to the end.
-/

/-- A sequential process that sends and receives `π`, acts by `ε` and returns `ρ`. -/
inductive Dialogue (π ε ρ : Type*)
  | send (p : π) (k : Dialogue π ε ρ)
  | recv (k : π → Dialogue π ε ρ)
  | act (e : ε) (k : Dialogue π ε ρ)
  | ret (r : ρ)

namespace Dialogue

variable {π ε ρ μ : Type*}

/-- What a monitor sees. -/
inductive Event (π ε : Type*)
  | sent (p : π)
  | received (p : π)
  | acted (e : ε)

/-- Go on behind a process. -/
def bind {ρ' : Type*} : Dialogue π ε ρ → (ρ → Dialogue π ε ρ') → Dialogue π ε ρ'
  | send p k, f => send p (k.bind f)
  | recv k, f => recv fun p ↦ (k p).bind f
  | act e k, f => act e (k.bind f)
  | ret r, f => f r

@[simp] theorem bind_ret (d : Dialogue π ε ρ) : d.bind ret = d := by
  induction d with
  | send p k ih => rw [bind, ih]
  | recv k ih => exact congrArg recv (funext ih)
  | act e k ih => rw [bind, ih]
  | ret r => rfl

/-- What a process returns if it receives these, and nothing after them. -/
def answer : Dialogue π ε ρ → List π → Option ρ
  | send _ k, inputs => k.answer inputs
  | recv k, p :: inputs => (k p).answer inputs
  | recv _, [] => none
  | act _ k, inputs => k.answer inputs
  | ret r, _ => some r

/-- There is an order of steps in which both processes finish, from the states of their monitors
and with the queues to the right and to the left. -/
inductive Finishes (mon : μ → Event π ε → μ → Prop) (fin : μ → ρ → μ → ρ → Prop) :
    μ → Dialogue π ε ρ → μ → Dialogue π ε ρ → List π → List π → Prop
  | ret {m m' r r'} (h : fin m r m' r') : Finishes mon fin m (ret r) m' (ret r') [] []
  | sendLeft {m m₁ m' p k d' q q'} (h : mon m (.sent p) m₁)
      (tail : Finishes mon fin m₁ k m' d' (q ++ [p]) q') : Finishes mon fin m (send p k) m' d' q q'
  | recvLeft {m m₁ m' p k d' q q'} (h : mon m (.received p) m₁)
      (tail : Finishes mon fin m₁ (k p) m' d' q q') : Finishes mon fin m (recv k) m' d' q (p :: q')
  | actLeft {m m₁ m' e k d' q q'} (h : mon m (.acted e) m₁)
      (tail : Finishes mon fin m₁ k m' d' q q') : Finishes mon fin m (act e k) m' d' q q'
  | sendRight {m m' m₁ p k d q q'} (h : mon m' (.sent p) m₁)
      (tail : Finishes mon fin m d m₁ k q (q' ++ [p])) : Finishes mon fin m d m' (send p k) q q'
  | recvRight {m m' m₁ p k d q q'} (h : mon m' (.received p) m₁)
      (tail : Finishes mon fin m d m₁ (k p) q q') : Finishes mon fin m d m' (recv k) (p :: q) q'
  | actRight {m m' m₁ e k d q q'} (h : mon m' (.acted e) m₁)
      (tail : Finishes mon fin m d m₁ k q q') : Finishes mon fin m d m' (act e k) q q'

namespace Finishes

variable {mon : μ → Event π ε → μ → Prop} {fin : μ → ρ → μ → ρ → Prop} {m m' : μ}
  {d d' : Dialogue π ε ρ} {q q' : List π}

/-- The two sides are alike. -/
theorem symm (h : Finishes mon fin m d m' d' q q') :
    Finishes mon (fun m r m' r' ↦ fin m' r' m r) m' d' m d q' q := by
  induction h with
  | ret h => exact .ret h
  | sendLeft h _ ih => exact .sendRight h ih
  | recvLeft h _ ih => exact .recvRight h ih
  | actLeft h _ ih => exact .actRight h ih
  | sendRight h _ ih => exact .sendLeft h ih
  | recvRight h _ ih => exact .recvLeft h ih
  | actRight h _ ih => exact .actLeft h ih

/-- **Sending next is on the way.** The steps that the order has in front of it are the other
side's, and can be taken after it. -/
theorem send {p : π} {k : Dialogue π ε ρ} (h : Finishes mon fin m (.send p k) m' d' q q') :
    ∃ m₁, mon m (.sent p) m₁ ∧ Finishes mon fin m₁ k m' d' (q ++ [p]) q' := by
  generalize hd : Dialogue.send p k = d at h
  induction h with
  | ret => cases hd
  | sendLeft h tail =>
    cases hd
    exact ⟨_, h, tail⟩
  | recvLeft => cases hd
  | actLeft => cases hd
  | sendRight h _ ih => exact (ih hd).imp fun _ ⟨hmon, htail⟩ ↦ ⟨hmon, .sendRight h htail⟩
  | recvRight h _ ih => exact (ih hd).imp fun _ ⟨hmon, htail⟩ ↦ ⟨hmon, .recvRight h htail⟩
  | actRight h _ ih => exact (ih hd).imp fun _ ⟨hmon, htail⟩ ↦ ⟨hmon, .actRight h htail⟩

/-- **Receiving next is on the way.** -/
theorem recv {p : π} {k : π → Dialogue π ε ρ} (h : Finishes mon fin m (.recv k) m' d' q (p :: q')) :
    ∃ m₁, mon m (.received p) m₁ ∧ Finishes mon fin m₁ (k p) m' d' q q' := by
  generalize hd : Dialogue.recv k = d at h
  generalize hq : p :: q' = queue at h
  induction h generalizing q' with
  | ret => cases hd
  | sendLeft => cases hd
  | recvLeft h tail =>
    cases hd
    cases hq
    exact ⟨_, h, tail⟩
  | actLeft => cases hd
  | sendRight h _ ih =>
    subst hq
    exact (ih hd (List.cons_append ..).symm).imp fun _ ⟨hmon, htail⟩ ↦ ⟨hmon, .sendRight h htail⟩
  | recvRight h _ ih => exact (ih hd hq).imp fun _ ⟨hmon, htail⟩ ↦ ⟨hmon, .recvRight h htail⟩
  | actRight h _ ih => exact (ih hd hq).imp fun _ ⟨hmon, htail⟩ ↦ ⟨hmon, .actRight h htail⟩

/-- **Acting next is on the way.** -/
theorem act {e : ε} {k : Dialogue π ε ρ} (h : Finishes mon fin m (.act e k) m' d' q q') :
    ∃ m₁, mon m (.acted e) m₁ ∧ Finishes mon fin m₁ k m' d' q q' := by
  generalize hd : Dialogue.act e k = d at h
  induction h with
  | ret => cases hd
  | sendLeft => cases hd
  | recvLeft => cases hd
  | actLeft h tail =>
    cases hd
    exact ⟨_, h, tail⟩
  | sendRight h _ ih => exact (ih hd).imp fun _ ⟨hmon, htail⟩ ↦ ⟨hmon, .sendRight h htail⟩
  | recvRight h _ ih => exact (ih hd).imp fun _ ⟨hmon, htail⟩ ↦ ⟨hmon, .recvRight h htail⟩
  | actRight h _ ih => exact (ih hd).imp fun _ ⟨hmon, htail⟩ ↦ ⟨hmon, .actRight h htail⟩

/-- Nothing is on its way to a process that has returned. -/
theorem queue_of_ret {r : ρ} (h : Finishes mon fin m (.ret r) m' d' q q') : q' = [] := by
  generalize hd : Dialogue.ret r = d at h
  induction h with
  | ret => rfl
  | sendLeft => cases hd
  | recvLeft => cases hd
  | actLeft => cases hd
  | sendRight _ _ ih => exact absurd (ih hd) (by simp)
  | recvRight _ _ ih => exact ih hd
  | actRight _ _ ih => exact ih hd

/-- A process that has returned is at the end that it will have. -/
theorem exists_fin_of_ret {r : ρ} (h : Finishes mon fin m (.ret r) m' d' q q') :
    ∃ m₁ r₁, fin m r m₁ r₁ := by
  generalize hd : Dialogue.ret r = d at h
  induction h with
  | ret h =>
    cases hd
    exact ⟨_, _, h⟩
  | sendLeft => cases hd
  | recvLeft => cases hd
  | actLeft => cases hd
  | sendRight _ _ ih => exact ih hd
  | recvRight _ _ ih => exact ih hd
  | actRight _ _ ih => exact ih hd

theorem fin_of_ret {r r' : ρ} (h : Finishes mon fin m (.ret r) m' (.ret r') q q') :
    fin m r m' r' := by
  cases h with
  | ret h => exact h

/-- Both go on behind processes that finish. -/
theorem bind {ρ' : Type*} {fin' : μ → ρ' → μ → ρ' → Prop} {f f' : ρ → Dialogue π ε ρ'}
    (h : Finishes mon fin m d m' d' q q')
    (hnext : ∀ {m r m' r'}, fin m r m' r' → Finishes mon fin' m (f r) m' (f' r') [] []) :
    Finishes mon fin' m (d.bind f) m' (d'.bind f') q q' := by
  induction h with
  | ret h => exact hnext h
  | sendLeft h _ ih => exact .sendLeft h ih
  | recvLeft h _ ih => exact .recvLeft h ih
  | actLeft h _ ih => exact .actLeft h ih
  | sendRight h _ ih => exact .sendRight h ih
  | recvRight h _ ih => exact .recvRight h ih
  | actRight h _ ih => exact .actRight h ih

/-- A process that can take a step, with what is on its way to it. -/
def CanStep (d : Dialogue π ε ρ) (queue : List π) : Prop :=
  match d with
  | .send _ _ | .act _ _ => True
  | .recv _ => queue ≠ []
  | .ret _ => False

/-- **One of them can go on** as long as not both have returned. -/
theorem progress (h : Finishes mon fin m d m' d' q q') :
    CanStep d q' ∨ CanStep d' q ∨ ∃ r r', d = .ret r ∧ d' = .ret r' := by
  cases h with
  | ret => exact .inr (.inr ⟨_, _, rfl, rfl⟩)
  | sendLeft => exact .inl trivial
  | recvLeft => exact .inl (List.cons_ne_nil _ _)
  | actLeft => exact .inl trivial
  | sendRight => exact .inr (.inl trivial)
  | recvRight => exact .inr (.inl (List.cons_ne_nil _ _))
  | actRight => exact .inr (.inl trivial)

end Finishes

end Dialogue
