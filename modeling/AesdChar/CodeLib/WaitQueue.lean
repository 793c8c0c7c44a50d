import Mathlib.Logic.Function.Basic
import Mathlib.Tactic.Common

/-!
# Wait queues

A task that waits for a condition goes on a queue, looks at the condition and
sleeps when it does not hold.  A task that makes the condition hold wakes the
queue at some later step.  A wake-up that comes between the first two steps is not
lost: it is recorded in the entry of the queue, and such a task does not sleep.

`Covered queue sleeping ready waker` is the invariant of this protocol.  A task
that sleeps and that nobody has woken does not miss the condition: if the
condition holds, somebody is about to wake the queue.  There is one rule for each
step of the protocol.
-/

namespace CodeLib

variable {τ : Type}

/-- The tasks on a queue, each with whether it was woken since it came. -/
abbrev WaitQueue (τ : Type) := τ → Option Bool

namespace WaitQueue

def empty : WaitQueue τ := fun _ => none

/-- Wake every task on the queue. -/
def wakeUp (queue : WaitQueue τ) : WaitQueue τ := fun t => (queue t).map fun _ => true

/-- The task is on the queue, and nobody has woken it. -/
def Unwoken (queue : WaitQueue τ) (t : τ) : Prop := queue t = some false

instance decidableUnwoken (queue : WaitQueue τ) (t : τ) : Decidable (queue.Unwoken t) :=
  inferInstanceAs (Decidable (queue t = some false))

theorem not_unwoken_wakeUp (queue : WaitQueue τ) (t : τ) : ¬ queue.wakeUp.Unwoken t := by
  unfold Unwoken wakeUp
  cases queue t with
  | none => simp
  | some _ => simp

section Operations

variable [DecidableEq τ]

/-- Go on the queue. -/
def prepare (queue : WaitQueue τ) (t : τ) : WaitQueue τ := Function.update queue t (some false)

/-- Leave the queue. -/
def finish (queue : WaitQueue τ) (t : τ) : WaitQueue τ := Function.update queue t none

theorem unwoken_prepare_of_ne (queue : WaitQueue τ) {t u : τ} (h : u ≠ t) :
    (queue.prepare t).Unwoken u ↔ queue.Unwoken u := by
  unfold Unwoken prepare
  rw [Function.update_of_ne h]

theorem not_unwoken_finish (queue : WaitQueue τ) (t : τ) : ¬ (queue.finish t).Unwoken t := by
  unfold Unwoken finish
  rw [Function.update_self]
  simp

theorem unwoken_finish_of_ne (queue : WaitQueue τ) {t u : τ} (h : u ≠ t) :
    (queue.finish t).Unwoken u ↔ queue.Unwoken u := by
  unfold Unwoken finish
  rw [Function.update_of_ne h]

end Operations

/-! ## No wake-up is lost -/

/-- Who sleeps unwoken while the condition holds will be woken. -/
def Covered (queue : WaitQueue τ) (sleeping : τ → Prop) (ready waker : Prop) : Prop :=
  ∀ t, sleeping t → queue.Unwoken t → ready → waker

section Rules

variable {queue : WaitQueue τ} {sleeping sleeping' : τ → Prop} {ready ready' waker waker' : Prop}
  {t : τ}

theorem Covered.empty : Covered (.empty : WaitQueue τ) sleeping ready waker := by
  intro u _ hunwoken
  cases hunwoken

/-- The condition may fail now, or somebody new may be about to wake the queue. -/
theorem Covered.mono (h : Covered queue sleeping ready waker)
    (hsleeping : ∀ u, sleeping' u → sleeping u) (hready : ready' → ready ∨ waker')
    (hwaker : waker → waker') : Covered queue sleeping' ready' waker' := by
  intro u hu hunwoken hr
  rcases hready hr with hr | hw
  · exact hwaker (h u (hsleeping u hu) hunwoken hr)
  · exact hw

/-- A task goes to sleep that has looked at the condition. -/
theorem Covered.sleep (h : Covered queue sleeping ready waker)
    (hsleeping : ∀ u, sleeping' u → u ≠ t → sleeping u) (hlook : ready → waker) :
    Covered queue sleeping' ready waker := by
  intro u hu hunwoken hr
  by_cases hut : u = t
  · exact hlook hr
  · exact h u (hsleeping u hu hut) hunwoken hr

/-- The queue is woken. -/
theorem Covered.wakeUp : Covered queue.wakeUp sleeping ready waker :=
  fun u _ hunwoken => absurd hunwoken (not_unwoken_wakeUp queue u)

variable [DecidableEq τ]

/-- A task goes on the queue, and does not sleep yet. -/
theorem Covered.prepare (h : Covered queue sleeping ready waker)
    (hsleeping : ∀ u, sleeping' u → u ≠ t ∧ sleeping u) :
    Covered (queue.prepare t) sleeping' ready waker := by
  intro u hu hunwoken
  obtain ⟨hut, hu⟩ := hsleeping u hu
  exact h u hu ((unwoken_prepare_of_ne queue hut).mp hunwoken)

/-- A task leaves the queue. -/
theorem Covered.finish (h : Covered queue sleeping ready waker)
    (hsleeping : ∀ u, sleeping' u → u ≠ t → sleeping u) :
    Covered (queue.finish t) sleeping' ready waker := by
  intro u hu hunwoken
  by_cases hut : u = t
  · rw [hut] at hunwoken
    exact absurd hunwoken (not_unwoken_finish queue t)
  · exact h u (hsleeping u hu hut) ((unwoken_finish_of_ne queue hut).mp hunwoken)

end Rules

end WaitQueue

end CodeLib
