import Mathlib.Logic.Function.Basic
import Mathlib.Tactic.Common

/-!
# Locks

A lock names its owner.  `Guards holds lock tasks` says that it names the task that is
in a critical section, so there is one at most.  There is one rule for a task that takes
the lock, one for the owner that gives it back and one for a step that does neither.

Between two critical sections the data is settled, and inside of one the owner may
leave it otherwise.  `ownerPhase` is the state that the data is in.
-/

namespace CodeLib.Mutex

variable {τ σ φ : Type} {holds : σ → Bool} {lock : Option τ} {tasks : τ → σ} {t u : τ} {x : σ}
  {settled : φ} {phase : σ → φ}

/-- The lock names the task that is in a critical section. -/
def Guards (holds : σ → Bool) (lock : Option τ) (tasks : τ → σ) : Prop :=
  ∀ t, lock = some t ↔ holds (tasks t) = true

/-- What the owner of the lock has done to the data. -/
def ownerPhase (settled : φ) (phase : σ → φ) (lock : Option τ) (tasks : τ → σ) : φ :=
  lock.elim settled fun t => phase (tasks t)

/-- Nobody is in a critical section. -/
theorem Guards.free (h : ∀ t, holds (tasks t) = false) : Guards holds none tasks := by
  intro t
  rw [h t]
  exact iff_of_false (by simp) (by simp)

/-- Nobody has the mutex if nobody is where its owner would be. -/
theorem Guards.eq_none (h : Guards holds lock tasks) (hnone : ∀ t, holds (tasks t) = false) :
    lock = none := by
  cases howner : lock with
  | none => rfl
  | some t =>
    have ht := (h t).mp howner
    rw [hnone t] at ht
    cases ht

theorem Guards.owner_unique (h : Guards holds lock tasks) (ht : holds (tasks t) = true)
    (hu : holds (tasks u) = true) : u = t := by
  have hlock := (h t).mpr ht
  rw [(h u).mpr hu] at hlock
  exact Option.some.inj hlock

theorem Guards.ownerPhase_eq (h : Guards holds lock tasks) (ht : holds (tasks t) = true) :
    ownerPhase settled phase lock tasks = phase (tasks t) := by
  rw [ownerPhase, (h t).mpr ht]
  rfl

variable [DecidableEq τ]

/-- A step of a task outside of the critical sections, or inside of one. -/
theorem Guards.stay (h : Guards holds lock tasks) (hx : holds x = holds (tasks t)) :
    Guards holds lock (Function.update tasks t x) := by
  intro u
  rw [h]
  by_cases hut : u = t
  · rw [hut, Function.update_self, hx]
  · rw [Function.update_of_ne hut]

/-- A task takes the lock. -/
theorem Guards.acquire (h : Guards holds lock tasks) (hfree : lock = none) (hx : holds x = true) :
    Guards holds (some t) (Function.update tasks t x) := by
  intro u
  by_cases hut : u = t
  · rw [hut, Function.update_self, hx]
    exact iff_of_true rfl rfl
  · rw [Function.update_of_ne hut, ← h u, hfree]
    exact iff_of_false (fun heq => hut (Option.some.inj heq).symm) (by simp)

/-- The owner gives the lock back. -/
theorem Guards.release (h : Guards holds lock tasks) (ht : holds (tasks t) = true)
    (hx : holds x = false) : Guards holds none (Function.update tasks t x) := by
  apply Guards.free
  intro u
  by_cases hut : u = t
  · rw [hut, Function.update_self, hx]
  · rw [Function.update_of_ne hut]
    cases hu : holds (tasks u) with
    | false => rfl
    | true => exact absurd (h.owner_unique ht hu) hut

/-- A step of the owner, which may give the lock back. -/
theorem Guards.owner (h : Guards holds lock tasks) (ht : holds (tasks t) = true) :
    Guards holds (if holds x then some t else none) (Function.update tasks t x) := by
  split
  · rename_i hx
    rw [← (h t).mpr ht]
    exact h.stay (hx.trans ht.symm)
  · rename_i hx
    exact h.release ht (Bool.of_not_eq_true hx)

/-- A step outside of the critical sections does not change the phase. -/
theorem Guards.ownerPhase_outside (h : Guards holds lock tasks) (ht : holds (tasks t) = false) :
    ownerPhase settled phase lock (Function.update tasks t x) =
      ownerPhase settled phase lock tasks := by
  unfold ownerPhase
  cases howner : lock with
  | none => rfl
  | some u =>
    have hut : u ≠ t := by
      intro hut
      rw [hut] at howner
      rw [(h t).mp howner] at ht
      cases ht
    show phase (Function.update tasks t x u) = phase (tasks u)
    rw [Function.update_of_ne hut]

/-- A step of the owner leads to the phase of the place where it goes, if there is
nothing left to do outside. -/
theorem ownerPhase_owner (hphase : ∀ x, holds x = false → phase x = settled) :
    ownerPhase settled phase (if holds x then some t else none) (Function.update tasks t x) =
      phase x := by
  cases hx : holds x with
  | true =>
    show phase (Function.update tasks t x t) = phase x
    rw [Function.update_self]
  | false => exact (hphase x hx).symm

end CodeLib.Mutex
