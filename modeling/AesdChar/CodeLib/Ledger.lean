import Mathlib.Data.List.Basic
import Mathlib.Logic.Function.Basic
import Mathlib.Tactic.Common

/-!
# Resources that are acquired and released

A `Kind` says which events of a trace acquire and release the resources of one
kind.  `Ledger kind made held trace` says that the trace agrees with the
resources that were made so far and with those that are held now: each resource
that is not held any more was released once, and each other one never.  There is
one rule for each way in which an event can change that.

When nothing is held, every resource that was acquired was released exactly
once.
-/

namespace CodeLib

/-- The events of one kind of resources. -/
structure Kind (E X : Type) where
  acquire : X → E
  release : X → E
  acquire_inj : Function.Injective acquire
  release_inj : Function.Injective release
  acquire_ne_release : ∀ x y, acquire x ≠ release y

section Ledger

variable {E X : Type} [DecidableEq E] {kind : Kind E X} {made made' held held' : X → Prop}
  {trace : List E} {e : E} {x : X}

/-- The trace agrees with what was made and with what is held. -/
structure Ledger (kind : Kind E X) (made held : X → Prop) (trace : List E) : Prop where
  acquired : ∀ x, kind.acquire x ∈ trace ↔ made x
  made_of_held : ∀ x, held x → made x
  kept : ∀ x, held x ∨ ¬ made x → trace.count (kind.release x) = 0
  released : ∀ x, made x → ¬ held x → trace.count (kind.release x) = 1

theorem Ledger.empty (hmade : ∀ x, ¬ made x) (hheld : ∀ x, ¬ held x) :
    Ledger kind made held [] where
  acquired x := by simp [hmade x]
  made_of_held x hx := absurd hx (hheld x)
  kept _ _ := rfl
  released x hx := absurd hx (hmade x)

/-- An event of another kind. -/
theorem Ledger.other (h : Ledger kind made held trace) (hacquire : ∀ x, kind.acquire x ≠ e)
    (hrelease : ∀ x, kind.release x ≠ e) (hmade : ∀ x, made' x ↔ made x)
    (hheld : ∀ x, held' x ↔ held x) : Ledger kind made' held' (trace ++ [e]) := by
  have hcount : ∀ x, (trace ++ [e]).count (kind.release x) = trace.count (kind.release x) := by
    intro x
    rw [List.count_append, List.count_singleton, if_neg (by simpa using (hrelease x).symm)]
    rfl
  constructor
  · intro x
    rw [List.mem_append, List.mem_singleton, hmade, ← h.acquired]
    exact or_iff_left (hacquire x)
  · intro x hx
    rw [hmade]
    exact h.made_of_held x ((hheld x).mp hx)
  · intro x hx
    rw [hcount]
    exact h.kept x (hx.imp (hheld x).mp fun hn hm => hn ((hmade x).mpr hm))
  · intro x hm hn
    rw [hcount]
    exact h.released x ((hmade x).mp hm) fun hx => hn ((hheld x).mpr hx)

/-- A new resource is acquired. -/
theorem Ledger.acquire (h : Ledger kind made held trace) (hx : ¬ made x)
    (hmade : ∀ y, made' y ↔ made y ∨ y = x) (hheld : ∀ y, held' y ↔ held y ∨ y = x) :
    Ledger kind made' held' (trace ++ [kind.acquire x]) := by
  have hcount : ∀ y, (trace ++ [kind.acquire x]).count (kind.release y) =
      trace.count (kind.release y) := by
    intro y
    rw [List.count_append, List.count_singleton,
      if_neg (by simpa using kind.acquire_ne_release x y)]
    rfl
  constructor
  · intro y
    rw [List.mem_append, List.mem_singleton, hmade, ← h.acquired, kind.acquire_inj.eq_iff]
  · intro y hy
    rw [hmade]
    exact ((hheld y).mp hy).imp_left (h.made_of_held y)
  · intro y hy
    rw [hcount]
    apply h.kept
    rcases hy with hy | hy
    · rcases (hheld y).mp hy with hy | rfl
      · exact Or.inl hy
      · exact Or.inr hx
    · exact Or.inr fun hm => hy ((hmade y).mpr (Or.inl hm))
  · intro y hm hn
    rw [hcount]
    rcases (hmade y).mp hm with hm | rfl
    · exact h.released y hm fun hy => hn ((hheld y).mpr (Or.inl hy))
    · exact absurd ((hheld y).mpr (Or.inr rfl)) hn

/-- A resource that is held is released. -/
theorem Ledger.release (h : Ledger kind made held trace) (hx : held x)
    (hmade : ∀ y, made' y ↔ made y) (hheld : ∀ y, held' y ↔ held y ∧ y ≠ x) :
    Ledger kind made' held' (trace ++ [kind.release x]) := by
  have hself : (trace ++ [kind.release x]).count (kind.release x) = 1 := by
    rw [List.count_append, h.kept x (Or.inl hx), List.count_singleton_self]
  have hother : ∀ y, y ≠ x → (trace ++ [kind.release x]).count (kind.release y) =
      trace.count (kind.release y) := by
    intro y hy
    rw [List.count_append, List.count_singleton,
      if_neg (by simpa using fun heq => hy (kind.release_inj heq).symm)]
    rfl
  have hx_made := h.made_of_held x hx
  constructor
  · intro y
    rw [List.mem_append, List.mem_singleton, hmade, ← h.acquired]
    exact or_iff_left (kind.acquire_ne_release y x)
  · intro y hy
    rw [hmade]
    exact h.made_of_held y ((hheld y).mp hy).1
  · intro y hy
    have hne : y ≠ x := by
      rintro rfl
      rcases hy with hy | hy
      · exact ((hheld y).mp hy).2 rfl
      · exact hy ((hmade y).mpr hx_made)
    rw [hother y hne]
    exact h.kept y (hy.imp (fun hy => ((hheld y).mp hy).1) fun hn hm => hn ((hmade y).mpr hm))
  · intro y hm hn
    by_cases hy : y = x
    · rw [hy, hself]
    · rw [hother y hy]
      exact h.released y ((hmade y).mp hm) fun hheld_y => hn ((hheld y).mpr ⟨hheld_y, hy⟩)

/-- What is released was acquired. -/
theorem Ledger.acquired_of_released (h : Ledger kind made held trace)
    (hx : kind.release x ∈ trace) : kind.acquire x ∈ trace := by
  rw [h.acquired]
  by_contra hmade
  have hzero := h.kept x (Or.inr hmade)
  rw [List.count_eq_zero] at hzero
  exact hzero hx

/-- When nothing is held, what was acquired was released once. -/
theorem Ledger.released_once (h : Ledger kind made held trace) (hheld : ∀ x, ¬ held x)
    (hx : kind.acquire x ∈ trace) : trace.count (kind.release x) = 1 :=
  h.released x ((h.acquired x).mp hx) (hheld x)

end Ledger

end CodeLib
