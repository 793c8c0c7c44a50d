import Mathlib.Data.Finset.Card
import Mathlib.Data.Fintype.Card
import Mathlib.Logic.Function.Basic

/-!
# Counting tasks

A counter in shared memory says how many tasks have a property: how many have a file
open, or how many are in some stretch of code.  `Counting p tasks n` is the invariant
of such a counter.  `Counting.update` is the rule for a step of one task, and the rules for
a task that comes, goes or stays are cases of it.
-/

namespace CodeLib

variable {τ σ : Type} {p : τ → σ → Bool} {tasks : τ → σ} {n : Int} {t u : τ} {x : σ}

/-- There are `n` tasks with the property. -/
def Counting (p : τ → σ → Bool) (tasks : τ → σ) (n : Int) : Prop :=
  ∃ counted : Finset τ, (∀ t, t ∈ counted ↔ p t (tasks t) = true) ∧ n = counted.card

namespace Counting

theorem zero (h : ∀ t, p t (tasks t) = false) : Counting p tasks 0 := by
  refine ⟨∅, fun t => ?_, rfl⟩
  rw [h t]
  exact iff_of_false (Finset.notMem_empty t) (by simp)

theorem nonneg (h : Counting p tasks n) : 0 ≤ n := by
  obtain ⟨counted, -, rfl⟩ := h
  exact Int.natCast_nonneg _

/-- A task with the property is counted. -/
theorem pos (h : Counting p tasks n) (ht : p t (tasks t) = true) : 0 < n := by
  obtain ⟨counted, hcounted, rfl⟩ := h
  exact Int.natCast_pos.mpr (Finset.card_pos.mpr ⟨t, (hcounted t).mpr ht⟩)

/-- Somebody is there if the counter is not zero. -/
theorem exists_of_ne_zero (h : Counting p tasks n) (hne : n ≠ 0) : ∃ t, p t (tasks t) = true := by
  obtain ⟨counted, hcounted, rfl⟩ := h
  obtain ⟨t, ht⟩ := Finset.card_pos.mp (Nat.pos_of_ne_zero fun hzero => hne (by rw [hzero]; rfl))
  exact ⟨t, (hcounted t).mp ht⟩

theorem eq_zero_iff (h : Counting p tasks n) : n = 0 ↔ ∀ t, p t (tasks t) = false := by
  constructor
  · intro hzero t
    cases ht : p t (tasks t) with
    | false => rfl
    | true => exact absurd hzero (Int.ne_of_gt (h.pos ht))
  · intro hnone
    by_contra hne
    obtain ⟨t, ht⟩ := h.exists_of_ne_zero hne
    rw [hnone t] at ht
    cases ht

theorem le_card [Fintype τ] (h : Counting p tasks n) : n ≤ Fintype.card τ := by
  obtain ⟨counted, -, rfl⟩ := h
  exact Int.ofNat_le.mpr (Finset.card_le_univ counted)

variable [DecidableEq τ]

/-- A step of one task. -/
theorem update (h : Counting p tasks n) (t : τ) (x : σ) :
    Counting p (Function.update tasks t x)
      (n - (if p t (tasks t) then 1 else 0) + if p t x then 1 else 0) := by
  obtain ⟨counted, hcounted, rfl⟩ := h
  have hothers : ∀ u, u ∈ counted.erase t ↔ u ≠ t ∧ p u (tasks u) = true := by
    intro u
    rw [Finset.mem_erase, hcounted]
  have hcard : ((counted.erase t).card : Int) =
      counted.card - if p t (tasks t) then 1 else 0 := by
    cases hold : p t (tasks t) with
    | true =>
      have hsplit := Finset.card_erase_add_one ((hcounted t).mpr hold)
      rw [if_pos rfl, ← hsplit]
      omega
    | false =>
      have ht : t ∉ counted := by
        rw [hcounted, hold]
        simp
      rw [Finset.erase_eq_of_notMem ht, if_neg (by simp)]
      omega
  rw [← hcard]
  cases hnew : p t x with
  | true =>
    refine ⟨insert t (counted.erase t), fun u => ?_, ?_⟩
    · by_cases hut : u = t
      · rw [hut, Function.update_self, hnew]
        exact iff_of_true (Finset.mem_insert_self _ _) rfl
      · rw [Function.update_of_ne hut, Finset.mem_insert, hothers]
        exact (or_iff_right hut).trans (and_iff_right hut)
    · rw [Finset.card_insert_of_notMem (Finset.notMem_erase t counted), if_pos rfl]
      rfl
  | false =>
    refine ⟨counted.erase t, fun u => ?_, ?_⟩
    · by_cases hut : u = t
      · rw [hut, Function.update_self, hnew]
        exact iff_of_false (Finset.notMem_erase t counted) (by simp)
      · rw [Function.update_of_ne hut, hothers]
        exact and_iff_right hut
    · rw [if_neg (by simp), Int.add_zero]

/-- A task that is counted as before. -/
theorem stay (h : Counting p tasks n) (hx : p t x = p t (tasks t)) :
    Counting p (Function.update tasks t x) n := by
  have hstep := h.update t x
  rw [hx, Int.sub_add_cancel] at hstep
  exact hstep

/-- A task comes. -/
theorem enter (h : Counting p tasks n) (hold : p t (tasks t) = false) (hnew : p t x = true) :
    Counting p (Function.update tasks t x) (n + 1) := by
  have hstep := h.update t x
  rw [hold, hnew, if_neg (by simp), if_pos rfl, Int.sub_zero] at hstep
  exact hstep

/-- A task goes. -/
theorem leave (h : Counting p tasks n) (hold : p t (tasks t) = true) (hnew : p t x = false) :
    Counting p (Function.update tasks t x) (n - 1) := by
  have hstep := h.update t x
  rw [hold, hnew, if_pos rfl, if_neg (by simp), Int.add_zero] at hstep
  exact hstep

end Counting

end CodeLib
