import Mathlib.Data.List.Induction
import Mathlib.Tactic.Common

/-!
# Cutting a list after its marked elements

`cut p xs` cuts `xs` into groups.  A group ends at each element that
satisfies `p`; what follows the last such element is the rest, which is
still open.  Nothing is lost (`cut_lossless`), and the groups are what they
should be (`cut_group`, `cut_rest`).
-/

namespace CodeLib

variable {α : Type*} (p : α → Bool)

/-- The closed groups of a list and its open rest. -/
def cut : List α → List (List α) × List α
  | [] => ([], [])
  | x :: xs =>
    if p x then ([x] :: (cut xs).1, (cut xs).2)
    else
      match (cut xs).1 with
      | [] => ([], x :: (cut xs).2)
      | g :: gs => ((x :: g) :: gs, (cut xs).2)

@[simp] theorem cut_nil : cut p [] = ([], []) := rfl

/-- One more element at the end. -/
theorem cut_concat (xs : List α) (x : α) :
    cut p (xs ++ [x]) =
      if p x then ((cut p xs).1 ++ [(cut p xs).2 ++ [x]], [])
      else ((cut p xs).1, (cut p xs).2 ++ [x]) := by
  induction xs with
  | nil => cases hx : p x <;> simp [cut, hx]
  | cons y ys ih =>
    rw [List.cons_append, cut, ih]
    cases hx : p x <;> cases hy : p y <;> rcases hys : (cut p ys).1 with _ | ⟨g, gs⟩ <;>
      simp [cut, hy, hys]

theorem cut_lossless (xs : List α) : (cut p xs).1.flatten ++ (cut p xs).2 = xs := by
  induction xs using List.reverseRecOn with
  | nil => rfl
  | append_singleton xs x ih =>
    rw [cut_concat]
    split
    · rw [List.flatten_append, List.flatten_singleton, List.append_nil, ← List.append_assoc, ih]
    · rw [← List.append_assoc, ih]

theorem cut_rest (xs : List α) : ∀ x ∈ (cut p xs).2, p x = false := by
  induction xs using List.reverseRecOn with
  | nil => simp
  | append_singleton xs x ih =>
    rw [cut_concat]
    split
    · simp
    · rename_i hx
      intro y hy
      rcases List.mem_append.mp hy with hy | hy
      · exact ih y hy
      · rw [List.mem_singleton.mp hy]
        simpa using hx

theorem cut_group (xs : List α) : ∀ g ∈ (cut p xs).1,
    ∃ init last, g = init ++ [last] ∧ p last = true ∧ ∀ x ∈ init, p x = false := by
  induction xs using List.reverseRecOn with
  | nil => simp
  | append_singleton xs x ih =>
    rw [cut_concat]
    split
    · rename_i hx
      intro g hg
      rcases List.mem_append.mp hg with hg | hg
      · exact ih g hg
      · rw [List.mem_singleton.mp hg]
        exact ⟨_, x, rfl, hx, cut_rest p xs⟩
    · exact ih

/-- A piece whose only mark can be its last element either extends the rest
or closes it. -/
theorem cut_append_of_unmarked (xs : List α) {ys : List α}
    (h : ∀ y ∈ ys.dropLast, p y = false) :
    cut p (xs ++ ys) =
      if ys.any p then ((cut p xs).1 ++ [(cut p xs).2 ++ ys], [])
      else ((cut p xs).1, (cut p xs).2 ++ ys) := by
  induction ys using List.reverseRecOn with
  | nil => simp
  | append_singleton ys y ih =>
    rw [List.dropLast_concat] at h
    have hnone : ys.any p = false := by
      rw [List.any_eq_false]
      exact fun z hz => by simp [h z hz]
    rw [hnone] at ih
    have hys := ih fun z hz => h z ((List.dropLast_sublist ys).subset hz)
    rw [← List.append_assoc, cut_concat, hys]
    simp [hnone]

end CodeLib
