import Mathlib.Data.List.Basic
import Mathlib.Tactic.Common

/-!
# Overwriting a stretch of a list

`splice xs off ys` is the list after `ys` has been copied over `xs` from
index `off` on, the effect of a `memcpy` on an array.  The lemmas say what
the copy leaves alone and how two adjacent copies join to one.
-/

namespace CodeLib

variable {α β : Type*}

/-- Copy `ys` over `xs`, from index `off` on. -/
def splice (xs : List α) (off : Nat) (ys : List α) : List α :=
  xs.take off ++ ys ++ xs.drop (off + ys.length)

@[simp] theorem splice_nil (xs : List α) (off : Nat) : splice xs off [] = xs := by
  simp [splice]

theorem splice_zero (xs ys : List α) : splice xs 0 ys = ys ++ xs.drop ys.length := by
  simp [splice]

theorem splice_singleton {xs : List α} {i : Nat} (h : i < xs.length) (y : α) :
    splice xs i [y] = xs.set i y := by
  rw [splice, List.length_singleton, List.set_eq_take_append_cons_drop, if_pos h, List.append_assoc]
  rfl

/-- A copy that stays inside the list keeps its length. -/
theorem length_splice {xs ys : List α} {off : Nat} (h : off + ys.length ≤ xs.length) :
    (splice xs off ys).length = xs.length := by
  simp only [splice, List.length_append, List.length_take, List.length_drop]
  omega

/-- What is at each index after a copy. -/
theorem getElem?_splice {xs ys : List α} {off : Nat} (h : off + ys.length ≤ xs.length) (i : Nat) :
    (splice xs off ys)[i]? = if off ≤ i ∧ i < off + ys.length then ys[i - off]? else xs[i]? := by
  have hfront : (xs.take off).length = off := by
    rw [List.length_take]
    omega
  rw [splice, List.append_assoc]
  rcases Nat.lt_or_ge i off with hlt | hge
  · rw [List.getElem?_append_left (by omega), List.getElem?_take_of_lt hlt, if_neg (by omega)]
  · rw [List.getElem?_append_right (by omega), hfront]
    rcases Nat.lt_or_ge (i - off) ys.length with hlt | hge'
    · rw [List.getElem?_append_left hlt, if_pos (by omega)]
    · rw [List.getElem?_append_right hge', List.getElem?_drop, if_neg (by omega)]
      congr 1
      omega

/-- The part up to the end of the copy. -/
theorem take_splice_end {xs ys : List α} {off : Nat} (h : off ≤ xs.length) :
    (splice xs off ys).take (off + ys.length) = xs.take off ++ ys := by
  have hlen : (xs.take off ++ ys).length = off + ys.length := by simp [h]
  rw [splice, ← hlen, List.take_left]

theorem drop_splice_end {xs ys : List α} {off : Nat} (h : off ≤ xs.length) :
    (splice xs off ys).drop (off + ys.length) = xs.drop (off + ys.length) := by
  have hlen : (xs.take off ++ ys).length = off + ys.length := by simp [h]
  rw [splice, ← hlen, List.drop_left]

/-- Two adjacent copies are one. -/
theorem splice_splice {xs : List α} (ys zs : List α) {off : Nat} (h : off ≤ xs.length) :
    splice (splice xs off ys) (off + ys.length) zs = splice xs off (ys ++ zs) := by
  conv_lhs => rw [splice]
  rw [take_splice_end h, ← List.drop_drop, drop_splice_end h, List.drop_drop, splice,
    List.length_append, List.append_assoc (xs.take off), Nat.add_assoc]

end CodeLib
