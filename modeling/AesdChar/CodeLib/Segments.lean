import Mathlib.Algebra.BigOperators.Group.List.Basic
import Mathlib.Algebra.GroupWithZero.Nat
import Mathlib.Tactic.Common

/-!
# Positions in a concatenation

A position in the concatenation of some segments is also a segment number
and an offset in that segment.  `locate` finds the pair from the segment
lengths, and `position` is its inverse.  Empty segments hold no position and
are never found.

`pieces` cuts a window of the concatenation at the segment borders.
-/

namespace CodeLib

variable {α : Type*}

/-- The segment of position `off` and the offset in it. -/
def locate : (sizes : List Nat) → (off : Nat) → Option (Nat × Nat)
  | [], _ => none
  | s :: ss, off =>
    if off < s then some (0, off) else (locate ss (off - s)).map fun p => (p.1 + 1, p.2)

/-- The pair that is found names the position. -/
theorem locate_eq_some_iff {sizes : List Nat} {off i o : Nat} :
    locate sizes off = some (i, o) ↔
      ∃ s, sizes[i]? = some s ∧ o < s ∧ off = (sizes.take i).sum + o := by
  induction sizes generalizing off i with
  | nil => simp [locate]
  | cons s ss ih =>
    rw [locate]
    by_cases h : off < s
    · rw [if_pos h]
      constructor
      · intro he
        cases he
        exact ⟨s, rfl, h, by simp⟩
      · rintro ⟨t, ht, hot, hoff⟩
        cases i with
        | zero => simp at hoff; simp [hoff]
        | succ i =>
          rw [List.take_succ_cons, List.sum_cons] at hoff
          omega
    · rw [if_neg h, Option.map_eq_some_iff]
      constructor
      · rintro ⟨⟨j, o'⟩, hj, he⟩
        cases he
        obtain ⟨t, ht, hot, hoff⟩ := ih.mp hj
        refine ⟨t, ht, hot, ?_⟩
        simp only [List.take_succ_cons, List.sum_cons]
        omega
      · rintro ⟨t, ht, hot, hoff⟩
        cases i with
        | zero =>
          obtain rfl : s = t := by simpa using ht
          rw [List.take_zero, List.sum_nil] at hoff
          omega
        | succ i =>
          refine ⟨(i, o), ih.mpr ⟨t, ht, hot, ?_⟩, rfl⟩
          rw [List.take_succ_cons, List.sum_cons] at hoff
          omega

/-- Nothing is found exactly from the total size on. -/
theorem locate_eq_none_iff {sizes : List Nat} {off : Nat} :
    locate sizes off = none ↔ sizes.sum ≤ off := by
  induction sizes generalizing off with
  | nil => simp [locate]
  | cons s ss ih =>
    rw [locate, List.sum_cons]
    by_cases h : off < s
    · rw [if_pos h]
      constructor
      · intro he
        cases he
      · intro hle
        omega
    · rw [if_neg h, Option.map_eq_none_iff, ih]
      omega

/-- The concatenation from a position on: the rest of its segment, then the
later segments. -/
theorem drop_flatten_of_locate {segs : List (List α)} {off i o : Nat}
    (h : locate (segs.map List.length) off = some (i, o)) :
    ∃ seg, segs[i]? = some seg ∧ o < seg.length ∧
      off + (seg.length - o) ≤ segs.flatten.length ∧
      segs.flatten.drop off = seg.drop o ++ segs.flatten.drop (off + (seg.length - o)) := by
  induction segs generalizing off i with
  | nil => simp [locate] at h
  | cons seg segs ih =>
    rw [List.map_cons, locate] at h
    by_cases hlt : off < seg.length
    · rw [if_pos hlt] at h
      cases h
      refine ⟨seg, rfl, hlt, ?_, ?_⟩
      · rw [List.flatten_cons, List.length_append]
        omega
      · rw [List.flatten_cons, List.drop_append_of_le_length (by omega),
          Nat.add_sub_cancel' (Nat.le_of_lt hlt), List.drop_left]
    · rw [if_neg hlt, Option.map_eq_some_iff] at h
      obtain ⟨⟨j, o'⟩, hj, he⟩ := h
      cases he
      obtain ⟨t, ht, hot, hle, hdrop⟩ := ih hj
      refine ⟨t, ht, hot, ?_, ?_⟩
      · rw [List.flatten_cons, List.length_append]
        omega
      · have hskip : ∀ n, seg.length ≤ n →
            (seg :: segs).flatten.drop n = segs.flatten.drop (n - seg.length) := by
          intro n hn
          rw [List.flatten_cons, List.drop_append, List.drop_eq_nil_of_le hn, List.nil_append]
        rw [hskip off (by omega), hskip (off + _) (by omega), hdrop]
        congr 2
        omega

/-! ## The way back -/

/-- The position of an offset in a segment. -/
def position (sizes : List Nat) (i o : Nat) : Option Nat :=
  match sizes[i]? with
  | none => none
  | some s => if o < s then some ((sizes.take i).sum + o) else none

theorem position_eq_some_iff {sizes : List Nat} {i o off : Nat} :
    position sizes i o = some off ↔
      ∃ s, sizes[i]? = some s ∧ o < s ∧ off = (sizes.take i).sum + o := by
  unfold position
  cases hs : sizes[i]? with
  | none => simp
  | some s =>
    by_cases ho : o < s
    · simp [ho, eq_comm]
    · simp [ho]

/-- The two directions are inverse to each other. -/
theorem locate_eq_some_iff_position {sizes : List Nat} {off i o : Nat} :
    locate sizes off = some (i, o) ↔ position sizes i o = some off := by
  rw [locate_eq_some_iff, position_eq_some_iff]

/-- Every pair is a position below the total size. -/
theorem position_lt_sum {sizes : List Nat} {i o off : Nat} (h : position sizes i o = some off) :
    off < sizes.sum := by
  by_contra hge
  have hnone := locate_eq_none_iff.mpr (Nat.le_of_not_lt hge)
  rw [locate_eq_some_iff_position.mpr h] at hnone
  cases hnone

/-! ## Windows -/

/-- The window of `count` elements from `off` on, cut at the segment
borders. -/
def pieces : (segs : List (List α)) → (off count : Nat) → List (List α)
  | [], _, _ => []
  | seg :: segs, off, count =>
    if count = 0 then []
    else if off < seg.length then
      (seg.drop off).take count :: pieces segs 0 (count - (seg.length - off))
    else pieces segs (off - seg.length) count

@[simp] theorem pieces_zero (segs : List (List α)) (off : Nat) : pieces segs off 0 = [] := by
  cases segs <;> simp [pieces]

/-- Behind the end there is nothing to cut. -/
theorem pieces_eq_nil_of_locate {segs : List (List α)} {off : Nat} (count : Nat)
    (h : locate (segs.map List.length) off = none) : pieces segs off count = [] := by
  induction segs generalizing off with
  | nil => rfl
  | cons seg segs ih =>
    rw [List.map_cons, locate] at h
    by_cases hlt : off < seg.length
    · rw [if_pos hlt] at h
      cases h
    · rw [if_neg hlt, Option.map_eq_none_iff] at h
      rw [pieces, if_neg hlt, ih h]
      exact ite_self _

/-- The window starts with a piece of the segment that is found, and goes on
behind it. -/
theorem pieces_of_locate {segs : List (List α)} {off i o count : Nat}
    (h : locate (segs.map List.length) off = some (i, o)) (hcount : 0 < count) :
    ∃ seg, segs[i]? = some seg ∧ o < seg.length ∧
      pieces segs off count =
        (seg.drop o).take count ::
          pieces segs (off + min count (seg.length - o)) (count - min count (seg.length - o)) := by
  induction segs generalizing off i with
  | nil => cases h
  | cons seg segs ih =>
    rw [List.map_cons, locate] at h
    by_cases hlt : off < seg.length
    · rw [if_pos hlt] at h
      cases h
      refine ⟨seg, rfl, hlt, ?_⟩
      rw [pieces, if_neg (Nat.ne_of_gt hcount), if_pos hlt]
      congr 1
      rcases Nat.le_total count (seg.length - o) with hle | hge
      · rw [Nat.min_eq_left hle, Nat.sub_self, Nat.sub_eq_zero_of_le hle, pieces_zero, pieces_zero]
      · -- The rest of the window starts with the next segment.
        rw [Nat.min_eq_right hge, Nat.add_sub_cancel' (Nat.le_of_lt hlt)]
        by_cases hrest : count - (seg.length - o) = 0
        · rw [hrest, pieces_zero, pieces_zero]
        · rw [pieces, if_neg hrest, if_neg (Nat.lt_irrefl _), Nat.sub_self]
    · rw [if_neg hlt, Option.map_eq_some_iff] at h
      obtain ⟨⟨j, o'⟩, hj, he⟩ := h
      cases he
      obtain ⟨t, ht, hot, hpieces⟩ := ih hj
      refine ⟨t, ht, hot, ?_⟩
      rw [pieces, if_neg (Nat.ne_of_gt hcount), if_neg hlt, hpieces]
      congr 1
      generalize hn : min count (t.length - o') = n
      by_cases hrest : count - n = 0
      · rw [hrest, pieces_zero, pieces_zero]
      · rw [pieces, if_neg hrest, if_neg (by omega)]
        congr 1
        omega

/-- The pieces are the window. -/
theorem pieces_flatten (segs : List (List α)) (off count : Nat) :
    (pieces segs off count).flatten = (segs.flatten.drop off).take count := by
  induction segs generalizing off count with
  | nil => simp [pieces]
  | cons seg segs ih =>
    rw [pieces]
    by_cases hcount : count = 0
    · simp [hcount]
    · rw [if_neg hcount, List.flatten_cons, List.drop_append]
      by_cases hlt : off < seg.length
      · rw [if_pos hlt, List.flatten_cons, ih, List.drop_zero, List.take_append, List.length_drop,
          Nat.sub_eq_zero_of_le (Nat.le_of_lt hlt), List.drop_zero]
      · rw [if_neg hlt, ih, List.drop_eq_nil_of_le (Nat.le_of_not_lt hlt), List.nil_append]

/-- No piece is empty. -/
theorem pieces_ne_nil (segs : List (List α)) (off count : Nat) :
    ∀ p ∈ pieces segs off count, p ≠ [] := by
  induction segs generalizing off count with
  | nil => intro p hp; cases hp
  | cons seg segs ih =>
    intro p hp
    rw [pieces] at hp
    by_cases hcount : count = 0
    · rw [if_pos hcount] at hp
      cases hp
    · rw [if_neg hcount] at hp
      by_cases hlt : off < seg.length
      · rw [if_pos hlt] at hp
        rcases List.mem_cons.mp hp with rfl | hp
        · apply List.length_pos_iff.mp
          rw [List.length_take, List.length_drop]
          omega
        · exact ih 0 _ p hp
      · rw [if_neg hlt] at hp
        exact ih _ _ p hp

end CodeLib
