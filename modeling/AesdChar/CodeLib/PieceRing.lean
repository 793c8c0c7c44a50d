import AesdChar.CodeLib.Ring
import AesdChar.CodeLib.Splice

/-!
# Rings that are moved in pieces

A row of cells is used modulo `cap`.  `Carries cells cap start xs` says that the
elements `xs` lie in it, the first of them at index `start`.  One cell stays
free, so the two indices of the ring are equal only when it is empty.

A piece is a stretch that does not cross the end of the ring.  `Carries.take` is
the rule for a piece that is read, and `Carries.put` the rule for one that is
written.  `stop_cases` says where the write index is; the arithmetic of the
callers follows from it.
-/

namespace CodeLib.Ring

variable {β : Type}

/-- The cell at an index.  Outside of the row there is nothing. -/
def cellAt (cells : List (Option β)) (i : Nat) : Option β := cells[i]?.join

/-- The index behind `n` elements. -/
def stop (cap start n : Nat) : Nat := (start + n) % cap

/-- The elements `xs` lie in the ring from index `start` on. -/
structure Carries (cells : List (Option β)) (cap start : Nat) (xs : List β) : Prop where
  cap_le : cap ≤ cells.length
  start_lt : start < cap
  length_lt : xs.length < cap
  window_eq : window (cellAt cells) cap start xs.length = xs.map some

/-! ## Indices -/

/-- The write index has passed the end of the ring or not. -/
theorem stop_cases {cap start n : Nat} (hstart : start < cap) (hn : n < cap) :
    start + n < cap ∧ stop cap start n = start + n ∨
      cap ≤ start + n ∧ stop cap start n = start + n - cap := by
  unfold stop
  rcases Nat.lt_or_ge (start + n) cap with hlt | hge
  · exact Or.inl ⟨hlt, Nat.mod_eq_of_lt hlt⟩
  · have hover : start + n - cap < cap := by omega
    rw [Nat.mod_eq_sub_mod hge, Nat.mod_eq_of_lt hover]
    exact Or.inr ⟨hge, rfl⟩

theorem stop_lt {cap start : Nat} (hstart : start < cap) (n : Nat) : stop cap start n < cap :=
  Nat.mod_lt _ (by omega)

/-- Reading moves the first index towards the second. -/
theorem stop_take {cap start n k : Nat} (hk : k ≤ n) :
    stop cap (stop cap start k) (n - k) = stop cap start n := by
  unfold stop
  rw [Nat.mod_add_mod]
  congr 1
  omega

theorem stop_add (cap start m n : Nat) :
    stop cap start (m + n) = stop cap (stop cap start m) n := by
  unfold stop
  rw [Nat.mod_add_mod, Nat.add_assoc]

/-! ## Windows -/

/-- A window is a window and the one behind it. -/
theorem window_add {α : Type} (cell : Nat → α) (cap start m n : Nat) :
    window cell cap start (m + n) =
      window cell cap start m ++ window cell cap (stop cap start m) n := by
  unfold window stop
  rw [List.range_add, List.map_append, List.map_map]
  congr 1
  apply List.map_congr_left
  intro i _
  simp only [Function.comp_apply, Nat.mod_add_mod, Nat.add_assoc]

/-- A window that does not cross the end is a stretch of the row. -/
theorem window_straight {cells : List (Option β)} {cap start n : Nat} (hcap : cap ≤ cells.length)
    (hn : start + n ≤ cap) :
    window (cellAt cells) cap start n = (cells.drop start).take n := by
  apply List.ext_getElem
  · rw [window, List.length_map, List.length_range, List.length_take, List.length_drop]
    omega
  · intro i hi _
    rw [window, List.length_map, List.length_range] at hi
    rw [List.getElem_take, List.getElem_drop]
    simp only [window, List.getElem_map, List.getElem_range]
    rw [Nat.mod_eq_of_lt (by omega), cellAt, List.getElem?_eq_getElem (by omega), Option.join_some]

theorem cellAt_splice_of_lt {cells ys : List (Option β)} {off c : Nat} (hoff : off ≤ cells.length)
    (hc : c < off) : cellAt (splice cells off ys) c = cellAt cells c := by
  unfold cellAt splice
  rw [List.append_assoc, List.getElem?_append_left (by rw [List.length_take]; omega),
    List.getElem?_take_of_lt hc]

theorem cellAt_splice_of_ge {cells ys : List (Option β)} {off c : Nat} (hoff : off ≤ cells.length)
    (hc : off + ys.length ≤ c) : cellAt (splice cells off ys) c = cellAt cells c := by
  have hlen : (cells.take off ++ ys).length = off + ys.length := by
    rw [List.length_append, List.length_take]
    omega
  unfold cellAt splice
  rw [List.getElem?_append_right (by omega), List.getElem?_drop, hlen]
  congr 2
  omega

/-! ## Reading and writing a piece -/

namespace Carries

variable {cells : List (Option β)} {cap start : Nat} {xs : List β}

theorem empty (hcap : cap ≤ cells.length) (hstart : start < cap) :
    Carries cells cap start ([] : List β) where
  cap_le := hcap
  start_lt := hstart
  length_lt := by
    rw [List.length_nil]
    omega
  window_eq := rfl

/-- The first elements are a ring of their own. -/
theorem left {ys : List β} (h : Carries cells cap start (xs ++ ys)) :
    Carries cells cap start xs := by
  have hlen := h.length_lt
  have hwindow := h.window_eq
  rw [List.length_append] at hlen hwindow
  rw [window_add, List.map_append] at hwindow
  have hfirst : (window (cellAt cells) cap start xs.length).length =
      (xs.map (some : β → Option β)).length := by
    rw [window, List.length_map, List.length_map, List.length_range]
  exact ⟨h.cap_le, h.start_lt, by omega, (List.append_inj hwindow hfirst).1⟩

/-- The first `k` elements are read in one piece. -/
theorem take (h : Carries cells cap start xs) {k : Nat} (hk : k ≤ xs.length)
    (hpiece : start + k ≤ cap) :
    (cells.drop start).take k = (xs.take k).map some ∧
      Carries cells cap (stop cap start k) (xs.drop k) := by
  have hlen := h.length_lt
  have hsplit : window (cellAt cells) cap start (k + (xs.length - k)) =
      (xs.take k).map some ++ (xs.drop k).map some := by
    rw [← List.map_append, List.take_append_drop, show k + (xs.length - k) = xs.length by omega]
    exact h.window_eq
  rw [window_add] at hsplit
  have hfirst : (window (cellAt cells) cap start k).length = ((xs.take k).map some).length := by
    rw [window, List.length_map, List.length_map, List.length_range, List.length_take]
    omega
  obtain ⟨htake, hdrop⟩ := List.append_inj hsplit hfirst
  refine ⟨?_, h.cap_le, stop_lt h.start_lt k, ?_, ?_⟩
  · rw [← window_straight h.cap_le hpiece]
    exact htake
  · rw [List.length_drop]
    omega
  · rw [List.length_drop]
    exact hdrop

/-- The elements `ys` are written behind the others in one piece. -/
theorem put (h : Carries cells cap start xs) {ys : List β}
    (hroom : xs.length + ys.length < cap)
    (hpiece : stop cap start xs.length + ys.length ≤ cap) :
    Carries (splice cells (stop cap start xs.length) (ys.map some)) cap start (xs ++ ys) := by
  have hcap := h.cap_le
  have hlen : (ys.map (some : β → Option β)).length = ys.length := List.length_map _
  have hin : stop cap start xs.length + (ys.map (some : β → Option β)).length ≤ cells.length := by
    omega
  constructor
  · rw [length_splice hin]
    exact hcap
  · exact h.start_lt
  · rw [List.length_append]
    exact hroom
  · rw [List.length_append, window_add, List.map_append]
    congr 1
    · rw [← h.window_eq]
      apply window_congr
      intro i hi
      -- A cell of the old window is none of the cells that are written.
      have hout : ∀ j, j < ys.length →
          (start + i) % cap ≠ stop cap start xs.length + j := by
        intro j hj heq
        have hne := @step_ne cap start i (xs.length + j) (by omega) (by omega)
        apply hne
        rw [heq, ← Nat.add_assoc, ← Nat.mod_add_mod]
        exact (Nat.mod_eq_of_lt (by unfold stop at hpiece ⊢; omega)).symm
      rcases Nat.lt_or_ge ((start + i) % cap) (stop cap start xs.length) with hlt | hge
      · exact cellAt_splice_of_lt (by omega) hlt
      · apply cellAt_splice_of_ge (by omega)
        rw [hlen]
        by_contra hlt
        exact hout ((start + i) % cap - stop cap start xs.length) (by omega) (by omega)
    · rw [window_straight (by rw [length_splice hin]; exact hcap) hpiece, ← hlen]
      have hend := @take_splice_end _ cells (ys.map some) (stop cap start xs.length) (by omega)
      rw [List.take_drop, hend]
      exact List.drop_left' (by rw [List.length_take]; omega)

end Carries

end CodeLib.Ring
