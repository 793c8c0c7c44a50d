import Mathlib.Data.List.DropRight
import Mathlib.Data.List.Rotate
import Mathlib.Data.Nat.ModEq
import Mathlib.Tactic.Common

/-!
# Bounded queues and the rings that hold them

A ring is an array of `cap` cells that is read and written modulo `cap`.
This file holds the facts about such arrays that do not depend on what the
cells contain or on who owns them.

* `BoundedQueue` is the abstract side: a list of at most `cap` elements,
  oldest first.  `push` appends, and the oldest element gives way when the
  queue is full.
* `window` is the list of cells met when walking `n` steps from a start
  index.
* `Represents` relates the registers of a ring with a write index, a read
  index and a full flag to the queue that the ring holds.  The two indices
  are equal both when the ring is empty and when it is full, so the flag is
  part of the relation.
* `Represents.push` is the rule for one insertion.
-/

namespace CodeLib.Ring

variable {α : Type*}

/-! ## Bounded queues -/

/-- Cutting to the last `n` elements before an insertion changes nothing
that survives the insertion. -/
theorem rtake_concat_rtake (n : Nat) (xs : List α) (x : α) :
    (xs.rtake n ++ [x]).rtake n = (xs ++ [x]).rtake n := by
  cases n with
  | zero => rw [List.rtake_zero, List.rtake_zero]
  | succ n =>
    rw [List.rtake_concat_succ, List.rtake_concat_succ, List.rtake, List.rtake, List.rtake,
      List.drop_drop, List.length_drop]
    congr 2
    omega

/-- A list within the bound is its own end. -/
theorem rtake_of_length_le {n : Nat} {xs : List α} (h : xs.length ≤ n) : xs.rtake n = xs := by
  rw [List.rtake, show xs.length - n = 0 by omega, List.drop_zero]

theorem length_rtake (n : Nat) (xs : List α) : (xs.rtake n).length = min xs.length n := by
  rw [List.rtake, List.length_drop]
  omega

/-- The dropped part and the kept part make the list. -/
theorem rdrop_append_rtake (n : Nat) (xs : List α) : xs.rdrop n ++ xs.rtake n = xs :=
  List.take_append_drop _ _

/-- What was dropped stays dropped when more is appended. -/
theorem rdrop_prefix_append (n : Nat) (xs ys : List α) : xs.rdrop n <+: (xs ++ ys).rdrop n := by
  rw [List.rdrop, List.rdrop, List.prefix_take_iff, List.length_take, List.length_append]
  exact ⟨(List.take_prefix _ _).trans (List.prefix_append _ _), by omega⟩

/-- A queue of at most `cap` elements, oldest first. -/
@[ext] structure BoundedQueue (α : Type*) (cap : Nat) where
  items : List α
  length_le : items.length ≤ cap

namespace BoundedQueue

variable {cap : Nat}

/-- The queue after a whole history of insertions. -/
def ofList (cap : Nat) (xs : List α) : BoundedQueue α cap :=
  ⟨xs.rtake cap, by rw [length_rtake]; omega⟩

/-- Insert an element; a full queue gives up its oldest one. -/
def push (q : BoundedQueue α cap) (x : α) : BoundedQueue α cap :=
  ofList cap (q.items ++ [x])

/-- The element that the next `push` gives up. -/
def displaced (q : BoundedQueue α cap) : Option α :=
  if q.items.length = cap then q.items.head? else none

@[simp] theorem items_ofList (xs : List α) : (ofList cap xs).items = xs.rtake cap := rfl

@[simp] theorem items_push (q : BoundedQueue α cap) (x : α) :
    (q.push x).items = (q.items ++ [x]).rtake cap := rfl

/-- Insertions one by one and the cut of the whole history agree. -/
theorem push_ofList (xs : List α) (x : α) : (ofList cap xs).push x = ofList cap (xs ++ [x]) :=
  BoundedQueue.ext (rtake_concat_rtake cap xs x)

theorem items_push_of_lt {q : BoundedQueue α cap} (h : q.items.length < cap) (x : α) :
    (q.push x).items = q.items ++ [x] :=
  rtake_of_length_le (by rw [List.length_append, List.length_singleton]; omega)

theorem items_push_of_eq {q : BoundedQueue α cap} (h : q.items.length = cap) (hcap : 0 < cap)
    (x : α) : (q.push x).items = q.items.drop 1 ++ [x] := by
  rw [items_push, List.rtake, List.length_append, List.length_singleton,
    show q.items.length + 1 - cap = 1 by omega, List.drop_append_of_le_length (by omega)]

/-- What is given up is the element that was inserted `cap` insertions ago. -/
theorem displaced_ofList (xs : List α) :
    (ofList cap xs).displaced = if cap ≤ xs.length then xs[xs.length - cap]? else none := by
  rw [displaced, items_ofList, length_rtake]
  by_cases h : cap ≤ xs.length
  · rw [if_pos (by omega), if_pos h, List.rtake, List.head?_drop]
  · rw [if_neg (by omega), if_neg h]

/-- Apply a function to every element. -/
def map {β : Type*} (f : α → β) (q : BoundedQueue α cap) : BoundedQueue β cap :=
  ⟨q.items.map f, by rw [List.length_map]; exact q.length_le⟩

@[simp] theorem items_map {β : Type*} (f : α → β) (q : BoundedQueue α cap) :
    (q.map f).items = q.items.map f := rfl

theorem map_push {β : Type*} (f : α → β) (q : BoundedQueue α cap) (x : α) :
    (q.push x).map f = (q.map f).push (f x) :=
  BoundedQueue.ext (by simp [List.rtake])

theorem displaced_map {β : Type*} (f : α → β) (q : BoundedQueue α cap) :
    (q.map f).displaced = q.displaced.map f := by
  simp only [displaced, items_map, List.length_map, List.head?_map]
  split <;> rfl

/-- What is given up and what is kept make the queue before the insertion
and the new element. -/
theorem displaced_append_push (q : BoundedQueue α cap) (hcap : 0 < cap) (x : α) :
    q.displaced.toList ++ (q.push x).items = q.items ++ [x] := by
  rw [displaced]
  split
  · rename_i hfull
    rw [items_push_of_eq hfull hcap]
    cases hitems : q.items with
    | nil => rw [hitems, List.length_nil] at hfull; omega
    | cons y ys => simp
  · rename_i hroom
    have := q.length_le
    rw [items_push_of_lt (by omega), Option.toList_none, List.nil_append]

end BoundedQueue

/-! ## Index arithmetic -/

/-- Two steps below the capacity reach different cells. -/
theorem step_ne {cap start i j : Nat} (hij : i < j) (hj : j < cap) :
    (start + i) % cap ≠ (start + j) % cap := by
  intro h
  have h' : i % cap = j % cap := Nat.ModEq.add_left_cancel' start h
  rw [Nat.mod_eq_of_lt (by omega), Nat.mod_eq_of_lt hj] at h'
  omega

/-- Moving the start by one shifts every step by one. -/
theorem step_shift (cap start i : Nat) :
    ((start + 1) % cap + i) % cap = (start + (i + 1)) % cap := by
  rw [Nat.mod_add_mod]
  congr 1
  omega

/-- Every cell is met within one turn. -/
theorem exists_step {cap start c : Nat} (hstart : start < cap) (hc : c < cap) :
    ∃ i, i < cap ∧ (start + i) % cap = c := by
  rcases Nat.lt_or_ge c start with h | h
  · refine ⟨c + cap - start, by omega, ?_⟩
    rw [show start + (c + cap - start) = c + cap by omega, Nat.add_mod_right,
      Nat.mod_eq_of_lt hc]
  · refine ⟨c - start, by omega, ?_⟩
    rw [show start + (c - start) = c by omega, Nat.mod_eq_of_lt hc]

/-! ## Windows -/

/-- The cells met when walking `n` steps from `start`. -/
def window (cell : Nat → α) (cap start n : Nat) : List α :=
  (List.range n).map fun i => cell ((start + i) % cap)

/-- A full turn meets every cell once. -/
theorem perm_turn (cap start : Nat) :
    ((List.range cap).map fun k => (start + k) % cap).Perm (List.range cap) := by
  have hrotate : ((List.range cap).map fun k => (start + k) % cap) =
      (List.range cap).rotate start := by
    refine List.ext_getElem (by simp) fun k _ _ => ?_
    rw [List.getElem_map, List.getElem_range, List.getElem_rotate, List.getElem_range,
      List.length_range, Nat.add_comm]
  rw [hrotate]
  exact List.rotate_perm _ _

@[simp] theorem window_zero (cell : Nat → α) (cap start : Nat) :
    window cell cap start 0 = [] := rfl

/-- The last cell of a window. -/
theorem window_succ (cell : Nat → α) (cap start n : Nat) :
    window cell cap start (n + 1) =
      window cell cap start n ++ [cell ((start + n) % cap)] := by
  simp [window, List.range_succ]

/-- The first cell of a window. -/
theorem window_cons (cell : Nat → α) (cap start n : Nat) :
    window cell cap start (n + 1) =
      cell (start % cap) :: window cell cap ((start + 1) % cap) n := by
  simp [window, List.range_succ_eq_map, Function.comp_def, Nat.add_assoc,
    Nat.add_comm 1]

theorem window_getElem? (cell : Nat → α) (cap start : Nat) {n i : Nat} (hi : i < n) :
    (window cell cap start n)[i]? = some (cell ((start + i) % cap)) := by
  simp [window, hi]

/-- A window reads nothing but its own cells. -/
theorem window_congr {cell cell' : Nat → α} {cap start n : Nat}
    (h : ∀ i, i < n → cell ((start + i) % cap) = cell' ((start + i) % cap)) :
    window cell cap start n = window cell' cap start n := by
  refine List.map_congr_left fun i hi => ?_
  exact h i (List.mem_range.mp hi)

/-- A write to the first cell behind a window leaves the window alone. -/
theorem window_write {cell cell' : Nat → α} {cap start n : Nat} (hn : n < cap)
    (h : ∀ c, c ≠ (start + n) % cap → cell' c = cell c) :
    window cell' cap start n = window cell cap start n :=
  window_congr fun _ hi => h _ (step_ne hi hn)

/-! ## Rings with a full flag -/

/-- The registers `inOffs`, `outOffs` and `full` of a ring of `cap` cells
hold the queue `q`. -/
structure Represents (cap : Nat) (cell : Nat → α) (inOffs outOffs : Nat) (full : Bool)
    (q : BoundedQueue α cap) : Prop where
  out_lt : outOffs < cap
  in_eq : inOffs = (outOffs + q.items.length) % cap
  full_iff : full = true ↔ q.items.length = cap
  window_eq : window cell cap outOffs q.items.length = q.items

namespace Represents

variable {cap : Nat} {cell cell' : Nat → α} {inOffs outOffs : Nat} {full : Bool}
  {q : BoundedQueue α cap}

/-- The empty ring. -/
theorem empty (hcap : 0 < cap) (cell : Nat → α) :
    Represents cap cell 0 0 false (BoundedQueue.ofList cap []) where
  out_lt := hcap
  in_eq := by simp
  full_iff := by simp; omega
  window_eq := by simp

theorem in_lt (h : Represents cap cell inOffs outOffs full q) : inOffs < cap := by
  have hout := h.out_lt
  rw [h.in_eq]
  exact Nat.mod_lt _ (by omega)

/-- The indices meet exactly when the ring is empty or full. -/
theorem in_eq_out_iff (h : Represents cap cell inOffs outOffs full q) :
    inOffs = outOffs ↔ q.items.length = 0 ∨ q.items.length = cap := by
  have hout := h.out_lt
  have hlen := q.length_le
  rw [h.in_eq]
  rcases Nat.lt_or_ge (outOffs + q.items.length) cap with hlt | hge
  · rw [Nat.mod_eq_of_lt hlt]
    omega
  · rw [Nat.mod_eq_sub_mod hge, Nat.mod_eq_of_lt (by omega)]
    omega

/-- The number of elements, read off the registers. -/
theorem length_eq (h : Represents cap cell inOffs outOffs full q) :
    q.items.length = if full then cap else (inOffs + cap - outOffs) % cap := by
  have hout := h.out_lt
  have hlen := q.length_le
  split
  · rename_i hfull
    exact h.full_iff.mp hfull
  · rename_i hfull
    have hne : q.items.length ≠ cap := fun he => hfull (h.full_iff.mpr he)
    rw [h.in_eq]
    rcases Nat.lt_or_ge (outOffs + q.items.length) cap with hlt | hge
    · rw [Nat.mod_eq_of_lt hlt,
        show outOffs + q.items.length + cap - outOffs = q.items.length + cap by omega,
        Nat.add_mod_right, Nat.mod_eq_of_lt (by omega)]
    · have hlt : outOffs + q.items.length - cap < cap := by omega
      rw [Nat.mod_eq_sub_mod hge, Nat.mod_eq_of_lt hlt,
        show outOffs + q.items.length - cap + cap - outOffs = q.items.length by omega,
        Nat.mod_eq_of_lt (by omega)]

theorem getElem? (h : Represents cap cell inOffs outOffs full q) {i : Nat}
    (hi : i < q.items.length) : q.items[i]? = some (cell ((outOffs + i) % cap)) := by
  conv_lhs => rw [← h.window_eq]
  exact window_getElem? _ _ _ hi

/-- The element that gives way stands at the read index of a full ring. -/
theorem displaced_eq (h : Represents cap cell inOffs outOffs full q) :
    q.displaced = if full then some (cell outOffs) else none := by
  have hout := h.out_lt
  cases hfull : full with
  | true =>
    have hlen := h.full_iff.mp hfull
    rw [BoundedQueue.displaced, if_pos hlen, List.head?_eq_getElem?, h.getElem? (by omega),
      Nat.add_zero, Nat.mod_eq_of_lt hout, if_pos rfl]
  | false =>
    have hne : q.items.length ≠ cap := fun he => absurd (h.full_iff.mpr he) (by simp [hfull])
    rw [BoundedQueue.displaced, if_neg hne, if_neg (by simp)]

private theorem push_of_room (h : Represents cap cell inOffs outOffs full q) {x : α}
    (hroom : q.items.length < cap) (hnew : cell' inOffs = x)
    (hold : ∀ c, c ≠ inOffs → cell' c = cell c) :
    Represents cap cell' ((inOffs + 1) % cap) outOffs
      (if (inOffs + 1) % cap = outOffs then true else full) (q.push x) := by
  have hout := h.out_lt
  have hitems := BoundedQueue.items_push_of_lt hroom x
  have hlen : (q.push x).items.length = q.items.length + 1 := by
    rw [hitems, List.length_append, List.length_singleton]
  have hin : (inOffs + 1) % cap = (outOffs + (q.items.length + 1)) % cap := by
    rw [h.in_eq, Nat.mod_add_mod, Nat.add_assoc]
  have hwrap : (inOffs + 1) % cap = outOffs ↔ q.items.length + 1 = cap := by
    rw [hin]
    rcases Nat.lt_or_ge (outOffs + (q.items.length + 1)) cap with hlt | hge
    · rw [Nat.mod_eq_of_lt hlt]
      omega
    · rw [Nat.mod_eq_sub_mod hge, Nat.mod_eq_of_lt (by omega)]
      omega
  have hnot : full ≠ true := fun hf => absurd (h.full_iff.mp hf) (by omega)
  refine ⟨hout, by rw [hlen, hin], ?_, ?_⟩
  · rw [hlen, ← hwrap]
    split
    · rename_i heq
      exact ⟨fun _ => heq, fun _ => rfl⟩
    · rename_i hne
      exact ⟨fun hf => absurd hf hnot, fun heq => absurd heq hne⟩
  · rw [hlen, window_succ, ← h.in_eq, hnew,
      window_write hroom (by rw [← h.in_eq]; exact hold), h.window_eq, hitems]

private theorem push_of_full (h : Represents cap cell inOffs outOffs full q) {x : α}
    (hfull : full = true) (hnew : cell' inOffs = x)
    (hold : ∀ c, c ≠ inOffs → cell' c = cell c) :
    Represents cap cell' ((inOffs + 1) % cap) ((outOffs + 1) % cap) true (q.push x) := by
  have hout := h.out_lt
  have hlen := h.full_iff.mp hfull
  have hio : inOffs = outOffs := h.in_eq_out_iff.mpr (Or.inr hlen)
  have hitems := BoundedQueue.items_push_of_eq hlen (by omega) x
  obtain ⟨n, rfl⟩ : ∃ n, cap = n + 1 := ⟨cap - 1, by omega⟩
  have hpush : (q.push x).items.length = n + 1 := by
    rw [hitems, List.length_append, List.length_drop, List.length_singleton]
    omega
  -- The cell behind the `n` elements that stay is the one just written.
  have hlast : ((outOffs + 1) % (n + 1) + n) % (n + 1) = inOffs := by
    rw [step_shift, Nat.add_mod_right, Nat.mod_eq_of_lt hout, hio]
  have hkept : q.items.drop 1 = window cell (n + 1) ((outOffs + 1) % (n + 1)) n := by
    have hwin := h.window_eq
    rw [hlen, window_cons] at hwin
    rw [← hwin, List.drop_one, List.tail_cons]
  refine ⟨Nat.mod_lt _ (by omega), ?_, ⟨fun _ => hpush, fun _ => rfl⟩, ?_⟩
  · rw [hpush, Nat.add_mod_right, Nat.mod_mod, hio]
  · rw [hpush, hitems, hkept, window_succ, hlast, hnew,
      window_write (by omega) (by rw [hlast]; exact hold)]

/-- One insertion.  The write goes to the cell of `inOffs`, the read index
moves only on a full ring, and the flag is raised when the indices meet. -/
theorem push (h : Represents cap cell inOffs outOffs full q) {x : α}
    (hnew : cell' inOffs = x) (hold : ∀ c, c ≠ inOffs → cell' c = cell c) :
    Represents cap cell' ((inOffs + 1) % cap)
      (if full then (outOffs + 1) % cap else outOffs)
      (if (inOffs + 1) % cap = (if full then (outOffs + 1) % cap else outOffs)
        then true else full)
      (q.push x) := by
  have hout := h.out_lt
  have hle := q.length_le
  cases hfull : full with
  | true =>
    have hio : inOffs = outOffs := h.in_eq_out_iff.mpr (Or.inr (h.full_iff.mp hfull))
    simpa [hio] using push_of_full h hfull hnew hold
  | false =>
    have hne : q.items.length ≠ cap := fun he => absurd (h.full_iff.mpr he) (by simp [hfull])
    simpa [hfull] using push_of_room h (by omega) hnew hold

end Represents

end CodeLib.Ring
