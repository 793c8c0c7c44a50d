import AesdChar.CodeLib.Splice
import Mathlib.Data.List.Nodup
import Mathlib.Data.List.Perm.Basic

/-!
# A heap of blocks, and who owns them

The heap keeps every block that was ever allocated, so an address names one
allocation for good.  A block is live until it is freed.  Freeing a dead
block, touching a dead block, leaving the bounds of a block and reading a
cell that nobody has written are faults: a function that returns without a
fault has done none of these.

An allocation of size zero yields a marker that is not the null pointer and
that owns nothing.  `free` ignores it, as it ignores the null pointer.

`Owns h cells` says that `cells` is exactly the live part of `h`.  The rules
below read like the rules of a separation logic over one list of cells:
`Owns.alloc` adds a cell, `Owns.free` removes it, `Owns.store` changes it and
`Owns.load` reads it.
-/

namespace CodeLib

/-- The ways in which a function on the heap can go wrong. -/
inductive Fault
  | badFree
  | badAccess
  | uninitialised
  | lock
  | diverges
deriving DecidableEq, Repr

/-- A computation that succeeds hands its value on. -/
@[simp] theorem ok_bind {ε α γ : Type} (a : α) (f : α → Except ε γ) :
    (Except.ok a >>= f) = f a := rfl

@[simp] theorem pure_eq_ok {ε α : Type} (a : α) : (pure a : Except ε α) = .ok a := rfl

/-- A computation that succeeded got a value from each of its steps. -/
theorem bind_eq_ok {ε α γ : Type} {x : Except ε α} {f : α → Except ε γ} {b : γ}
    (h : (x >>= f) = .ok b) : ∃ a, x = .ok a ∧ f a = .ok b := by
  cases x with
  | error _ => cases h
  | ok a => exact ⟨a, rfl, h⟩

/-- What can be seen of a run that succeeds. -/
theorem exists_of_view {ε α β : Type} {r : Except ε α} {view : α → β} {b : β}
    (h : r.toOption.map view = some b) : ∃ a, r = .ok a ∧ view a = b := by
  cases r with
  | error _ => cases h
  | ok a => exact ⟨a, rfl, Option.some.inj h⟩

/-- A pointer to the start of a block. -/
inductive Ptr
  | null
  | zeroSize
  | block (addr : Nat)
deriving DecidableEq, Repr

/-- The address behind a pointer, if there is one. -/
def Ptr.addr? : Ptr → Option Nat
  | .block a => some a
  | _ => none

/-- One allocation.  A cell that was never written is `none`. -/
structure Block (β : Type) where
  bytes : List (Option β)
  live : Bool
deriving DecidableEq, Repr

/-- All allocations, in the order they were made. -/
structure Heap (β : Type) where
  blocks : List (Block β)
deriving DecidableEq, Repr

namespace Heap

variable {β : Type}

/-! ## Operations -/

/-- Allocate `n` cells.  The request is refused when `ok` is false or when
`n` is above `max`. -/
def alloc (h : Heap β) (max : Nat) (ok : Bool) (n : Nat) : Ptr × Heap β :=
  if n = 0 then (.zeroSize, h)
  else if ok = true ∧ n ≤ max then
    (.block h.blocks.length, ⟨h.blocks ++ [⟨List.replicate n none, true⟩]⟩)
  else (.null, h)

/-- Free the block of a pointer. -/
def free (h : Heap β) : Ptr → Except Fault (Heap β)
  | .null => .ok h
  | .zeroSize => .ok h
  | .block a =>
    match h.blocks[a]? with
    | some b =>
      if b.live then .ok ⟨h.blocks.set a { b with live := false }⟩ else .error .badFree
    | none => .error .badFree

/-- The values of a row of cells, if all of them were written. -/
def values : List (Option β) → Except Fault (List β)
  | [] => .ok []
  | none :: _ => .error .uninitialised
  | some x :: cells => (values cells).map (x :: ·)

/-- Read `n` cells from offset `off` on. -/
def load (h : Heap β) (p : Ptr) (off n : Nat) : Except Fault (List β) :=
  if n = 0 then .ok []
  else
    match p with
    | .block a =>
      match h.blocks[a]? with
      | some b =>
        if b.live = true ∧ off + n ≤ b.bytes.length then values ((b.bytes.drop off).take n)
        else .error .badAccess
      | none => .error .badAccess
    | _ => .error .badAccess

/-- Write `xs` from offset `off` on. -/
def store (h : Heap β) (p : Ptr) (off : Nat) (xs : List β) : Except Fault (Heap β) :=
  if xs = [] then .ok h
  else
    match p with
    | .block a =>
      match h.blocks[a]? with
      | some b =>
        if b.live = true ∧ off + xs.length ≤ b.bytes.length then
          .ok ⟨h.blocks.set a { b with bytes := splice b.bytes off (xs.map some) }⟩
        else .error .badAccess
      | none => .error .badAccess
    | _ => .error .badAccess

/-- Read `n` cells from offset `off` on, written or not. -/
def loadRaw (h : Heap β) (p : Ptr) (off n : Nat) : Except Fault (List (Option β)) :=
  if n = 0 then .ok []
  else
    match p with
    | .block a =>
      match h.blocks[a]? with
      | some b =>
        if b.live = true ∧ off + n ≤ b.bytes.length then .ok ((b.bytes.drop off).take n)
        else .error .badAccess
      | none => .error .badAccess
    | _ => .error .badAccess

/-- Read one cell. -/
def loadCell (h : Heap β) (p : Ptr) (i : Nat) : Except Fault β :=
  match p with
  | .block a =>
    match h.blocks[a]? with
    | some b =>
      if b.live then
        match b.bytes[i]? with
        | some (some x) => .ok x
        | some none => .error .uninitialised
        | none => .error .badAccess
      else .error .badAccess
    | none => .error .badAccess
  | _ => .error .badAccess

/-- Write one cell. -/
def storeCell (h : Heap β) (p : Ptr) (i : Nat) (x : β) : Except Fault (Heap β) := h.store p i [x]

/-- Copy `n` cells from one block to another. -/
def copy (h : Heap β) (dst : Ptr) (dstOff : Nat) (src : Ptr) (srcOff n : Nat) :
    Except Fault (Heap β) := do
  let xs ← h.load src srcOff n
  h.store dst dstOff xs

/-- The addresses of the live blocks. -/
def liveAddrs (h : Heap β) : List Nat :=
  (List.range h.blocks.length).filter fun a =>
    match h.blocks[a]? with
    | some b => b.live
    | none => false

/-- The size that the live block of a pointer was allocated with. -/
def blockSize? (h : Heap β) : Ptr → Option Nat
  | .block a =>
    match h.blocks[a]? with
    | some b => if b.live then some b.bytes.length else none
    | none => none
  | _ => none

/-- A refused allocation leaves the heap alone. -/
theorem alloc_null {h : Heap β} {max n : Nat} {ok : Bool}
    (hnull : (h.alloc max ok n).1 = .null) : (h.alloc max ok n).2 = h := by
  unfold alloc at hnull ⊢
  split_ifs at hnull ⊢
  rfl

theorem alloc_ne_null_iff {h : Heap β} {max n : Nat} {ok : Bool} :
    (h.alloc max ok n).1 ≠ .null ↔ n = 0 ∨ ok = true ∧ n ≤ max := by
  unfold alloc
  split_ifs with hzero hgrant
  · simp [hzero]
  · simp [hgrant]
  · simp [hzero, hgrant]

theorem mem_liveAddrs {h : Heap β} {a : Nat} :
    a ∈ h.liveAddrs ↔ ∃ b, h.blocks[a]? = some b ∧ b.live = true := by
  rw [liveAddrs, List.mem_filter, List.mem_range]
  constructor
  · rintro ⟨hlt, hlive⟩
    rw [List.getElem?_eq_getElem hlt] at hlive
    exact ⟨_, List.getElem?_eq_getElem hlt, hlive⟩
  · rintro ⟨b, hb, hlive⟩
    refine ⟨(List.getElem?_eq_some_iff.mp hb).1, ?_⟩
    rw [hb]
    exact hlive

theorem nodup_liveAddrs (h : Heap β) : h.liveAddrs.Nodup :=
  List.Nodup.filter _ List.nodup_range

@[simp] theorem values_map_some (xs : List β) : values (xs.map some) = .ok xs := by
  induction xs with
  | nil => rfl
  | cons x xs ih => simp [values, ih, Except.map]

/-! ## Ownership -/

/-- What a pointer to an allocation of `cells` looks like.  The null pointer
and the marker own nothing. -/
def Fits (p : Ptr) (cells : List (Option β)) : Prop :=
  (∃ a, p = .block a) ∧ cells ≠ [] ∨ p.addr? = none ∧ cells = []

/-- The addresses among some owned cells. -/
def addrs (owned : List (Ptr × List (Option β))) : List Nat :=
  owned.filterMap fun c => c.1.addr?

@[simp] theorem addrs_cons_block (a : Nat) (cells : List (Option β))
    (owned : List (Ptr × List (Option β))) :
    addrs ((.block a, cells) :: owned) = a :: addrs owned := rfl

theorem addrs_cons_none {p : Ptr} (hp : p.addr? = none) (cells : List (Option β))
    (owned : List (Ptr × List (Option β))) : addrs ((p, cells) :: owned) = addrs owned :=
  List.filterMap_cons_none hp

/-- The live part of the heap is exactly `owned`: one block for each entry,
no block twice, and nothing else. -/
structure Owns (h : Heap β) (owned : List (Ptr × List (Option β))) : Prop where
  fits : ∀ c ∈ owned, Fits c.1 c.2
  nodup : (addrs owned).Nodup
  content : ∀ a cells, (.block a, cells) ∈ owned → h.blocks[a]? = some ⟨cells, true⟩
  complete : ∀ a b, h.blocks[a]? = some b → b.live = true → a ∈ addrs owned

theorem mem_addrs {owned : List (Ptr × List (Option β))} {a : Nat} :
    a ∈ addrs owned ↔ ∃ cells, (Ptr.block a, cells) ∈ owned := by
  rw [addrs, List.mem_filterMap]
  constructor
  · rintro ⟨⟨p, cells⟩, hmem, hp⟩
    cases p with
    | block b =>
      obtain rfl : b = a := by simpa [Ptr.addr?] using hp
      exact ⟨cells, hmem⟩
    | null => simp [Ptr.addr?] at hp
    | zeroSize => simp [Ptr.addr?] at hp
  · rintro ⟨cells, hmem⟩
    exact ⟨_, hmem, rfl⟩

namespace Owns

variable {h : Heap β} {owned rest : List (Ptr × List (Option β))} {p : Ptr}
  {cells : List (Option β)}

/-- The empty heap owns nothing. -/
theorem empty : Owns (⟨[]⟩ : Heap β) [] where
  fits _ hc := absurd hc List.not_mem_nil
  nodup := List.nodup_nil
  content _ _ hc := absurd hc List.not_mem_nil
  complete a b hb _ := by simp at hb

theorem perm (hown : Owns h owned) (hp : owned.Perm rest) : Owns h rest where
  fits c hc := hown.fits c (hp.mem_iff.mpr hc)
  nodup := (hp.filterMap _).nodup_iff.mp hown.nodup
  content a cells hc := hown.content a cells (hp.mem_iff.mpr hc)
  complete a b hb hlive := (hp.filterMap _).mem_iff.mp (hown.complete a b hb hlive)

/-- The owned addresses are the live ones. -/
theorem perm_liveAddrs (hown : Owns h owned) : h.liveAddrs.Perm (addrs owned) := by
  rw [List.perm_ext_iff_of_nodup h.nodup_liveAddrs hown.nodup]
  intro a
  rw [mem_liveAddrs]
  constructor
  · rintro ⟨b, hb, hlive⟩
    exact hown.complete a b hb hlive
  · intro ha
    obtain ⟨cells, hmem⟩ := mem_addrs.mp ha
    exact ⟨_, hown.content a cells hmem, rfl⟩

/-- Where no cell is empty, the owned pointers are the live blocks. -/
theorem perm_map_fst (hown : Owns h owned) (hne : ∀ c ∈ owned, c.2 ≠ []) :
    (h.liveAddrs.map Ptr.block).Perm (owned.map Prod.fst) := by
  have hblock : ∀ cs : List (Ptr × List (Option β)), (∀ c ∈ cs, c ∈ owned) →
      (addrs cs).map Ptr.block = cs.map Prod.fst := by
    intro cs hcs
    induction cs with
    | nil => rfl
    | cons c cs ih =>
      obtain ⟨p, cells⟩ := c
      have hmem := hcs _ List.mem_cons_self
      rcases hown.fits _ hmem with ⟨⟨a, rfl⟩, -⟩ | ⟨-, hnil⟩
      · rw [addrs_cons_block, List.map_cons, List.map_cons,
          ih fun c hc => hcs c (List.mem_cons_of_mem _ hc)]
      · exact absurd hnil (hne _ hmem)
  rw [← hblock owned fun _ hc => hc]
  exact hown.perm_liveAddrs.map _

/-- An owned block still has the size it was allocated with. -/
theorem blockSize?_eq (hown : Owns h owned) (hmem : (p, cells) ∈ owned) (hne : cells ≠ []) :
    h.blockSize? p = some cells.length := by
  rcases hown.fits _ hmem with ⟨⟨a, ha⟩, -⟩ | ⟨-, hnil⟩
  · simp only at ha
    subst ha
    rw [blockSize?, hown.content a cells hmem]
    rfl
  · exact absurd hnil hne

/-- Pointers that own nothing can be added at will. -/
theorem cons_nil (hown : Owns h owned) (hp : p.addr? = none) : Owns h ((p, []) :: owned) where
  fits c hc := by
    rcases List.mem_cons.mp hc with rfl | hc
    · exact Or.inr ⟨hp, rfl⟩
    · exact hown.fits c hc
  nodup := by
    rw [addrs_cons_none hp]
    exact hown.nodup
  content a cells hc := by
    rcases List.mem_cons.mp hc with heq | hc
    · cases heq
      simp [Ptr.addr?] at hp
    · exact hown.content a cells hc
  complete a b hb hlive := by
    rw [addrs_cons_none hp]
    exact hown.complete a b hb hlive

/-- The rule of `alloc`. -/
theorem alloc (hown : Owns h owned) {max n : Nat} {ok : Bool}
    (hok : (h.alloc max ok n).1 ≠ .null) :
    Owns (h.alloc max ok n).2
      (((h.alloc max ok n).1, List.replicate n none) :: owned) := by
  unfold Heap.alloc at hok ⊢
  split
  · rename_i hzero
    subst hzero
    exact hown.cons_nil rfl
  · rename_i hpos
    split
    · have hfresh : h.blocks.length ∉ addrs owned := by
        intro hmem
        obtain ⟨cells, hc⟩ := mem_addrs.mp hmem
        have := hown.content _ _ hc
        simp at this
      refine ⟨?_, ?_, ?_, ?_⟩
      · intro c hc
        rcases List.mem_cons.mp hc with rfl | hc
        · exact Or.inl ⟨⟨_, rfl⟩, by simpa using hpos⟩
        · exact hown.fits c hc
      · rw [addrs_cons_block]
        exact List.nodup_cons.mpr ⟨hfresh, hown.nodup⟩
      · intro a cells hc
        rcases List.mem_cons.mp hc with heq | hc
        · cases heq
          simp
        · have hold := hown.content a cells hc
          have hlt := (List.getElem?_eq_some_iff.mp hold).1
          rw [List.getElem?_append_left hlt]
          exact hold
      · intro a b hb hlive
        rw [addrs_cons_block, List.mem_cons]
        rcases Nat.lt_or_ge a h.blocks.length with hlt | hge
        · rw [List.getElem?_append_left hlt] at hb
          exact Or.inr (hown.complete a b hb hlive)
        · have hlt := (List.getElem?_eq_some_iff.mp hb).1
          rw [List.length_append, List.length_singleton] at hlt
          exact Or.inl (by omega)
    · rename_i hrefused
      rw [if_neg hpos, if_neg hrefused] at hok
      exact absurd rfl hok

/-- An allocation is refused, or it adds a cell. -/
theorem alloc_cases (hown : Owns h owned) (max : Nat) (ok : Bool) (n : Nat) :
    h.alloc max ok n = (.null, h) ∧ (ok = true → max < n) ∨
      ∃ p h', h.alloc max ok n = (p, h') ∧ p ≠ .null ∧
        Owns h' ((p, List.replicate n none) :: owned) := by
  by_cases hnull : (h.alloc max ok n).1 = .null
  · refine Or.inl ⟨Prod.ext hnull (alloc_null hnull), fun hok => ?_⟩
    by_contra hle
    exact alloc_ne_null_iff.mpr (Or.inr ⟨hok, by omega⟩) hnull
  · exact Or.inr ⟨_, _, rfl, hnull, hown.alloc hnull⟩

/-- Pointers that own nothing can be dropped at will. -/
theorem of_cons_none (hown : Owns h ((p, cells) :: owned)) (hp : p.addr? = none) :
    Owns h owned where
  fits c hc := hown.fits c (List.mem_cons_of_mem _ hc)
  nodup := by
    have hnd := hown.nodup
    rwa [addrs_cons_none hp] at hnd
  content a cells hc := hown.content a cells (List.mem_cons_of_mem _ hc)
  complete a b hb hlive := by
    have hmem := hown.complete a b hb hlive
    rwa [addrs_cons_none hp] at hmem

/-- The null pointer owns no cells. -/
theorem eq_nil_of_null (hown : Owns h ((.null, cells) :: owned)) : cells = [] := by
  rcases hown.fits _ List.mem_cons_self with ⟨⟨a, ha⟩, _⟩ | ⟨_, hnil⟩
  · cases ha
  · exact hnil

/-- The rule of `free`. -/
theorem free (hown : Owns h ((p, cells) :: owned)) :
    ∃ h', h.free p = .ok h' ∧ Owns h' owned := by
  cases p with
  | block a =>
    have hb := hown.content a cells List.mem_cons_self
    have hnd := hown.nodup
    rw [addrs_cons_block, List.nodup_cons] at hnd
    refine ⟨_, by rw [Heap.free, hb]; rfl, ?_, hnd.2, ?_, ?_⟩
    · intro c hc
      exact hown.fits c (List.mem_cons_of_mem _ hc)
    · intro a' cells' hc
      have hne : a ≠ a' := by
        rintro rfl
        exact hnd.1 (mem_addrs.mpr ⟨cells', hc⟩)
      rw [List.getElem?_set_ne hne]
      exact hown.content a' cells' (List.mem_cons_of_mem _ hc)
    · intro a' b hb' hlive
      by_cases hne : a = a'
      · subst hne
        have hlt := (List.getElem?_eq_some_iff.mp hb).1
        rw [List.getElem?_set_self hlt, Option.some.injEq] at hb'
        subst hb'
        cases hlive
      · rw [List.getElem?_set_ne hne] at hb'
        have hmem := hown.complete a' b hb' hlive
        rw [addrs_cons_block, List.mem_cons] at hmem
        rcases hmem with rfl | hmem
        · exact absurd rfl hne
        · exact hmem
  | null => exact ⟨h, rfl, hown.of_cons_none rfl⟩
  | zeroSize => exact ⟨h, rfl, hown.of_cons_none rfl⟩

/-- The rule of `load`. -/
theorem load (hown : Owns h owned) (hmem : (p, cells) ∈ owned) (off : Nat) (xs : List β)
    (hxs : (cells.drop off).take xs.length = xs.map some) :
    h.load p off xs.length = .ok xs := by
  unfold Heap.load
  split
  · rename_i hzero
    rw [List.length_eq_zero_iff.mp hzero]
  · rename_i hpos
    have hlen := congrArg List.length hxs
    rw [List.length_take, List.length_drop, List.length_map] at hlen
    rcases hown.fits _ hmem with ⟨⟨a, rfl⟩, _⟩ | ⟨_, hnil⟩
    · simp only [hown.content a cells hmem]
      rw [if_pos ⟨trivial, by omega⟩, hxs, values_map_some]
    · simp only at hnil
      rw [hnil, List.length_nil] at hlen
      omega

/-- A block that was written whole can be read whole. -/
theorem load_all (hown : Owns h owned) {xs : List β} (hmem : (p, xs.map some) ∈ owned) :
    h.load p 0 xs.length = .ok xs := by
  apply hown.load hmem 0 xs
  rw [List.drop_zero, List.take_of_length_le (Nat.le_of_eq (List.length_map _))]

/-- The rule of `store`. -/
theorem store (hown : Owns h ((p, cells) :: owned)) (off : Nat) (xs : List β)
    (hlen : off + xs.length ≤ cells.length) :
    ∃ h', h.store p off xs = .ok h' ∧
      Owns h' ((p, splice cells off (xs.map some)) :: owned) := by
  unfold Heap.store
  split
  · rename_i hnil
    subst hnil
    refine ⟨h, rfl, ?_⟩
    rw [List.map_nil, splice_nil]
    exact hown
  · rename_i hne
    have hpos : 0 < xs.length := List.length_pos_iff.mpr hne
    rcases hown.fits _ List.mem_cons_self with ⟨⟨a, rfl⟩, hcells⟩ | ⟨_, hnil⟩
    · have hb := hown.content a cells List.mem_cons_self
      have hlt := (List.getElem?_eq_some_iff.mp hb).1
      have hnd := hown.nodup
      rw [addrs_cons_block, List.nodup_cons] at hnd
      have hsplice : (splice cells off (xs.map some)).length = cells.length :=
        length_splice (by rw [List.length_map]; exact hlen)
      simp only [hb]
      rw [if_pos ⟨trivial, hlen⟩]
      refine ⟨_, rfl, ?_, ?_, ?_, ?_⟩
      · intro c hc
        rcases List.mem_cons.mp hc with rfl | hc
        · refine Or.inl ⟨⟨a, rfl⟩, ?_⟩
          rw [← List.length_pos_iff, hsplice]
          omega
        · exact hown.fits c (List.mem_cons_of_mem _ hc)
      · rw [addrs_cons_block]
        exact List.nodup_cons.mpr hnd
      · intro a' cells' hc
        rcases List.mem_cons.mp hc with heq | hc
        · cases heq
          exact List.getElem?_set_self hlt
        · have hne : a ≠ a' := by
            rintro rfl
            exact hnd.1 (mem_addrs.mpr ⟨cells', hc⟩)
          rw [List.getElem?_set_ne hne]
          exact hown.content a' cells' (List.mem_cons_of_mem _ hc)
      · intro a' b hb' hlive
        rw [addrs_cons_block, List.mem_cons]
        by_cases hne : a = a'
        · exact Or.inl hne.symm
        · rw [List.getElem?_set_ne hne] at hb'
          have hmem := hown.complete a' b hb' hlive
          rw [addrs_cons_block, List.mem_cons] at hmem
          exact hmem
    · simp only at hnil
      rw [hnil, List.length_nil] at hlen
      omega

/-- The rule of `loadRaw`. -/
theorem loadRaw (hown : Owns h owned) (hmem : (p, cells) ∈ owned) {off n : Nat}
    (hlen : off + n ≤ cells.length) : h.loadRaw p off n = .ok ((cells.drop off).take n) := by
  unfold Heap.loadRaw
  split
  · rename_i hzero
    rw [hzero, List.take_zero]
  · rcases hown.fits _ hmem with ⟨⟨a, rfl⟩, _⟩ | ⟨_, hnil⟩
    · simp only [hown.content a cells hmem]
      rw [if_pos ⟨trivial, hlen⟩]
    · simp only at hnil
      rw [hnil, List.length_nil] at hlen
      omega

/-- The rule of `loadCell`. -/
theorem loadCell (hown : Owns h owned) (hmem : (p, cells) ∈ owned) {i : Nat} {x : β}
    (hx : cells[i]? = some (some x)) : h.loadCell p i = .ok x := by
  rcases hown.fits _ hmem with ⟨⟨a, rfl⟩, _⟩ | ⟨_, hnil⟩
  · simp only [Heap.loadCell, hown.content a cells hmem, if_true, hx]
  · simp only at hnil
    rw [hnil] at hx
    cases hx

/-- The rule of `storeCell`. -/
theorem storeCell (hown : Owns h ((p, cells) :: owned)) {i : Nat} (hi : i < cells.length) (x : β) :
    ∃ h', h.storeCell p i x = .ok h' ∧ Owns h' ((p, cells.set i (some x)) :: owned) := by
  obtain ⟨h', hstore, hown'⟩ := hown.store i [x] hi
  refine ⟨h', hstore, ?_⟩
  rwa [List.map_singleton, splice_singleton hi] at hown'

/-- The rule of `copy`, for a source block that is copied whole. -/
theorem copy (hown : Owns h ((p, cells) :: owned)) (dstOff : Nat) {src : Ptr} {xs : List β}
    (hsrc : (src, xs.map some) ∈ owned) (hlen : dstOff + xs.length ≤ cells.length) :
    ∃ h', h.copy p dstOff src 0 xs.length = .ok h' ∧
      Owns h' ((p, splice cells dstOff (xs.map some)) :: owned) := by
  have hload := hown.load_all (List.mem_cons_of_mem _ hsrc)
  obtain ⟨h', hstore, hown'⟩ := hown.store dstOff xs hlen
  exact ⟨h', by rw [Heap.copy, hload, ok_bind, hstore], hown'⟩

end Owns

end Heap

/-! ## Footprints

What a row of items owns is what its members own.  A change of one member leaves the
rest alone. -/

theorem perm_flatMap_set {α β : Type} (f : α → List β) {xs : List α} {i : Nat} {x : α}
    (h : xs[i]? = some x) :
    ∃ rest, (xs.flatMap f).Perm (f x ++ rest) ∧
      ∀ y, ((xs.set i y).flatMap f).Perm (f y ++ rest) := by
  obtain ⟨hi, hx⟩ := List.getElem?_eq_some_iff.mp h
  have hmove (y : α) : ((xs.take i ++ y :: xs.drop (i + 1)).flatMap f).Perm
      (f y ++ ((xs.take i).flatMap f ++ (xs.drop (i + 1)).flatMap f)) := by
    rw [List.flatMap_append, List.flatMap_cons, ← List.append_assoc, ← List.append_assoc]
    exact List.perm_append_comm.append_right _
  refine ⟨(xs.take i).flatMap f ++ (xs.drop (i + 1)).flatMap f, ?_, fun y => ?_⟩
  · have hsplit : xs.take i ++ x :: xs.drop (i + 1) = xs := by
      rw [← hx, List.getElem_cons_drop, List.take_append_drop]
    have hall := hmove x
    rw [hsplit] at hall
    exact hall
  · rw [List.set_eq_take_append_cons_drop, if_pos hi]
    exact hmove y

end CodeLib
