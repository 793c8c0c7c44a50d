import AesdChar.CodeLib.Heap
import Mathlib.Logic.Function.Basic

/-!
# Singly linked lists

The lists of `sys/queue.h`: nodes in a store, each with a pointer to the next
one.  `insertHead` is `SLIST_INSERT_HEAD`, and `remove` is `SLIST_REMOVE`, which
walks from the head to the node before the one to remove.  An access to a node
that is not in the store is a fault.

`Linked store head ps` says that the nodes `ps`, in this order, are the list
from `head` on.  There is one lemma for each operation, and none of them needs
to know what the nodes hold.
-/

namespace CodeLib.SList

/-- A node: what it holds, and its `SLIST_ENTRY`. -/
structure Cell (ι α : Type) where
  value : α
  entries : Option ι

/-- The nodes that are allocated. -/
abbrev Store (ι α : Type) := ι → Option (Cell ι α)

section Operations

variable {ι α : Type}

/-- An access to a node. -/
def load (store : Store ι α) (p : ι) : Except Fault (Cell ι α) :=
  match store p with
  | some c => .ok c
  | none => .error .badAccess

theorem load_of_some {store : Store ι α} {p : ι} {c : Cell ι α} (h : store p = some c) :
    load store p = .ok c := by
  rw [load, h]

/-- What a node holds. -/
def value (store : Store ι α) (p : ι) : Option α := (store p).map Cell.value

@[simp] theorem value_eq_none {store : Store ι α} {p : ι} : value store p = none ↔ store p = none :=
  Option.map_eq_none_iff

theorem exists_of_value {store : Store ι α} {p : ι} (h : value store p ≠ none) :
    ∃ c, store p = some c :=
  Option.ne_none_iff_exists'.mp fun hnone => h (value_eq_none.mpr hnone)

variable [DecidableEq ι]

/-- A change of what a node holds. -/
def modify (store : Store ι α) (p : ι) (f : α → α) : Store ι α :=
  Function.update store p ((store p).map fun c => { c with value := f c.value })

/-- `free`. -/
def free (store : Store ι α) (p : ι) : Except Fault (Store ι α) :=
  match store p with
  | some _ => .ok (Function.update store p none)
  | none => .error .badFree

/-- `SLIST_INSERT_HEAD`. -/
def insertHead (store : Store ι α) (head : Option ι) (elm : ι) :
    Except Fault (Store ι α × Option ι) := do
  let c ← load store elm
  return (Function.update store elm (some { c with entries := head }), some elm)

/-- The walk of `SLIST_REMOVE` to the node before `elm`. -/
def removeLoop (store : Store ι α) (elm : ι) :
    (fuel : Nat) → (curelm : Option ι) → Except Fault (Store ι α)
  | 0, _ => .error .diverges
  | _ + 1, none => .error .badAccess
  | fuel + 1, some curelm => do
    let c ← load store curelm
    if c.entries = some elm then do
      let e ← load store elm
      return Function.update store curelm (some { c with entries := e.entries })
    else removeLoop store elm fuel c.entries

/-- `SLIST_REMOVE`. -/
def remove (store : Store ι α) (head : Option ι) (elm : ι) (fuel : Nat) :
    Except Fault (Store ι α × Option ι) :=
  if head = some elm then do
    let e ← load store elm
    return (store, e.entries)
  else do
    let store ← removeLoop store elm fuel head
    return (store, head)

theorem free_of_some {store : Store ι α} {p : ι} {c : Cell ι α} (h : store p = some c) :
    free store p = .ok (Function.update store p none) := by
  rw [free, h]

@[simp] theorem modify_self (store : Store ι α) (p : ι) (f : α → α) :
    modify store p f p = (store p).map fun c => { c with value := f c.value } :=
  Function.update_self _ _ _

@[simp] theorem modify_of_ne (store : Store ι α) {p q : ι} (h : q ≠ p) (f : α → α) :
    modify store p f q = store q :=
  Function.update_of_ne h _ _

@[simp] theorem value_update_self (store : Store ι α) (p : ι) (c : Option (Cell ι α)) :
    value (Function.update store p c) p = c.map Cell.value := by
  rw [value, Function.update_self]

theorem value_update_of_ne (store : Store ι α) {p q : ι} (h : q ≠ p) (c : Option (Cell ι α)) :
    value (Function.update store p c) q = value store q := by
  rw [value, Function.update_of_ne h, value]

@[simp] theorem value_modify_self (store : Store ι α) (p : ι) (f : α → α) :
    value (modify store p f) p = (value store p).map f := by
  rw [value, modify_self, value, Option.map_map, Option.map_map]
  rfl

theorem value_modify_of_ne (store : Store ι α) {p q : ι} (h : q ≠ p) (f : α → α) :
    value (modify store p f) q = value store q := by
  rw [value, modify_of_ne _ h, value]

/-- A change of what a node holds allocates and frees nothing. -/
theorem value_modify_eq_none {store : Store ι α} {p q : ι} {f : α → α} :
    value (modify store p f) q = none ↔ value store q = none := by
  by_cases hq : q = p
  · rw [hq, value_modify_self, Option.map_eq_none_iff]
  · rw [value_modify_of_ne _ hq]

/-- What the change leaves alone is what it was. -/
theorem map_value_modify {β : Type} {store : Store ι α} {p : ι} {f : α → α} {g : α → β}
    (hg : ∀ a, g (f a) = g a) (q : ι) :
    (value (modify store p f) q).map g = (value store q).map g := by
  by_cases hq : q = p
  · rw [hq, value_modify_self, Option.map_map]
    congr 1
    exact funext hg
  · rw [value_modify_of_ne _ hq]

/-- What a node holds after a change is what it held, or the change of it. -/
theorem exists_of_value_modify {store : Store ι α} {p q : ι} {f : α → α} {a : α}
    (h : value (modify store p f) q = some a) :
    ∃ b, value store q = some b ∧ (q = p ∧ a = f b ∨ q ≠ p ∧ a = b) := by
  by_cases hq : q = p
  · rw [hq, value_modify_self] at h
    obtain ⟨b, hb, rfl⟩ := Option.map_eq_some_iff.mp h
    exact ⟨b, by rw [hq, hb], Or.inl ⟨hq, rfl⟩⟩
  · rw [value_modify_of_ne _ hq] at h
    exact ⟨a, h, Or.inr ⟨hq, rfl⟩⟩

end Operations

/-! ## Lists -/

section Linked

variable {ι α : Type} {store store' : Store ι α} {head : Option ι} {ps pre post : List ι} {p : ι}

/-- The nodes `ps` are the list from `head` on. -/
inductive Linked (store : Store ι α) : (head : Option ι) → (ps : List ι) → Prop
  | nil : Linked store none []
  | cons {p : ι} {c : Cell ι α} {ps : List ι} (hp : store p = some c)
      (hrest : Linked store c.entries ps) : Linked store (some p) (p :: ps)

theorem Linked.head_eq (h : Linked store head ps) : head = ps.head? := by
  cases h with
  | nil => rfl
  | cons _ _ => rfl

theorem Linked.cons_inv (h : Linked store head (p :: ps)) :
    ∃ c, head = some p ∧ store p = some c ∧ Linked store c.entries ps := by
  cases h with
  | cons hp hrest => exact ⟨_, rfl, hp, hrest⟩

/-- What lies behind a part of a list is a list. -/
theorem Linked.suffix (h : Linked store head (pre ++ post)) : Linked store post.head? post := by
  induction pre generalizing head with
  | nil =>
    have hhead : head = post.head? := h.head_eq
    rwa [← hhead]
  | cons q pre ih =>
    cases h with
    | cons _ hrest => exact ih hrest

/-- The next node of a node in the list. -/
theorem Linked.entries_eq (h : Linked store head (pre ++ p :: post)) {c : Cell ι α}
    (hp : store p = some c) : c.entries = post.head? := by
  cases h.suffix with
  | cons hp' hrest =>
    rw [hp, Option.some.injEq] at hp'
    rw [hp']
    exact hrest.head_eq

/-- A list depends on the pointers of its nodes only. -/
theorem Linked.congr (h : Linked store head ps)
    (hsame : ∀ q ∈ ps, (store' q).map Cell.entries = (store q).map Cell.entries) :
    Linked store' head ps := by
  induction h with
  | nil => exact Linked.nil
  | @cons q c ps hq _ ih =>
    have hentries := hsame q List.mem_cons_self
    rw [hq, Option.map_some, Option.map_eq_some_iff] at hentries
    obtain ⟨c', hc', hnext⟩ := hentries
    apply Linked.cons hc'
    rw [hnext]
    exact ih fun r hr => hsame r (List.mem_cons_of_mem _ hr)

variable [DecidableEq ι]

/-- Changing what a node holds changes no list. -/
theorem Linked.modify (h : Linked store head ps) (p : ι) (f : α → α) :
    Linked (modify store p f) head ps := by
  apply h.congr
  intro q _
  by_cases hq : q = p
  · subst hq
    rw [modify_self, Option.map_map]
    rfl
  · rw [modify_of_ne _ hq]

/-- A change outside the list. -/
theorem Linked.update (h : Linked store head ps) (hp : p ∉ ps) (c : Option (Cell ι α)) :
    Linked (Function.update store p c) head ps := by
  apply h.congr
  intro q hq
  have hne : q ≠ p := by
    rintro rfl
    exact hp hq
  rw [Function.update_of_ne hne]

/-- A node outside the list is inserted. -/
theorem Linked.insertHead (h : Linked store head ps) {c : Cell ι α} (hp : store p = some c)
    (hmem : p ∉ ps) :
    insertHead store head p =
        .ok (Function.update store p (some { c with entries := head }), some p) ∧
      Linked (Function.update store p (some { c with entries := head })) (some p) (p :: ps) ∧
      ∀ r, value (Function.update store p (some { c with entries := head })) r = value store r := by
  refine ⟨?_, Linked.cons (Function.update_self _ _ _) (h.update hmem _), fun r => ?_⟩
  · rw [SList.insertHead, load_of_some hp]
    rfl
  · by_cases hr : r = p
    · subst hr
      rw [value_update_self, value, hp]
      rfl
    · exact value_update_of_ne _ hr _

/-- The walk finds the node before `p`, and unlinks `p`. -/
theorem Linked.removeLoop {q : ι} (h : Linked store head (q :: (pre ++ p :: post)))
    (hnodup : (q :: (pre ++ p :: post)).Nodup) {fuel : Nat} (hfuel : pre.length < fuel) :
    ∃ store', removeLoop store p fuel head = .ok store' ∧
      Linked store' head (q :: (pre ++ post)) ∧
      (∀ r, value store' r = value store r) ∧
      ∀ r, r ∉ q :: pre → store' r = store r := by
  induction pre generalizing head q fuel with
  | nil =>
    obtain ⟨fuel, rfl⟩ := Nat.exists_eq_add_of_lt hfuel
    obtain ⟨c, rfl, hq, hrest⟩ := h.cons_inv
    obtain ⟨e, hnext, hp, hrest⟩ := Linked.cons_inv hrest
    have hq_notMem : q ∉ post := fun hmem =>
      (List.nodup_cons.mp hnodup).1 (List.mem_cons_of_mem _ hmem)
    refine ⟨Function.update store q (some { c with entries := e.entries }), ?_, ?_, ?_, ?_⟩
    · show removeLoop store p (_ + 1) (some q) = _
      rw [SList.removeLoop, load_of_some hq, ok_bind, if_pos hnext, load_of_some hp]
      rfl
    · exact Linked.cons (Function.update_self _ _ _) (hrest.update hq_notMem _)
    · intro r
      by_cases hr : r = q
      · subst hr
        rw [value_update_self, value, hq]
        rfl
      · exact value_update_of_ne _ hr _
    · intro r hr
      have hne : r ≠ q := by
        rintro rfl
        exact hr List.mem_cons_self
      rw [Function.update_of_ne hne]
  | cons q' pre ih =>
    obtain ⟨fuel, rfl⟩ := Nat.exists_eq_add_of_lt hfuel
    obtain ⟨c, rfl, hq, hrest⟩ := h.cons_inv
    obtain ⟨hq_notMem, hnodup'⟩ := List.nodup_cons.mp hnodup
    have hnext : c.entries = some q' := hrest.head_eq
    have hne : q' ≠ p := by
      rintro rfl
      exact (List.nodup_cons.mp hnodup').1 (List.mem_append_right _ List.mem_cons_self)
    have hgo : ¬ c.entries = some p := by
      rw [hnext, Option.some.injEq]
      exact hne
    obtain ⟨store', hrun, hlinked, hvalue, hsame⟩ := ih hrest hnodup' (Nat.le_add_right _ fuel)
    have hq_same : store' q = some c := by
      rw [hsame q fun hmem => hq_notMem ?_, hq]
      rcases List.mem_cons.mp hmem with rfl | hmem
      · exact List.mem_cons_self
      · exact List.mem_cons_of_mem _ (List.mem_append_left _ hmem)
    refine ⟨store', ?_, Linked.cons hq_same hlinked, hvalue, fun r hr => ?_⟩
    · show removeLoop store p (_ + 1) (some q) = _
      rw [SList.removeLoop, load_of_some hq, ok_bind, if_neg hgo, ← hrun]
      rfl
    · exact hsame r fun hmem => hr (List.mem_cons_of_mem _ hmem)

/-- A node of the list is removed.  The other nodes keep their order, and no
node changes what it holds. -/
theorem Linked.remove (h : Linked store head (pre ++ p :: post)) (hnodup : (pre ++ p :: post).Nodup)
    {fuel : Nat} (hfuel : pre.length ≤ fuel) :
    ∃ store' head', remove store head p fuel = .ok (store', head') ∧
      Linked store' head' (pre ++ post) ∧
      ∀ r, value store' r = value store r := by
  cases pre with
  | nil =>
    obtain ⟨e, rfl, hp, hrest⟩ := h.cons_inv
    refine ⟨store, e.entries, ?_, hrest, fun _ => rfl⟩
    rw [SList.remove, if_pos rfl, load_of_some hp]
    rfl
  | cons q pre =>
    have hhead : head = some q := h.head_eq
    have hne : ¬ head = some p := by
      rw [hhead, Option.some.injEq]
      rintro rfl
      exact (List.nodup_cons.mp hnodup).1 (List.mem_append_right _ List.mem_cons_self)
    obtain ⟨store', hrun, hlinked, hvalue, -⟩ := h.removeLoop hnodup hfuel
    refine ⟨store', head, ?_, hlinked, hvalue⟩
    rw [SList.remove, if_neg hne, hrun]
    rfl

end Linked

end CodeLib.SList
