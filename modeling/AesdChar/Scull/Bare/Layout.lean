import AesdChar.Scull.Bare.Basic

/-!
# The memory of a bare device

`ScullMem.Layout` says that the memory is a list of items: each has a node, and it may
have an array of `q` slots, and each slot may have a quantum of `n` bytes.  These
blocks are the only ones that are live.

There is one spec lemma for each of `scull_trim` and `scull_follow`, and one for each of the
two allocations of `scull_write`.
-/

namespace AesdChar.Scull

open CodeLib CodeLib.CInt

/-! ## List items -/

/-- A block of bytes. -/
abbrev Quantum := Ptr × List (Option Byte)

/-- A node, and the array that it points to. -/
structure ListItem where
  node : Ptr
  array : Option (Ptr × List (Option Quantum))

namespace ListItem

/-- What the node points to. -/
def data (it : ListItem) : Ptr := it.array.elim .null Prod.fst

def slots (it : ListItem) : List (Option Quantum) := it.array.elim [] Prod.snd

def quanta (it : ListItem) : List Quantum := it.slots.flatMap Option.toList

/-- What an element of the array points to. -/
def slotPtr (s : Option Quantum) : Ptr := s.elim .null Prod.fst

/-- The cells of the array. -/
def arrayCells (it : ListItem) : List (Ptr × List (Option Ptr)) :=
  it.array.toList.map fun a => (a.1, a.2.map fun s => some (slotPtr s))

/-- An array of `q` quanta of `n` bytes. -/
structure Sized (n q : Nat) (it : ListItem) : Prop where
  length_eq : it.array ≠ none → it.slots.length = q
  quantum_eq : ∀ x ∈ it.quanta, x.2.length = n

end ListItem

/-- The first node of a list that ends at `last`. -/
def first : List ListItem → Ptr → Ptr
  | [], last => last
  | it :: _, _ => it.node

/-- The nodes of a list that ends at `last`. -/
def nodeCells : List ListItem → Ptr → List (Ptr × List (Option ScullQset))
  | [], _ => []
  | it :: items, last => (it.node, [some ⟨it.data, first items last⟩]) :: nodeCells items last

theorem nodeCells_append (items items' : List ListItem) (last : Ptr) :
    nodeCells (items ++ items') last = nodeCells items (first items' last) ++
      nodeCells items' last := by
  induction items with
  | nil => rfl
  | cons it items ih =>
    have hfirst : first (items ++ items') last = first items (first items' last) := by
      cases items <;> rfl
    rw [List.cons_append, nodeCells, nodeCells, ih, hfirst, List.cons_append]

theorem length_nodeCells (items : List ListItem) (last : Ptr) :
    (nodeCells items last).length = items.length := by
  induction items with
  | nil => rfl
  | cons it items ih => rw [nodeCells, List.length_cons, List.length_cons, ih]

/-- Every node is one cell. -/
theorem ne_nil_of_mem_nodeCells {items : List ListItem} {last : Ptr}
    {c : Ptr × List (Option ScullQset)} (h : c ∈ nodeCells items last) : c.2 ≠ [] := by
  induction items with
  | nil => cases h
  | cons it items ih =>
    rcases List.mem_cons.mp h with rfl | h
    · simp
    · exact ih h

/-- The memory of the device is this list of items. -/
structure ScullMem.Layout (m : ScullMem) (n q : Nat) (items : List ListItem) : Prop where
  qsets : m.qsets.Owns (nodeCells items .null)
  arrays : m.arrays.Owns (items.flatMap ListItem.arrayCells)
  quanta : m.quanta.Owns (items.flatMap ListItem.quanta)
  sized : ∀ it ∈ items, it.Sized n q

/-- There is nothing but the device. -/
structure ScullMem.Bare (m : ScullMem) : Prop where
  qsets : m.qsets.Owns []
  arrays : m.arrays.Owns []
  quanta : m.quanta.Owns []

section Layout

variable {m : ScullMem} {n q : Nat} {items pre post : List ListItem} {it : ListItem}

/-- A block with cells in it is behind no null pointer. -/
theorem ne_null_of_owns {β : Type} {h : Heap β} {owned : List (Ptr × List (Option β))} {p : Ptr}
    {cells : List (Option β)} (hown : h.Owns owned) (hmem : (p, cells) ∈ owned)
    (hne : cells ≠ []) : p ≠ .null := by
  rcases hown.fits _ hmem with ⟨⟨a, ha⟩, -⟩ | ⟨-, hnil⟩
  · intro hnull
    rw [show p = .block a from ha] at hnull
    cases hnull
  · exact absurd hnil hne

/-! ## `scull_trim` -/

/-- The quanta of a part of an array are freed. -/
theorem ScullMem.freeQuanta_spec {data : Ptr} {slots : List (Option Quantum)}
    {owned : List (Ptr × List (Option Ptr))} (harrays : m.arrays.Owns owned)
    (hmem : (data, slots.map fun s => some (ListItem.slotPtr s)) ∈ owned)
    {done todo : List (Option Quantum)} (hslots : slots = done ++ todo) {quanta : Heap Byte}
    {rest : List Quantum} (hquanta : quanta.Owns (todo.flatMap Option.toList ++ rest)) :
    ∃ quanta', m.freeQuanta data done.length todo.length quanta = .ok quanta' ∧
      quanta'.Owns rest := by
  induction todo generalizing done quanta with
  | nil => exact ⟨quanta, rfl, hquanta⟩
  | cons s todo ih =>
    have hload : m.loadSlot data done.length = .ok (ListItem.slotPtr s) := by
      rw [loadSlot, if_neg (by omega), Int.toNat_natCast]
      apply harrays.loadCell hmem
      rw [List.getElem?_map, hslots, List.getElem?_append_right (Nat.le_refl _), Nat.sub_self]
      rfl
    have hfree : ∃ quanta₁, quanta.free (ListItem.slotPtr s) = .ok quanta₁ ∧
        quanta₁.Owns (todo.flatMap Option.toList ++ rest) := by
      cases s with
      | none => exact ⟨quanta, rfl, hquanta⟩
      | some x => exact hquanta.free
    obtain ⟨quanta₁, hfree, hquanta₁⟩ := hfree
    have hsplit : slots = (done ++ [s]) ++ todo := by rw [hslots, List.append_assoc]; rfl
    obtain ⟨quanta', hrest, hquanta'⟩ := ih hsplit hquanta₁
    refine ⟨quanta', ?_, hquanta'⟩
    rw [List.length_append, List.length_singleton] at hrest
    rw [List.length_cons, freeQuanta, hload, ok_bind, hfree, ok_bind]
    exact hrest

/-- A turn of the loop frees the quanta and the array of a list item. -/
theorem ScullMem.freeItem_spec {rest : List (Ptr × List (Option ScullQset))}
    {arrays : List (Ptr × List (Option Ptr))} {quanta : List Quantum} {next : Ptr}
    (hsized : it.Sized n q) (hq : 0 < q)
    (hqsets : m.qsets.Owns ((it.node, [some ⟨it.data, next⟩]) :: rest))
    (harrays : m.arrays.Owns (it.arrayCells ++ arrays))
    (hquanta : m.quanta.Owns (it.quanta ++ quanta)) :
    ∃ m' data, m.freeItem q it.node ⟨it.data, next⟩ = .ok m' ∧ m'.dev = m.dev ∧
      m'.qsets.Owns ((it.node, [some ⟨data, next⟩]) :: rest) ∧ m'.arrays.Owns arrays ∧
      m'.quanta.Owns quanta := by
  cases harray : it.array with
  | none =>
    have hdata : it.data = .null := by rw [ListItem.data, harray]; rfl
    have hcells : it.arrayCells = [] := by rw [ListItem.arrayCells, harray]; rfl
    have hbytes : it.quanta = [] := by rw [ListItem.quanta, ListItem.slots, harray]; rfl
    rw [hcells] at harrays
    rw [hbytes] at hquanta
    exact ⟨m, it.data, by rw [freeItem, if_pos hdata], rfl, hqsets, harrays, hquanta⟩
  | some a =>
    obtain ⟨p, slots⟩ := a
    have hslots : it.slots = slots := by rw [ListItem.slots, harray]; rfl
    have hdata : it.data = p := by rw [ListItem.data, harray]; rfl
    have hcells : it.arrayCells = [(p, slots.map fun s => some (ListItem.slotPtr s))] := by
      rw [ListItem.arrayCells, harray]
      rfl
    have hlen : slots.length = q := by
      rw [← hslots]
      exact hsized.length_eq (by rw [harray]; simp)
    rw [hcells] at harrays
    rw [ListItem.quanta, hslots] at hquanta
    have hne : p ≠ .null := by
      apply ne_null_of_owns harrays List.mem_cons_self
      rw [ne_eq, List.map_eq_nil_iff, ← List.length_eq_zero_iff]
      omega
    obtain ⟨quanta', hfree, hquanta'⟩ := freeQuanta_spec harrays List.mem_cons_self
      (List.nil_append slots).symm hquanta
    obtain ⟨arrays', hfree_array, harrays'⟩ := harrays.free
    obtain ⟨qsets', hstore, hqsets'⟩ := hqsets.storeCell Nat.one_pos ⟨.null, next⟩
    refine ⟨{ m with quanta := quanta', arrays := arrays', qsets := qsets' }, .null, ?_, rfl,
      hqsets', harrays', hquanta'⟩
    rw [hlen] at hfree
    rw [freeItem, hdata, if_neg hne, Int.toNat_natCast]
    show (m.freeQuanta p 0 q m.quanta >>= _) = _
    rw [show m.freeQuanta p 0 q m.quanta = .ok quanta' from hfree, ok_bind, hfree_array, ok_bind,
      hstore]
    rfl

/-- The loop frees everything. -/
theorem ScullMem.trimLoop_spec (hq : 0 < q) {fuel : Nat} (hfuel : items.length < fuel)
    (h : m.Layout n q items) :
    ∃ m', trimLoop q fuel (first items .null) m = .ok m' ∧ m'.dev = m.dev ∧ m'.Bare := by
  induction items generalizing m fuel with
  | nil =>
    cases fuel with
    | zero => omega
    | succ fuel => exact ⟨m, rfl, rfl, h.qsets, h.arrays, h.quanta⟩
  | cons it items ih =>
    cases fuel with
    | zero => omega
    | succ fuel =>
      obtain ⟨m₁, data, hitem, hdev₁, hqsets₁, harrays₁, hquanta₁⟩ :=
        freeItem_spec (h.sized it List.mem_cons_self) hq h.qsets h.arrays h.quanta
      obtain ⟨qsets₂, hfree, hqsets₂⟩ := hqsets₁.free
      have hload := h.qsets.loadCell List.mem_cons_self (i := 0) rfl
      have hne : it.node ≠ .null := ne_null_of_owns h.qsets List.mem_cons_self (by simp)
      have hlayout : { m₁ with qsets := qsets₂ }.Layout n q items :=
        ⟨hqsets₂, harrays₁, hquanta₁, fun it' hit' => h.sized it' (List.mem_cons_of_mem _ hit')⟩
      rw [List.length_cons] at hfuel
      obtain ⟨m', hrest, hdev, hbare⟩ := ih (show items.length < fuel by omega) hlayout
      refine ⟨m', ?_, hdev.trans hdev₁, hbare⟩
      rw [trimLoop, first, if_neg hne, hload, ok_bind, hitem, ok_bind, hfree, ok_bind]
      exact hrest

theorem ScullMem.Layout.length_le (h : m.Layout n q items) :
    items.length ≤ m.qsets.blocks.length := by
  have hlen := (h.qsets.perm_map_fst fun _ hc => ne_nil_of_mem_nodeCells hc).length_eq
  rw [List.length_map, List.length_map, length_nodeCells] at hlen
  rw [← hlen, Heap.liveAddrs]
  exact Nat.le_trans (List.length_filter_le _ _) (Nat.le_of_eq List.length_range)

/-- `scull_trim` frees everything, and ends. -/
theorem ScullMem.trimList_spec (h : m.Layout n q items) (hq : 0 < q) (hqset : m.dev.qset = q)
    (hdata : m.dev.data = first items .null) :
    ∃ m', m.trimList = .ok m' ∧ m'.dev = { m.dev with size := 0 } ∧ m'.Bare := by
  obtain ⟨m', hloop, hdev, hbare⟩ := trimLoop_spec hq (Nat.lt_succ_of_le h.length_le) h
  refine ⟨{ m' with dev := { m'.dev with size := 0 } }, ?_, by rw [hdev], hbare.qsets,
    hbare.arrays, hbare.quanta⟩
  rw [trimList, hqset, hdata, hloop]
  rfl

/-! ## `scull_follow` -/

/-- A new list item, or none. -/
theorem ScullMem.newQset_spec (m : ScullMem) (kmalloc : Kmalloc) (ok : Bool)
    {owned : List (Ptr × List (Option ScullQset))} (hown : m.qsets.Owns owned) :
    m.newQset kmalloc ok = .ok (.null, m) ∧ (ok = true → kmalloc.maxSize < 16) ∨
      ∃ p qsets, m.newQset kmalloc ok = .ok (p, { m with qsets := qsets }) ∧ p ≠ .null ∧
        qsets.Owns ((p, [some ⟨.null, .null⟩]) :: owned) := by
  rcases hown.alloc_cases (kmalloc.maxSize / 16) ok 1 with
    ⟨halloc, hlimit⟩ | ⟨p, qsets, halloc, hne, hown'⟩
  · left
    refine ⟨?_, fun hok => ?_⟩
    · rw [newQset, halloc]
      rfl
    · have hmax := hlimit hok
      omega
  · right
    obtain ⟨qsets', hstore, hqsets'⟩ := hown'.storeCell Nat.one_pos ⟨.null, .null⟩
    refine ⟨p, qsets', ?_, hne, hqsets'⟩
    rw [newQset, halloc]
    show (if p = .null then _ else _) = _
    rw [if_neg hne, hstore]
    rfl

/-- The list is followed to an item that is there, or grown up to it.  A new item has no
array. -/
theorem ScullMem.followLoop_spec (kmalloc : Kmalloc) (node : Nat → Bool) (k j : Nat)
    (hitems : items = pre ++ it :: post) (h : m.Layout n q items) :
    ∃ fresh p m', followLoop kmalloc node k j it.node m = .ok (p, m') ∧
      m'.Layout n q (items ++ fresh) ∧ (∀ x ∈ fresh, x.array = none) ∧ m'.dev = m.dev ∧
      (j ≤ post.length → fresh = [] ∧ m' = m) ∧
      (p = .null ∧ post.length < j ∧ ((∀ i, node i = true) → kmalloc.maxSize < 16) ∨
        p ≠ .null ∧ ∃ x, (items ++ fresh)[pre.length + j]? = some x ∧ p = x.node) := by
  induction j generalizing k items pre it post m with
  | zero =>
    have hmem : (it.node, [some ⟨it.data, first post .null⟩]) ∈ nodeCells items .null := by
      rw [hitems, nodeCells_append]
      simp [nodeCells]
    refine ⟨[], it.node, m, rfl, by rwa [List.append_nil], by simp, rfl, fun _ => ⟨rfl, rfl⟩,
      Or.inr ⟨ne_null_of_owns h.qsets hmem (by simp), it, ?_, rfl⟩⟩
    rw [hitems]
    simp
  | succ j ih =>
    have hcells : nodeCells items .null = nodeCells pre it.node ++
        (it.node, [some ⟨it.data, first post .null⟩]) :: nodeCells post .null := by
      rw [hitems, nodeCells_append]
      rfl
    have hload : m.qsets.loadCell it.node 0 = .ok ⟨it.data, first post .null⟩ := by
      have hmem : (it.node, [some ⟨it.data, first post .null⟩]) ∈ nodeCells items .null := by
        rw [hcells]
        simp
      exact h.qsets.loadCell hmem rfl
    cases post with
    | cons it' post =>
      have hne : it'.node ≠ .null := by
        have hmem : (it'.node, [some ⟨it'.data, first post .null⟩]) ∈ nodeCells items .null := by
          rw [hcells]
          simp [nodeCells]
        exact ne_null_of_owns h.qsets hmem (by simp)
      have hsplit : items = (pre ++ [it]) ++ it' :: post := by
        rw [hitems, List.append_assoc]
        rfl
      obtain ⟨fresh, p, m', hrun, hlayout, hnone, hdev, hstay, hend⟩ := ih (k + 1) hsplit h
      have hindex : (pre ++ [it]).length + j = pre.length + (j + 1) := by
        rw [List.length_append, List.length_singleton]
        omega
      rw [hindex] at hend
      refine ⟨fresh, p, m', ?_, hlayout, hnone, hdev, fun hle => hstay ?_, ?_⟩
      · rw [followLoop, hload, ok_bind]
        show (if it'.node = .null then _ else _) = _
        rw [if_neg hne]
        exact hrun
      · rw [List.length_cons] at hle
        omega
      · rw [List.length_cons]
        exact hend.imp_left fun hnull => ⟨hnull.1, by omega, hnull.2.2⟩
    | nil =>
      have hown := h.qsets
      rw [hcells] at hown
      rcases m.newQset_spec kmalloc (node k) hown with
        ⟨hnew, hlimit⟩ | ⟨p, qsets, hnew, hne, hqsets⟩
      · refine ⟨[], .null, m, ?_, by rwa [List.append_nil], by simp, rfl, fun hle => ?_,
          Or.inl ⟨rfl, Nat.succ_pos j, fun hall => hlimit (hall k)⟩⟩
        · rw [followLoop, hload, ok_bind]
          show (if Ptr.null = Ptr.null then _ else _) = _
          rw [if_pos rfl, hnew]
          rfl
        · cases hle
      · -- The last node points to the new one.
        have hfront : qsets.Owns ((it.node, [some ⟨it.data, .null⟩]) ::
            (p, [some ⟨.null, .null⟩]) :: nodeCells pre it.node) :=
          hqsets.perm ((List.Perm.cons _ (List.perm_append_singleton _ _)).trans
            (List.Perm.swap _ _ _))
        obtain ⟨qsets', hstore, hqsets'⟩ := hfront.storeCell Nat.one_pos ⟨it.data, p⟩
        let it' : ListItem := ⟨p, none⟩
        let m₁ : ScullMem := { m with qsets := qsets' }
        have hsplit : items ++ [it'] = (pre ++ [it]) ++ it' :: [] := by rw [hitems]
        have hlayout₁ : m₁.Layout n q (items ++ [it']) := by
          constructor
          · rw [hsplit, List.append_assoc, nodeCells_append]
            let old : Ptr × List (Option ScullQset) := (it.node, [some ⟨it.data, p⟩])
            let new : Ptr × List (Option ScullQset) := (p, [some ⟨.null, .null⟩])
            have hperm : ([old, new] ++ nodeCells pre it.node).Perm
                (nodeCells pre it.node ++ [old, new]) := List.perm_append_comm
            exact hqsets'.perm hperm
          · rw [List.flatMap_append]
            exact (List.append_nil (items.flatMap ListItem.arrayCells)).symm ▸ h.arrays
          · rw [List.flatMap_append]
            exact (List.append_nil (items.flatMap ListItem.quanta)).symm ▸ h.quanta
          · intro x hx
            rcases List.mem_append.mp hx with hx | hx
            · exact h.sized x hx
            · rw [List.mem_singleton.mp hx]
              exact ⟨fun hno => absurd rfl hno, by simp [it', ListItem.quanta, ListItem.slots]⟩
        obtain ⟨fresh, p', m', hrun, hlayout, hnone, hdev, -, hend⟩ := ih (k + 1) hsplit hlayout₁
        have hindex : (pre ++ [it]).length + j = pre.length + (j + 1) := by
          rw [List.length_append, List.length_singleton]
          omega
        rw [hindex] at hend
        rw [List.append_assoc] at hlayout hend
        refine ⟨it' :: fresh, p', m', ?_, hlayout, ?_, hdev, fun hle => ?_, ?_⟩
        · rw [followLoop, hload, ok_bind]
          show (if Ptr.null = Ptr.null then _ else _) = _
          rw [if_pos rfl, hnew]
          show (if p = .null then _ else _) = _
          rw [if_neg hne, hstore]
          exact hrun
        · intro x hx
          rcases List.mem_cons.mp hx with rfl | hx
          · rfl
          · exact hnone x hx
        · cases hle
        · exact hend.imp_left fun hnull => ⟨hnull.1, Nat.succ_pos j, hnull.2.2⟩

/-- `scull_follow` finds an item or grows the list up to it. -/
theorem ScullMem.follow_spec (kmalloc : Kmalloc) (node : Nat → Bool) (j : Nat)
    (h : m.Layout n q items) (hdata : m.dev.data = first items .null) :
    ∃ fresh p m', m.follow kmalloc node j = .ok (p, m') ∧ m'.Layout n q (items ++ fresh) ∧
      (∀ x ∈ fresh, x.array = none) ∧
      m'.dev = { m.dev with data := first (items ++ fresh) .null } ∧
      (j < items.length → fresh = [] ∧ m' = m) ∧
      (p = .null ∧ items.length ≤ j ∧ ((∀ i, node i = true) → kmalloc.maxSize < 16) ∨
        p ≠ .null ∧ ∃ x, (items ++ fresh)[j]? = some x ∧ p = x.node) := by
  cases items with
  | nil =>
    have hnull : m.dev.data = .null := hdata
    rcases m.newQset_spec kmalloc (node 0) h.qsets with
      ⟨hnew, hlimit⟩ | ⟨p, qsets, hnew, hne, hqsets⟩
    · refine ⟨[], .null, m, ?_, h, by simp, ?_, fun hlt => absurd hlt (Nat.not_lt_zero _),
        Or.inl ⟨rfl, Nat.zero_le _, fun hall => hlimit (hall 0)⟩⟩
      · rw [follow, if_pos hnull, hnew]
        rfl
      · show m.dev = { m.dev with data := .null }
        rw [← hnull]
    · let it : ListItem := ⟨p, none⟩
      let m₁ : ScullMem := { m with qsets := qsets, dev := { m.dev with data := p } }
      have hlayout₁ : m₁.Layout n q [it] := by
        refine ⟨hqsets, h.arrays, h.quanta, fun x hx => ?_⟩
        rw [List.mem_singleton.mp hx]
        exact ⟨fun hno => absurd rfl hno, by simp [it, ListItem.quanta, ListItem.slots]⟩
      obtain ⟨fresh, p', m', hrun, hlayout, hnone, hdev, -, hend⟩ :=
        followLoop_spec kmalloc node 1 j (show [it] = [] ++ it :: [] from rfl) hlayout₁
      rw [List.length_nil, Nat.zero_add] at hend
      refine ⟨it :: fresh, p', m', ?_, hlayout, ?_, hdev, fun hlt => absurd hlt (Nat.not_lt_zero _),
        hend.imp_left fun hnull => ⟨hnull.1, Nat.zero_le _, hnull.2.2⟩⟩
      · rw [follow, if_pos hnull, hnew]
        show (if p = .null then _ else _) = _
        rw [if_neg hne]
        exact hrun
      · intro x hx
        rcases List.mem_cons.mp hx with rfl | hx
        · rfl
        · exact hnone x hx
  | cons it post =>
    have hne : it.node ≠ .null := ne_null_of_owns h.qsets List.mem_cons_self (by simp)
    have hnode : m.dev.data = it.node := hdata
    obtain ⟨fresh, p, m', hrun, hlayout, hnone, hdev, hstay, hend⟩ :=
      followLoop_spec kmalloc node 1 j (show it :: post = [] ++ it :: post from rfl) h
    rw [List.length_nil, Nat.zero_add] at hend
    refine ⟨fresh, p, m', ?_, hlayout, hnone, ?_, fun hlt => hstay ?_,
      hend.imp_left fun hnull => ⟨hnull.1, ?_, hnull.2.2⟩⟩
    · rw [follow, hnode, if_neg hne]
      exact hrun
    · rw [hdev]
      show m.dev = { m.dev with data := it.node }
      rw [← hnode]
    · rw [List.length_cons] at hlt
      omega
    · have hlt := hnull.2.1
      rw [List.length_cons]
      omega

/-! ## Quanta -/

/-- The quantum with number `k`, counted from the start of the device. -/
def quantumAt (items : List ListItem) (q k : Nat) : Option Quantum :=
  (items[k / q]?.bind fun it => it.slots[k % q]?).join

theorem quantumAt_of_getElem? {k : Nat} (h : items[k / q]? = some it) :
    quantumAt items q k = it.slots[k % q]?.join := by
  rw [quantumAt, h]
  rfl

theorem lt_length_of_quantumAt {k : Nat} {x : Quantum} (h : quantumAt items q k = some x) :
    k / q < items.length := by
  apply Nat.lt_of_not_le
  intro hle
  rw [quantumAt, List.getElem?_eq_none hle] at h
  cases h

/-- A change of one slot. -/
theorem quantumAt_set {it' : ListItem} {k : Nat} {s : Option Quantum}
    (h : items[k / q]? = some it) (hslots : it'.slots = it.slots.set (k % q) s)
    (hlt : k % q < it.slots.length) (k' : Nat) :
    quantumAt (items.set (k / q) it') q k' = if k' = k then s else quantumAt items q k' := by
  have hi := (List.getElem?_eq_some_iff.mp h).1
  unfold quantumAt
  by_cases hitem : k / q = k' / q
  · rw [← hitem, List.getElem?_set_self hi, Option.bind_some, hslots, h, Option.bind_some]
    by_cases hslot : k % q = k' % q
    · have hk : k' = k := by rw [← Nat.div_add_mod k q, ← Nat.div_add_mod k' q, hitem, hslot]
      rw [← hslot, List.getElem?_set_self hlt, if_pos hk]
      rfl
    · rw [List.getElem?_set_ne hslot, if_neg fun hk => hslot (by rw [hk])]
  · rw [List.getElem?_set_ne hitem, if_neg fun hk => hitem (by rw [hk])]

/-- A new item has no quanta. -/
theorem quantumAt_append {fresh : List ListItem} (hfresh : ∀ x ∈ fresh, x.array = none) (k : Nat) :
    quantumAt (items ++ fresh) q k = quantumAt items q k := by
  unfold quantumAt
  rcases Nat.lt_or_ge (k / q) items.length with hlt | hge
  · rw [List.getElem?_append_left hlt]
  · rw [List.getElem?_append_right hge, List.getElem?_eq_none hge]
    cases hx : fresh[k / q - items.length]? with
    | none => rfl
    | some x =>
      have hslots : x.slots = [] := by
        rw [ListItem.slots, hfresh x (List.mem_of_getElem? hx)]
        rfl
      rw [Option.bind_some, hslots]
      rfl

/-- What the quanta own, around one slot. -/
theorem perm_quanta {k : Nat} {slot : Option Quantum} (h : items[k / q]? = some it)
    (hslot : it.slots[k % q]? = some slot) :
    ∃ rest, (items.flatMap ListItem.quanta).Perm (slot.toList ++ rest) ∧
      ∀ it' s, it'.slots = it.slots.set (k % q) s →
        ((items.set (k / q) it').flatMap ListItem.quanta).Perm (s.toList ++ rest) := by
  obtain ⟨outer, hitems, hset⟩ := perm_flatMap_set ListItem.quanta h
  obtain ⟨inner, hslots, hset_slot⟩ := perm_flatMap_set Option.toList hslot
  refine ⟨inner ++ outer, ?_, fun it' s hs => ?_⟩
  · rw [← List.append_assoc]
    exact hitems.trans (hslots.append_right outer)
  · rw [← List.append_assoc]
    refine (hset it').trans (List.Perm.append_right outer ?_)
    rw [ListItem.quanta, hs]
    exact hset_slot s

/-- What the nodes own, around one item. -/
theorem perm_nodeCells {i : Nat} (h : items[i]? = some it) (last : Ptr) :
    ∃ rest next, (nodeCells items last).Perm ((it.node, [some ⟨it.data, next⟩]) :: rest) ∧
      ∀ it', it'.node = it.node →
        (nodeCells (items.set i it') last).Perm ((it.node, [some ⟨it'.data, next⟩]) :: rest) ∧
          first (items.set i it') last = first items last := by
  induction items generalizing i with
  | nil => cases h
  | cons it₀ items ih =>
    cases i with
    | zero =>
      obtain rfl : it₀ = it := Option.some.inj h
      refine ⟨nodeCells items last, first items last, List.Perm.refl _, fun it' hnode => ?_⟩
      rw [List.set_cons_zero, nodeCells, first, hnode]
      exact ⟨List.Perm.refl _, rfl⟩
    | succ i =>
      obtain ⟨rest, next, hperm, hset⟩ := ih (show items[i]? = some it from h)
      refine ⟨(it₀.node, [some ⟨it₀.data, first items last⟩]) :: rest, next, ?_,
        fun it' hnode => ?_⟩
      · exact (hperm.cons _).trans (List.Perm.swap _ _ _)
      · obtain ⟨hperm', hfirst⟩ := hset it' hnode
        rw [List.set_cons_succ, nodeCells, hfirst]
        exact ⟨(hperm'.cons _).trans (List.Perm.swap _ _ _), rfl⟩

theorem ListItem.Sized.slots_length (h : it.Sized n q) {data : Ptr} {slots : List (Option Quantum)}
    (harray : it.array = some (data, slots)) : slots.length = q := by
  have hlen := h.length_eq (by rw [harray]; simp)
  rwa [ListItem.slots, harray] at hlen

/-- The array of an item, which may be new. -/
theorem ScullMem.ensureArray_spec (h : m.Layout n q items) (hq : 0 < q) (hbound : q < 2 ^ 31)
    {i : Nat} (hi : items[i]? = some it) (kmalloc : Kmalloc) (ok : Bool) :
    ∃ p m' items', m.ensureArray kmalloc ok q it.node = .ok (p, m') ∧ m'.Layout n q items' ∧
      m'.dev = m.dev ∧ first items' .null = first items .null ∧ items'.length = items.length ∧
      (∀ k, quantumAt items' q k = quantumAt items q k) ∧
      (p = .null ∧ (ok = true → kmalloc.maxSize < 8 * q) ∨
        p ≠ .null ∧ ∃ it' slots, items'[i]? = some it' ∧ it'.array = some (p, slots)) := by
  obtain ⟨rest, next, hperm, hset⟩ := perm_nodeCells hi .null
  have hqsets := h.qsets.perm hperm
  have hload : m.qsets.loadCell it.node 0 = .ok ⟨it.data, next⟩ :=
    hqsets.loadCell List.mem_cons_self rfl
  have hsized := h.sized it (List.mem_of_getElem? hi)
  unfold ensureArray
  rw [hload, ok_bind]
  cases harray : it.array with
  | some a =>
    obtain ⟨p, slots⟩ := a
    have hdata : it.data = p := by rw [ListItem.data, harray]; rfl
    have hmem : (p, slots.map fun s => some (ListItem.slotPtr s)) ∈
        items.flatMap ListItem.arrayCells := by
      refine List.mem_flatMap.mpr ⟨it, List.mem_of_getElem? hi, ?_⟩
      rw [ListItem.arrayCells, harray]
      exact List.mem_cons_self
    have hne : p ≠ .null := by
      apply ne_null_of_owns h.arrays hmem
      rw [ne_eq, List.map_eq_nil_iff, ← List.length_eq_zero_iff, hsized.slots_length harray]
      omega
    refine ⟨p, m, items, ?_, h, rfl, rfl, rfl, fun _ => rfl, Or.inr ⟨hne, it, slots, hi, harray⟩⟩
    rw [hdata, if_neg hne]
    rfl
  | none =>
    have hdata : it.data = .null := by rw [ListItem.data, harray]; rfl
    have hcells : it.arrayCells = [] := by rw [ListItem.arrayCells, harray]; rfl
    have hcount : sizeT ((q : Int) * 8) / 8 = q := by
      rw [show (q : Int) * 8 = ((q * 8 : Nat) : Int) by omega, sizeT_of_lt (by omega)]
      omega
    rw [hdata, if_pos rfl, hcount]
    rcases h.arrays.alloc_cases (kmalloc.maxSize / 8) ok q with
      ⟨halloc, hlimit⟩ | ⟨p, arrays, halloc, hne, harrays⟩
    · obtain ⟨qsets, hstore, hqsets'⟩ := hqsets.storeCell Nat.one_pos ⟨.null, next⟩
      refine ⟨.null, { m with qsets := qsets }, items, ?_, ⟨?_, h.arrays, h.quanta, h.sized⟩, rfl,
        rfl, rfl, fun _ => rfl, Or.inl ⟨rfl, fun hok => ?_⟩⟩
      · simp only [halloc, hstore, ok_bind, if_true, pure_eq_ok]
      · rw [hdata] at hperm
        exact hqsets'.perm hperm.symm
      · have hmax := hlimit hok
        omega
    · let it' : ListItem := { it with array := some (p, List.replicate q none) }
      obtain ⟨qsets, hstore, hqsets'⟩ := hqsets.storeCell Nat.one_pos ⟨p, next⟩
      obtain ⟨arrays', hclear, harrays'⟩ := harrays.store 0 (List.replicate q Ptr.null) (by simp)
      obtain ⟨hperm', hfirst⟩ := hset it' rfl
      obtain ⟨outer, harray_perm, harray_set⟩ := perm_flatMap_set ListItem.arrayCells hi
      obtain ⟨inner, hquanta_perm, hquanta_set⟩ := perm_flatMap_set ListItem.quanta hi
      have hnoquanta : it.quanta = [] := by
        rw [ListItem.quanta, ListItem.slots, harray]
        rfl
      have hnoquanta' : it'.quanta = [] := by
        show (List.replicate q none).flatMap Option.toList = []
        rw [List.flatMap_eq_nil_iff]
        intro s hs
        rw [List.eq_of_mem_replicate hs]
        rfl
      have hlayout : { m with qsets := qsets, arrays := arrays' }.Layout n q (items.set i it') := by
        constructor
        · exact hqsets'.perm hperm'.symm
        · have hcells' : it'.arrayCells =
              [(p, splice (List.replicate q none) 0 ((List.replicate q Ptr.null).map some))] := by
            show [(p, (List.replicate q none).map fun s => some (ListItem.slotPtr s))] = _
            rw [splice_zero, List.length_map, List.length_replicate, List.drop_replicate,
              Nat.sub_self, List.replicate_zero, List.append_nil, List.map_replicate,
              List.map_replicate]
            rfl
          rw [hcells] at harray_perm
          refine Heap.Owns.perm ?_ (harray_set it').symm
          rw [hcells']
          exact harrays'.perm (harray_perm.cons _)
        · refine Heap.Owns.perm ?_ (hquanta_set it').symm
          rw [hnoquanta', ← hnoquanta]
          exact h.quanta.perm hquanta_perm
        · intro x hx
          rcases List.mem_or_eq_of_mem_set hx with hx | rfl
          · exact h.sized x hx
          · refine ⟨fun _ => List.length_replicate, ?_⟩
            rw [hnoquanta']
            simp
      refine ⟨p, _, items.set i it', ?_, hlayout, rfl, hfirst, List.length_set, fun k => ?_,
        Or.inr ⟨hne, it', _, ?_, rfl⟩⟩
      · simp only [halloc, hstore, ok_bind, hne, if_false, hclear, pure_eq_ok]
      · unfold quantumAt
        by_cases hk : i = k / q
        · have hslots : it.slots = [] := by rw [ListItem.slots, harray]; rfl
          have hslots' : it'.slots = List.replicate q none := rfl
          rw [← hk, List.getElem?_set_self (List.getElem?_eq_some_iff.mp hi).1, hi,
            Option.bind_some, Option.bind_some, hslots, hslots']
          rw [List.getElem?_replicate_of_lt (Nat.mod_lt k hq)]
          rfl
        · rw [List.getElem?_set_ne hk]
      · exact List.getElem?_set_self (List.getElem?_eq_some_iff.mp hi).1

/-- What an element of an array says about the quantum. -/
theorem ScullMem.loadSlot_spec (h : m.Layout n q items) {k : Nat} (hi : items[k / q]? = some it)
    {data : Ptr} {slots : List (Option Quantum)} (harray : it.array = some (data, slots))
    (hq : 0 < q) :
    m.loadSlot data ((k % q : Nat) : Int) = .ok (ListItem.slotPtr (quantumAt items q k)) ∧
      slots[k % q]? = some (quantumAt items q k) := by
  have hlen := (h.sized it (List.mem_of_getElem? hi)).slots_length harray
  have hlt : k % q < slots.length := by
    rw [hlen]
    exact Nat.mod_lt k hq
  have hslots : it.slots = slots := by rw [ListItem.slots, harray]; rfl
  have hslot : slots[k % q]? = some (quantumAt items q k) := by
    rw [quantumAt_of_getElem? hi, hslots, List.getElem?_eq_getElem hlt]
    rfl
  have hmem : (data, slots.map fun s => some (ListItem.slotPtr s)) ∈
      items.flatMap ListItem.arrayCells := by
    refine List.mem_flatMap.mpr ⟨it, List.mem_of_getElem? hi, ?_⟩
    rw [ListItem.arrayCells, harray]
    exact List.mem_cons_self
  refine ⟨?_, hslot⟩
  rw [loadSlot, if_neg (by omega), Int.toNat_natCast]
  apply h.arrays.loadCell hmem
  rw [List.getElem?_map, hslot]
  rfl

/-- A quantum is in an array. -/
theorem exists_array {k : Nat} {x : Quantum} (hx : quantumAt items q k = some x) :
    ∃ it data slots, items[k / q]? = some it ∧ it.array = some (data, slots) ∧
      slots[k % q]? = some (some x) := by
  cases hi : items[k / q]? with
  | none =>
    rw [quantumAt, hi] at hx
    cases hx
  | some it =>
    rw [quantumAt_of_getElem? hi] at hx
    cases harray : it.array with
    | none =>
      rw [ListItem.slots, harray] at hx
      cases hx
    | some a =>
      have hslots : it.slots = a.2 := by rw [ListItem.slots, harray]; rfl
      rw [hslots, Option.join_eq_some_iff] at hx
      exact ⟨it, a.1, a.2, rfl, harray, hx⟩

/-- A quantum has `n` bytes, and so it is behind no null pointer. -/
theorem ScullMem.Layout.quantum_spec (h : m.Layout n q items) {k : Nat} {x : Quantum}
    (hx : quantumAt items q k = some x) :
    x ∈ items.flatMap ListItem.quanta ∧ x.2.length = n ∧ (0 < n → x.1 ≠ .null) := by
  obtain ⟨it, data, slots, hi, harray, hslot⟩ := exists_array hx
  have hmem : x ∈ it.quanta := by
    refine List.mem_flatMap.mpr ⟨some x, ?_, Option.mem_toList.mpr rfl⟩
    rw [ListItem.slots, harray]
    exact List.mem_of_getElem? hslot
  have hitem := List.mem_of_getElem? hi
  have hlen := (h.sized it hitem).quantum_eq x hmem
  have hflat := List.mem_flatMap.mpr ⟨it, hitem, hmem⟩
  refine ⟨hflat, hlen, fun hn => ne_null_of_owns h.quanta hflat ?_⟩
  rw [ne_eq, ← List.length_eq_zero_iff]
  omega

/-- The memory after a change of one slot. -/
theorem ScullMem.Layout.set_slot (h : m.Layout n q items) {k : Nat} (hi : items[k / q]? = some it)
    {data : Ptr} {slots : List (Option Quantum)} (harray : it.array = some (data, slots))
    (hslot : slots[k % q]? = some (quantumAt items q k)) {s : Option Quantum}
    (hs : ∀ x, s = some x → x.2.length = n) {arrays : Heap Ptr} {quanta : Heap Byte}
    (harrays : ∀ rest,
      m.arrays.Owns ((data, slots.map fun s => some (ListItem.slotPtr s)) :: rest) →
      arrays.Owns ((data, (slots.set (k % q) s).map fun s => some (ListItem.slotPtr s)) :: rest))
    (hquanta : ∀ rest, m.quanta.Owns ((quantumAt items q k).toList ++ rest) →
      quanta.Owns (s.toList ++ rest)) :
    ∃ items', { m with arrays := arrays, quanta := quanta }.Layout n q items' ∧
      first items' .null = first items .null ∧ items'.length = items.length ∧
      ∀ k', quantumAt items' q k' = if k' = k then s else quantumAt items q k' := by
  let it' : ListItem := { it with array := some (data, slots.set (k % q) s) }
  have hslots : it.slots = slots := by rw [ListItem.slots, harray]; rfl
  have hslots' : it'.slots = it.slots.set (k % q) s := by rw [hslots]; rfl
  have hcells : it.arrayCells = [(data, slots.map fun s => some (ListItem.slotPtr s))] := by
    rw [ListItem.arrayCells, harray]
    rfl
  have hsized := h.sized it (List.mem_of_getElem? hi)
  have hlt : k % q < it.slots.length := by
    rw [hslots]
    exact (List.getElem?_eq_some_iff.mp hslot).1
  obtain ⟨_, _, hnodes, hnodes_set⟩ := perm_nodeCells hi .null
  obtain ⟨harr_rest, harr, harr_set⟩ := perm_flatMap_set ListItem.arrayCells hi
  obtain ⟨hq_rest, hquant, hquant_set⟩ := perm_quanta hi (by rw [hslots]; exact hslot)
  obtain ⟨hperm', hfirst⟩ := hnodes_set it' rfl
  refine ⟨items.set (k / q) it', ⟨?_, ?_, ?_, ?_⟩, hfirst, List.length_set,
    quantumAt_set hi hslots' hlt⟩
  · have hdata : it'.data = it.data := by rw [ListItem.data, ListItem.data, harray]; rfl
    rw [hdata] at hperm'
    exact h.qsets.perm (hnodes.trans hperm'.symm)
  · have hown := h.arrays.perm harr
    rw [hcells] at hown
    exact Heap.Owns.perm (harrays _ hown) (harr_set it').symm
  · exact Heap.Owns.perm (hquanta _ (h.quanta.perm hquant)) (hquant_set it' s hslots').symm
  · intro x hx
    rcases List.mem_or_eq_of_mem_set hx with hx | rfl
    · exact h.sized x hx
    · refine ⟨fun _ => ?_, fun y hy => ?_⟩
      · rw [hslots', List.length_set]
        exact hsized.length_eq (by rw [harray]; simp)
      · rw [ListItem.quanta, hslots'] at hy
        obtain ⟨s', hs', hmem⟩ := List.mem_flatMap.mp hy
        rcases List.mem_or_eq_of_mem_set hs' with hs' | heq
        · exact hsized.quantum_eq y (List.mem_flatMap.mpr ⟨s', hs', hmem⟩)
        · rw [heq] at hmem
          exact hs y (Option.mem_toList.mp hmem)

/-- The quantum at a place, which may be new.  A new one shows what was in the memory. -/
theorem ScullMem.ensureQuantum_spec (h : m.Layout n q items) (hn : 0 < n) (hbound : n < 2 ^ 31)
    (hq : 0 < q) {k : Nat} (hi : items[k / q]? = some it) {data : Ptr}
    {slots : List (Option Quantum)} (harray : it.array = some (data, slots)) (kmalloc : Kmalloc)
    (ok : Bool) :
    ∃ p m' items', m.ensureQuantum kmalloc ok n data ((k % q : Nat) : Int) = .ok (p, m') ∧
      m'.Layout n q items' ∧ m'.dev = m.dev ∧ first items' .null = first items .null ∧
      items'.length = items.length ∧
      (p = .null ∧ (ok = true → kmalloc.maxSize < n) ∧
          (∀ k', quantumAt items' q k' = quantumAt items q k') ∨
        p ≠ .null ∧ ∃ cells, (∀ k', quantumAt items' q k' =
            if k' = k then some (p, cells) else quantumAt items q k') ∧
          (quantumAt items q k = some (p, cells) ∨
            quantumAt items q k = none ∧ cells = List.replicate n none)) := by
  obtain ⟨hload, hslot⟩ := loadSlot_spec h hi harray hq
  have hlt := (List.getElem?_eq_some_iff.mp hslot).1
  unfold ensureQuantum
  rw [hload, ok_bind]
  cases hold : quantumAt items q k with
  | some x =>
    obtain ⟨p, cells⟩ := x
    have hne : p ≠ .null := (h.quantum_spec hold).2.2 hn
    refine ⟨p, m, items, ?_, h, rfl, rfl, rfl, Or.inr ⟨hne, cells, fun k' => ?_, Or.inl rfl⟩⟩
    · show (if p = .null then _ else _) = _
      rw [if_neg hne]
      rfl
    · split
      · rename_i hk
        rw [hk, hold]
      · rfl
  | none =>
    have hsize : sizeT (n : Int) = n := sizeT_of_lt (by omega)
    rw [hold] at hslot
    -- The array gets the new pointer, whatever it is.
    have hset {s : Option Quantum} {quanta : Heap Byte} (hs : ∀ x, s = some x → x.2.length = n)
        (hquanta : ∀ rest, m.quanta.Owns rest → quanta.Owns (s.toList ++ rest)) :
        ∃ arrays items', m.arrays.storeCell data (k % q) (ListItem.slotPtr s) = .ok arrays ∧
          { m with arrays := arrays, quanta := quanta }.Layout n q items' ∧
          first items' .null = first items .null ∧ items'.length = items.length ∧
          ∀ k', quantumAt items' q k' = if k' = k then s else quantumAt items q k' := by
      have hcell (rest : List (Ptr × List (Option Ptr)))
          (hown : m.arrays.Owns ((data, slots.map fun s => some (ListItem.slotPtr s)) :: rest)) :
          ∃ arrays, m.arrays.storeCell data (k % q) (ListItem.slotPtr s) = .ok arrays ∧
            arrays.Owns
              ((data, (slots.set (k % q) s).map fun s => some (ListItem.slotPtr s)) :: rest) := by
        rw [List.map_set]
        exact hown.storeCell (by rw [List.length_map]; exact hlt) _
      have hcells : it.arrayCells = [(data, slots.map fun s => some (ListItem.slotPtr s))] := by
        rw [ListItem.arrayCells, harray]
        rfl
      obtain ⟨rest, hperm, -⟩ := perm_flatMap_set ListItem.arrayCells hi
      rw [hcells] at hperm
      obtain ⟨arrays, hstore, -⟩ := hcell rest (h.arrays.perm hperm)
      have hslot' : slots[k % q]? = some (quantumAt items q k) := by rw [hold]; exact hslot
      have harrays (rest : List (Ptr × List (Option Ptr)))
          (hown : m.arrays.Owns ((data, slots.map fun s => some (ListItem.slotPtr s)) :: rest)) :
          arrays.Owns
            ((data, (slots.set (k % q) s).map fun s => some (ListItem.slotPtr s)) :: rest) := by
        obtain ⟨arrays', hstore', hown'⟩ := hcell rest hown
        rw [hstore] at hstore'
        rw [Except.ok.inj hstore']
        exact hown'
      obtain ⟨items', hlayout, hfirst, hlen, hquantum⟩ := h.set_slot hi harray hslot' hs harrays
        fun rest hown => hquanta rest (by rw [hold] at hown; exact hown)
      exact ⟨arrays, items', hstore, hlayout, hfirst, hlen, hquantum⟩
    have hnull : ListItem.slotPtr none = .null := rfl
    rw [if_pos hnull, hsize, Int.toNat_natCast]
    rcases h.quanta.alloc_cases kmalloc.maxSize ok n with
      ⟨halloc, hlimit⟩ | ⟨p, quanta, halloc, hne, -⟩
    · obtain ⟨arrays, items', hstore, hlayout, hfirst, hlen, hquantum⟩ :=
        hset (s := none) (fun _ hno => by cases hno) (fun _ hown => hown)
      rw [hnull] at hstore
      refine ⟨.null, _, items', ?_, hlayout, rfl, hfirst, hlen,
        Or.inl ⟨rfl, hlimit, fun k' => ?_⟩⟩
      · simp only [halloc, hstore, ok_bind, pure_eq_ok]
      · rw [hquantum]
        split
        · rename_i hk
          rw [hk, hold]
        · rfl
    · have hgrant (rest : List (Ptr × List (Option Byte))) (hown : m.quanta.Owns rest) :
          quanta.Owns ((p, List.replicate n none) :: rest) := by
        rcases hown.alloc_cases kmalloc.maxSize ok n with
          ⟨hrefused, -⟩ | ⟨p', quanta', halloc', -, hown'⟩
        · rw [hrefused] at halloc
          exact absurd (Prod.mk.inj halloc).1.symm hne
        · rw [halloc] at halloc'
          obtain ⟨rfl, rfl⟩ := Prod.mk.inj halloc'
          exact hown'
      obtain ⟨arrays, items', hstore, hlayout, hfirst, hlen, hquantum⟩ :=
        hset (s := some (p, List.replicate n none))
          (fun x hx => by rw [← Option.some.inj hx]; exact List.length_replicate) hgrant
      refine ⟨p, _, items', ?_, hlayout, rfl, hfirst, hlen,
        Or.inr ⟨hne, List.replicate n none, hquantum, Or.inr ⟨rfl, rfl⟩⟩⟩
      have hstore' : m.arrays.storeCell data (k % q) p = .ok arrays := hstore
      simp only [halloc, hstore', ok_bind, pure_eq_ok]

/-- The bytes of a quantum, written or not. -/
theorem ScullMem.loadBytes_spec (h : m.Layout n q items) {k : Nat} {p : Ptr}
    {cells : List (Option Byte)} (hk : quantumAt items q k = some (p, cells)) {off count : Nat}
    (hlen : off + count ≤ n) : m.loadBytes p off count = .ok ((cells.drop off).take count) := by
  obtain ⟨hmem, hcells, -⟩ := h.quantum_spec hk
  rw [loadBytes, if_neg (by omega), Int.toNat_natCast]
  exact h.quanta.loadRaw hmem (by rw [show cells.length = n from hcells]; exact hlen)

/-- Bytes are stored in a quantum. -/
theorem ScullMem.storeBytes_spec (h : m.Layout n q items) {k : Nat} {p : Ptr}
    {cells : List (Option Byte)} (hk : quantumAt items q k = some (p, cells)) {off : Nat}
    {bytes : List Byte} (hlen : off + bytes.length ≤ n) :
    ∃ quanta items', m.storeBytes p off bytes = .ok quanta ∧
      { m with quanta := quanta }.Layout n q items' ∧
      first items' .null = first items .null ∧ items'.length = items.length ∧
      ∀ k', quantumAt items' q k' =
        if k' = k then some (p, splice cells off (bytes.map some)) else quantumAt items q k' := by
  obtain ⟨-, hcells, -⟩ := h.quantum_spec hk
  obtain ⟨it, data, slots, hi, harray, hslot⟩ := exists_array hk
  have hslot' : slots[k % q]? = some (quantumAt items q k) := by rw [hk]; exact hslot
  have hsplice : (splice cells off (bytes.map some)).length = n := by
    rw [length_splice (by rw [List.length_map, show cells.length = n from hcells]; exact hlen)]
    exact hcells
  have hstore (rest : List Quantum) (hown : m.quanta.Owns ((p, cells) :: rest)) :
      ∃ quanta, m.storeBytes p off bytes = .ok quanta ∧
        quanta.Owns ((p, splice cells off (bytes.map some)) :: rest) := by
    rw [storeBytes, if_neg (by omega), Int.toNat_natCast]
    exact hown.store off bytes (by rw [show cells.length = n from hcells]; exact hlen)
  obtain ⟨rest, hperm, -⟩ := perm_quanta hi (show it.slots[k % q]? = _ by
    rw [ListItem.slots, harray]; exact hslot)
  obtain ⟨quanta, hrun, -⟩ := hstore rest (h.quanta.perm hperm)
  have hquanta (rest : List Quantum) (hown : m.quanta.Owns ((p, cells) :: rest)) :
      quanta.Owns ((p, splice cells off (bytes.map some)) :: rest) := by
    obtain ⟨quanta', hrun', hown'⟩ := hstore rest hown
    rw [hrun] at hrun'
    rw [Except.ok.inj hrun']
    exact hown'
  -- The pointer in the array stays.
  have hsame : (slots.set (k % q) (some (p, splice cells off (bytes.map some)))).map
      (fun s => some (ListItem.slotPtr s)) = slots.map fun s => some (ListItem.slotPtr s) := by
    apply List.ext_getElem?
    intro j
    rw [List.getElem?_map, List.getElem?_map]
    by_cases hj : k % q = j
    · rw [← hj, List.getElem?_set_self (List.getElem?_eq_some_iff.mp hslot).1, hslot]
      rfl
    · rw [List.getElem?_set_ne hj]
  have hnew : ∀ x : Quantum, some (p, splice cells off (bytes.map some)) = some x →
      x.2.length = n := by
    intro x hx
    rw [← Option.some.inj hx]
    exact hsplice
  obtain ⟨items', hlayout, hfirst, hcount, hquantum⟩ := h.set_slot hi harray hslot'
    hnew (fun rest hown => by rw [hsame]; exact hown)
    (fun rest hown => hquanta rest (by rw [hk] at hown; exact hown))
  exact ⟨quanta, items', hrun, hlayout, hfirst, hcount, hquantum⟩

end Layout

end AesdChar.Scull
