import AesdChar.Scull.Bare.Layout

/-!
# A bare device is a sparse file

`ScullFile` says what the device is for: a byte can be stored at every position, and
storage comes in quanta.  A position in a quantum that was allocated holds the byte
that was stored there last, or nothing at all if nobody has stored one.

`ScullMem.Holds` connects it to the memory, and `ScullMem.Holds.read` and
`ScullMem.Holds.write` say what the two calls do to the file.
-/

namespace AesdChar.Scull

open CodeLib CodeLib.CInt

/-! ## Sparse files -/

/-- What is at each position: `none` is a hole, and `some none` is a position of a
quantum that nobody has written. -/
structure ScullFile where
  quantum : Nat
  cells : Nat → Option (Option Byte)
  size : Nat

namespace ScullFile

/-- Nothing is stored. -/
def empty (quantum : Nat) : ScullFile := ⟨quantum, fun _ => none, 0⟩

/-- How much of a transfer stays within the quantum. -/
def room (f : ScullFile) (pos count : Nat) : Nat := min count (f.quantum - pos % f.quantum)

/-- A read ends with the file or with the quantum, and does not fill holes. -/
def read (f : ScullFile) (pos count : Nat) : List (Option Byte) :=
  if pos < f.size ∧ f.cells pos ≠ none then
    (List.range (f.room pos (min count (f.size - pos)))).map fun i => (f.cells (pos + i)).join
  else []

/-- A read that delivers something ends within the file. -/
theorem read_end (f : ScullFile) (pos count : Nat) :
    pos + (f.read pos count).length ≤ max pos f.size := by
  unfold read
  split
  · rw [List.length_map, List.length_range]
    show pos + min (min count (f.size - pos)) _ ≤ _
    omega
  · exact Nat.le_max_left _ _

/-- Bytes are stored in a quantum, which is there from now on. -/
def store (f : ScullFile) (pos : Nat) (bytes : List Byte) : ScullFile :=
  { f with cells := fun p =>
      if p / f.quantum = pos / f.quantum then
        some (if pos ≤ p ∧ p < pos + bytes.length then bytes[p - pos]? else (f.cells p).join)
      else f.cells p }

/-- The file reaches up to `pos`. -/
def grow (f : ScullFile) (pos : Nat) : ScullFile := { f with size := max f.size pos }

end ScullFile

/-! ## Positions -/

/-- Where a position lies. -/
theorem locate_spec {n q pos : Nat} (hn : 0 < n) (hq : 0 < q) (hsize : n * q < 2 ^ 31)
    (hpos : pos / (n * q) < 2 ^ 32) :
    locate n q pos = some ⟨pos / n / q, ((pos / n % q : Nat) : Int), ((pos % n : Nat) : Int)⟩ := by
  have hitem : 0 < n * q := Nat.mul_pos hn hq
  have hprod : int32 ((n : Int) * q) = ((n * q : Nat) : Int) := by
    rw [← Nat.cast_mul]
    exact int32_of_lt hsize
  have hrest : int32 (((pos % (n * q) : Nat)) : Int) = ((pos % (n * q) : Nat) : Int) :=
    int32_of_lt (Nat.lt_trans (Nat.mod_lt _ hitem) hsize)
  unfold locate
  rw [hprod, if_neg (by omega), ← Int.ofNat_tmod, ← Int.ofNat_tdiv, hrest, uint32_of_lt hpos]
  show some (Place.mk _ (((pos % (n * q) : Nat) : Int).tdiv n)
    (((pos % (n * q) : Nat) : Int).tmod n)) = _
  rw [← Int.ofNat_tmod, ← Int.ofNat_tdiv, Nat.mod_mul_right_div_self, Nat.mod_mul_right_mod,
    Nat.div_div_eq_div_mul]

/-- A seek ends at a position that a file can have. -/
theorem scullLlseek_range {size : Nat} {fpos whence newpos : Int} {off : Int64}
    (h : scullLlseek size fpos off.toInt whence = some newpos) : 0 ≤ newpos ∧ newpos < 2 ^ 63 := by
  obtain ⟨hnew, hpos⟩ := Option.filter_eq_some_iff.mp h
  refine ⟨of_decide_eq_true hpos, ?_⟩
  split at hnew
  · obtain rfl := Option.some.inj hnew
    exact off.toInt_lt
  · split at hnew
    · obtain rfl := Option.some.inj hnew
      exact (isSigned64_signed64 _).2
    · split at hnew
      · obtain rfl := Option.some.inj hnew
        exact (isSigned64_signed64 _).2
      · cases hnew

/-! ## The memory holds a file -/

/-- The device with `q` slots to an item holds the file. -/
structure ScullMem.Holds (m : ScullMem) (q : Nat) (items : List ListItem) (f : ScullFile) :
    Prop extends m.Layout f.quantum q items where
  quantum_pos : 0 < f.quantum
  qset_pos : 0 < q
  itemsize_lt : f.quantum * q < 2 ^ 31
  quantum_eq : m.dev.quantum = f.quantum
  qset_eq : m.dev.qset = q
  data_eq : m.dev.data = first items .null
  size_eq : m.dev.size = f.size
  size_reach : f.size ≤ 2 ^ 32 * (f.quantum * q)
  size_le : f.size ≤ items.length * (f.quantum * q)
  cells_eq : ∀ p, f.cells p =
    (quantumAt items q (p / f.quantum)).map fun x => x.2[p % f.quantum]?.join

section Holds

variable {m : ScullMem} {q : Nat} {items : List ListItem} {f : ScullFile} {kmalloc : Kmalloc}
  {answer : ScullAnswer} {pos count : Nat}

/-- A position that the `int` of the loop can count to. -/
def InReach (n q pos : Nat) : Prop := pos / (n * q) < 2 ^ 32

theorem InReach.le {n : Nat} (hn : 0 < n * q) (h : InReach n q pos) :
    (pos / n + 1) * n ≤ 2 ^ 32 * (n * q) := by
  have hn : 0 < n := Nat.pos_of_mul_pos_right hn
  have hk : pos / n < 2 ^ 32 * q := by
    rw [Nat.div_lt_iff_lt_mul hn]
    unfold InReach at h
    rw [Nat.div_lt_iff_lt_mul (by assumption)] at h
    rw [Nat.mul_assoc, Nat.mul_comm q n]
    exact h
  calc (pos / n + 1) * n ≤ (2 ^ 32 * q) * n := Nat.mul_le_mul_right n hk
    _ = 2 ^ 32 * (n * q) := by rw [Nat.mul_assoc, Nat.mul_comm q n]

/-- The positions of one quantum. -/
theorem div_add_of_lt {n i : Nat} (hn : 0 < n) (hi : pos % n + i < n) :
    (pos + i) / n = pos / n ∧ (pos + i) % n = pos % n + i := by
  have hsum : pos + i = pos % n + i + n * (pos / n) := by
    have hdiv := Nat.mod_add_div pos n
    omega
  rw [hsum, Nat.add_mul_div_left _ _ hn, Nat.add_mul_mod_self_left, Nat.div_eq_of_lt hi,
    Nat.mod_eq_of_lt hi]
  exact ⟨Nat.zero_add _, rfl⟩

/-- A piece of a quantum is a piece of the file. -/
theorem ScullMem.Holds.window_eq (h : m.Holds q items f) {x : Quantum}
    (hx : quantumAt items q (pos / f.quantum) = some x) {c : Nat}
    (hc : pos % f.quantum + c ≤ f.quantum) :
    (x.2.drop (pos % f.quantum)).take c =
      (List.range c).map fun i => (f.cells (pos + i)).join := by
  have hlen := (h.quantum_spec hx).2.1
  apply List.ext_getElem?
  intro i
  rw [List.getElem?_map, List.getElem?_take]
  by_cases hi : i < c
  · obtain ⟨hdiv, hmod⟩ :=
      div_add_of_lt h.quantum_pos (show pos % f.quantum + i < f.quantum by omega)
    have hlt : pos % f.quantum + i < x.2.length := by omega
    rw [if_pos hi, List.getElem?_range hi, List.getElem?_drop, Option.map_some, h.cells_eq, hdiv,
      hmod, hx, Option.map_some, List.getElem?_eq_getElem hlt, Option.join_some, Option.join_some]
  · rw [if_neg hi, List.getElem?_eq_none (by rw [List.length_range]; omega)]
    rfl

theorem ScullMem.Holds.quantum_lt (h : m.Holds q items f) : f.quantum < 2 ^ 31 :=
  Nat.lt_of_le_of_lt (Nat.le_mul_of_pos_right _ h.qset_pos) h.itemsize_lt

theorem ScullMem.Holds.qset_lt (h : m.Holds q items f) : q < 2 ^ 31 :=
  Nat.lt_of_le_of_lt (Nat.le_mul_of_pos_left _ h.quantum_pos) h.itemsize_lt

theorem ScullMem.Holds.size_lt (h : m.Holds q items f) : f.size < 2 ^ 63 := by
  have hreach := h.size_reach
  have hsize := h.itemsize_lt
  omega

/-- A list item that is there, and its node. -/
theorem ScullMem.Holds.loadNode (h : m.Holds q items f) {i : Nat} {it : ListItem}
    (hi : items[i]? = some it) : ∃ next, m.qsets.loadCell it.node 0 = .ok ⟨it.data, next⟩ := by
  obtain ⟨rest, next, hperm, -⟩ := perm_nodeCells hi .null
  exact ⟨next, (h.qsets.perm hperm).loadCell List.mem_cons_self rfl⟩

theorem ScullMem.Layout.data_eq_null_iff {n : Nat} (h : m.Layout n q items) (hq : 0 < q) {i : Nat}
    {it : ListItem} (hi : items[i]? = some it) : it.data = .null ↔ it.array = none := by
  cases harray : it.array with
  | none =>
    rw [ListItem.data, harray]
    exact iff_of_true rfl rfl
  | some a =>
    obtain ⟨p, slots⟩ := a
    have hmem : (p, slots.map fun s => some (ListItem.slotPtr s)) ∈
        items.flatMap ListItem.arrayCells := by
      refine List.mem_flatMap.mpr ⟨it, List.mem_of_getElem? hi, ?_⟩
      rw [ListItem.arrayCells, harray]
      exact List.mem_cons_self
    have hlen := (h.sized it (List.mem_of_getElem? hi)).slots_length harray
    have hne : p ≠ .null := by
      apply ne_null_of_owns h.arrays hmem
      rw [ne_eq, List.map_eq_nil_iff, ← List.length_eq_zero_iff]
      omega
    rw [ListItem.data, harray]
    exact iff_of_false hne (by simp)

/-- A hole is a position without a quantum. -/
theorem ScullMem.Holds.cells_eq_none_iff (h : m.Holds q items f) :
    f.cells pos = none ↔ quantumAt items q (pos / f.quantum) = none := by
  rw [h.cells_eq, Option.map_eq_none_iff]

/-- What `scull_read` does.  It leaves the memory alone. -/
theorem ScullMem.Holds.read (h : m.Holds q items f) (hpos : pos < 2 ^ 63)
    (hcount : count < 2 ^ 63) :
    ∃ r, m.read kmalloc answer f.quantum q count pos = .ok r ∧ r.mem = m ∧
      (r.ret = (f.read pos count).length ∧ r.bytes = f.read pos count ∧
          r.pos = pos + (f.read pos count).length ∨
        r.ret = -EFAULT ∧ r.pos = pos ∧ answer.uncopied ≠ 0 ∧ r.bytes <+: f.read pos count ∧
          r.bytes.length < (f.read pos count).length) := by
  have hn := h.quantum_pos
  have hitem : 0 < f.quantum * q := Nat.mul_pos hn h.qset_pos
  have hsize := h.size_lt
  -- A read that finds nothing.
  have hnothing (hempty : f.read pos count = []) :
      ∃ r : ReadResult, (Except.ok ⟨0, [], pos, m⟩ : Except Fault ReadResult) = .ok r ∧
        r.mem = m ∧ (r.ret = (f.read pos count).length ∧ r.bytes = f.read pos count ∧
            r.pos = pos + (f.read pos count).length ∨
          r.ret = -EFAULT ∧ r.pos = pos ∧ answer.uncopied ≠ 0 ∧ r.bytes <+: f.read pos count ∧
            r.bytes.length < (f.read pos count).length) := by
    rw [hempty]
    exact ⟨_, rfl, rfl, Or.inl ⟨rfl, rfl, by simp⟩⟩
  unfold ScullMem.read
  rw [h.size_eq, sizeT_of_lt (by omega)]
  by_cases hend : f.size ≤ pos
  · rw [if_pos hend]
    exact hnothing (if_neg fun hno => absurd hno.1 (by omega))
  · have hclip : (if f.size < sizeT ((pos : Int) + count) then sizeT ((f.size : Int) - pos)
        else count) = min count (f.size - pos) := by
      rw [← Nat.cast_add, sizeT_of_lt (by omega), sizeT_sub (by omega) (by omega)]
      split <;> omega
    have hitem_lt : pos / f.quantum / q < items.length := by
      have hle := h.size_le
      rw [Nat.div_div_eq_div_mul, Nat.div_lt_iff_lt_mul hitem]
      omega
    obtain ⟨fresh, p, m', hrun, -, -, -, hstay, hfound⟩ :=
      m.follow_spec kmalloc answer.node (pos / f.quantum / q) h.toLayout h.data_eq
    obtain ⟨rfl, hsame⟩ := hstay hitem_lt
    rw [hsame] at hrun
    rw [List.append_nil] at hfound
    rcases hfound with ⟨-, hno, -⟩ | ⟨hne, it, hi, rfl⟩
    · omega
    obtain ⟨next, hload⟩ := h.loadNode hi
    have hreach : pos / (f.quantum * q) < 2 ^ 32 := by
      have hle := h.size_reach
      rw [Nat.div_lt_iff_lt_mul hitem]
      omega
    rw [if_neg hend, hclip, locate_spec hn h.qset_pos h.itemsize_lt hreach]
    simp only [ScullMem.readAt, hrun, ok_bind, hne, if_false, hload]
    cases harray : it.array with
    | none =>
      rw [if_pos ((h.data_eq_null_iff h.qset_pos hi).mpr harray)]
      apply hnothing
      refine if_neg fun hno => hno.2 (h.cells_eq_none_iff.mpr ?_)
      rw [quantumAt_of_getElem? hi, ListItem.slots, harray]
      rfl
    | some a =>
      obtain ⟨data, slots⟩ := a
      have hdata : it.data = data := by rw [ListItem.data, harray]; rfl
      have hdata_ne : it.data ≠ .null := by
        rw [ne_eq, h.data_eq_null_iff h.qset_pos hi, harray]
        simp
      obtain ⟨hslot, -⟩ := ScullMem.loadSlot_spec h.toLayout hi harray h.qset_pos
      rw [if_neg hdata_ne, hdata, hslot, ok_bind]
      cases hx : quantumAt items q (pos / f.quantum) with
      | none =>
        rw [if_pos (show ListItem.slotPtr none = .null from rfl)]
        apply hnothing
        exact if_neg fun hno => hno.2 (h.cells_eq_none_iff.mpr hx)
      | some x =>
        have hx_ne : ListItem.slotPtr (some x) ≠ .null := (h.quantum_spec hx).2.2 hn
        have hmod := Nat.mod_lt pos hn
        let c := f.room pos (min count (f.size - pos))
        have hroom : min (min count (f.size - pos))
            (sizeT ((f.quantum : Int) - (pos % f.quantum : Nat))) = c := by
          rw [sizeT_sub (by omega) (by have hlt := h.quantum_lt; omega)]
          rfl
        have hc : pos % f.quantum + c ≤ f.quantum := by
          show pos % f.quantum + min _ _ ≤ _
          omega
        have hcount_le : c ≤ count := by
          show min (min count _) _ ≤ _
          omega
        have hread : f.read pos count = (List.range c).map fun i => (f.cells (pos + i)).join :=
          if_pos ⟨by omega, fun hno => by rw [h.cells_eq_none_iff, hx] at hno; cases hno⟩
        have hlen : (f.read pos count).length = c := by
          rw [hread, List.length_map, List.length_range]
        have hbytes : m.loadBytes (ListItem.slotPtr (some x)) ((pos % f.quantum : Nat) : Int) c =
            .ok (f.read pos count) := by
          rw [hread, ← h.window_eq hx hc]
          exact ScullMem.loadBytes_spec h.toLayout hx hc
        simp only [hx_ne, if_false, hroom, hbytes, ok_bind]
        by_cases hleft : min answer.uncopied c = 0
        · rw [if_neg (not_not_intro hleft)]
          have hsum := signed64_add_of_lt (show pos + c < 2 ^ 63 by omega)
          rw [hsum]
          refine ⟨⟨c, f.read pos count, ((pos + c : Nat) : Int), m⟩, rfl, rfl, Or.inl ⟨?_, rfl, ?_⟩⟩
          · rw [hlen]
          · rw [hlen, Nat.cast_add]
        · rw [if_pos hleft]
          refine ⟨_, rfl, rfl, Or.inr ⟨rfl, rfl, by omega, List.take_prefix _ _, ?_⟩⟩
          show ((f.read pos count).take (c - min answer.uncopied c)).length < _
          rw [List.length_take, hlen]
          omega

/-- The memory behind a change that leaves the size alone. -/
theorem ScullMem.Holds.update {m' : ScullMem} {items' : List ListItem} {f' : ScullFile}
    (h : m.Holds q items f) (hlayout : m'.Layout f.quantum q items')
    (hdev : m'.dev = { m.dev with data := first items' .null })
    (hlen : items.length ≤ items'.length) (hquantum : f'.quantum = f.quantum)
    (hsize : f'.size = f.size)
    (hcells : ∀ p, f'.cells p =
      (quantumAt items' q (p / f.quantum)).map fun x => x.2[p % f.quantum]?.join) :
    m'.Holds q items' f' := by
  have hmul := Nat.mul_le_mul_right (f.quantum * q) hlen
  have hle := h.size_le
  refine ⟨?_, ?_, h.qset_pos, ?_, ?_, ?_, ?_, ?_, ?_, ?_, ?_⟩
  · rw [hquantum]
    exact hlayout
  · rw [hquantum]
    exact h.quantum_pos
  · rw [hquantum]
    exact h.itemsize_lt
  · rw [hdev, hquantum]
    exact h.quantum_eq
  · rw [hdev]
    exact h.qset_eq
  · rw [hdev]
  · rw [hdev, hsize]
    exact h.size_eq
  · rw [hsize, hquantum]
    exact h.size_reach
  · rw [hsize, hquantum]
    omega
  · rw [hquantum]
    exact hcells

/-- The file behind a store to a quantum, which may be new. -/
theorem ScullMem.Holds.cells_store {items' : List ListItem} (h : m.Holds q items f) {p : Ptr}
    {cells : List (Option Byte)} {bytes : List Byte}
    (hlen : pos % f.quantum + bytes.length ≤ f.quantum)
    (hnew : ∀ k, quantumAt items' q k = if k = pos / f.quantum then
      some (p, splice cells (pos % f.quantum) (bytes.map some)) else quantumAt items q k)
    (hold : quantumAt items q (pos / f.quantum) = some (p, cells) ∨
      quantumAt items q (pos / f.quantum) = none ∧ cells = List.replicate f.quantum none)
    (i : Nat) : (f.store pos bytes).cells i =
      (quantumAt items' q (i / f.quantum)).map fun x => x.2[i % f.quantum]?.join := by
  have hcells : cells.length = f.quantum := by
    rcases hold with hx | ⟨-, rfl⟩
    · exact (h.quantum_spec hx).2.1
    · exact List.length_replicate
  show (if i / f.quantum = pos / f.quantum then _ else _) = _
  by_cases hk : i / f.quantum = pos / f.quantum
  · have hi := Nat.mod_add_div i f.quantum
    have hp := Nat.mod_add_div pos f.quantum
    rw [hk] at hi
    have hbytes : pos % f.quantum + (bytes.map (some : Byte → Option Byte)).length ≤
        cells.length := by
      rw [List.length_map]
      omega
    rw [if_pos hk, hnew, if_pos hk, Option.map_some, getElem?_splice hbytes, List.length_map]
    by_cases hin : pos ≤ i ∧ i < pos + bytes.length
    · rw [if_pos hin, if_pos (by omega), List.getElem?_map,
        show i % f.quantum - pos % f.quantum = i - pos by omega]
      cases bytes[i - pos]? <;> rfl
    · rw [if_neg hin, if_neg (by omega), h.cells_eq, hk]
      rcases hold with hx | ⟨hx, rfl⟩
      · rw [hx]
        rfl
      · rw [hx, List.getElem?_replicate_of_lt (Nat.mod_lt _ h.quantum_pos)]
        rfl
  · rw [if_neg hk, hnew, if_neg hk, h.cells_eq]

/-- Every allocation of a write succeeds. -/
structure ScullAnswer.Granted (answer : ScullAnswer) (kmalloc : Kmalloc) (n q : Nat) : Prop where
  node : ∀ k, answer.node k = true
  array : answer.array = true
  quantum : answer.quantum = true
  node_le : 16 ≤ kmalloc.maxSize
  array_le : 8 * q ≤ kmalloc.maxSize
  quantum_le : n ≤ kmalloc.maxSize

/-- To make room and to store is to store. -/
theorem ScullFile.store_store_nil (f : ScullFile) (pos : Nat) (bytes : List Byte) :
    (f.store pos []).store pos bytes = f.store pos bytes := by
  have hcells : ((f.store pos []).store pos bytes).cells = (f.store pos bytes).cells := by
    funext p
    show (if p / f.quantum = pos / f.quantum then some (if _ then _ else
      ((f.store pos []).cells p).join) else (f.store pos []).cells p) =
        if p / f.quantum = pos / f.quantum then some (if _ then _ else (f.cells p).join)
          else f.cells p
    by_cases hk : p / f.quantum = pos / f.quantum
    · have hmade : (f.store pos []).cells p = some (f.cells p).join := by
        show (if p / f.quantum = pos / f.quantum then some (if _ then _ else _) else _) = _
        rw [if_pos hk, if_neg (by simp)]
      rw [if_pos hk, if_pos hk, hmade]
      rfl
    · rw [if_neg hk, if_neg hk]
      exact if_neg hk
  unfold store at hcells ⊢
  rw [ScullFile.mk.injEq]
  exact ⟨rfl, hcells, rfl⟩

/-- The places of a write are found, or made.  The file may have a new quantum then. -/
theorem ScullMem.Holds.makePlace (h : m.Holds q items f) (kmalloc : Kmalloc)
    (answer : ScullAnswer) (pos : Nat) :
    ∃ dptr m₁, m.follow kmalloc answer.node (pos / f.quantum / q) = .ok (dptr, m₁) ∧
      (dptr = .null ∧ ¬ answer.Granted kmalloc f.quantum q ∧ (∃ items', m₁.Holds q items' f) ∨
        dptr ≠ .null ∧ ∃ data m₂, m₁.ensureArray kmalloc answer.array q dptr = .ok (data, m₂) ∧
          (data = .null ∧ ¬ answer.Granted kmalloc f.quantum q ∧ (∃ items', m₂.Holds q items' f) ∨
            data ≠ .null ∧ ∃ p m₃, m₂.ensureQuantum kmalloc answer.quantum f.quantum data
                ((pos / f.quantum % q : Nat) : Int) = .ok (p, m₃) ∧
              (p = .null ∧ ¬ answer.Granted kmalloc f.quantum q ∧
                  (∃ items', m₃.Holds q items' f) ∨
                p ≠ .null ∧ ∃ items' cells, m₃.Holds q items' (f.store pos []) ∧
                  quantumAt items' q (pos / f.quantum) = some (p, cells)))) := by
  have hn := h.quantum_pos
  obtain ⟨fresh, dptr, m₁, hfollow, hlayout₁, hfresh, hdev₁, -, hfound⟩ :=
    m.follow_spec kmalloc answer.node (pos / f.quantum / q) h.toLayout h.data_eq
  have hholds₁ : m₁.Holds q (items ++ fresh) f := by
    refine h.update hlayout₁ hdev₁ (by rw [List.length_append]; omega) rfl rfl fun p => ?_
    rw [quantumAt_append hfresh]
    exact h.cells_eq p
  refine ⟨dptr, m₁, hfollow, ?_⟩
  rcases hfound with ⟨hnull, -, hlimit⟩ | ⟨hne, it, hi, hnode⟩
  · refine Or.inl ⟨hnull, fun hgranted => ?_, _, hholds₁⟩
    have hmax := hlimit hgranted.node
    have hle := hgranted.node_le
    omega
  refine Or.inr ⟨hne, ?_⟩
  obtain ⟨data, m₂, items₂, harray, hlayout₂, hdev₂, hfirst₂, hlen₂, hquanta₂, hfound⟩ :=
    ScullMem.ensureArray_spec hlayout₁ h.qset_pos h.qset_lt hi kmalloc answer.array
  have hholds₂ : m₂.Holds q items₂ f := by
    refine hholds₁.update hlayout₂ ?_ (by omega) rfl rfl fun p => ?_
    · rw [hdev₂, hfirst₂, ← hholds₁.data_eq]
    · rw [hquanta₂]
      exact hholds₁.cells_eq p
  rw [← hnode] at harray
  refine ⟨data, m₂, harray, ?_⟩
  rcases hfound with ⟨hnull, hlimit⟩ | ⟨hne₂, it', slots, hi', hslots⟩
  · refine Or.inl ⟨hnull, fun hgranted => ?_, _, hholds₂⟩
    have hmax := hlimit hgranted.array
    have hle := hgranted.array_le
    omega
  refine Or.inr ⟨hne₂, ?_⟩
  obtain ⟨p, m₃, items₃, hquantum, hlayout₃, hdev₃, hfirst₃, hlen₃, hfound⟩ :=
    ScullMem.ensureQuantum_spec hlayout₂ hn h.quantum_lt h.qset_pos hi' hslots kmalloc
      answer.quantum
  have hdev : m₃.dev = { m₂.dev with data := first items₃ .null } := by
    rw [hdev₃, hfirst₃, ← hholds₂.data_eq]
  refine ⟨p, m₃, hquantum, ?_⟩
  rcases hfound with ⟨hnull, hlimit, hquanta₃⟩ | ⟨hne₃, cells, hnew, hold⟩
  · refine Or.inl ⟨hnull, fun hgranted => ?_, items₃, ?_⟩
    · have hmax := hlimit hgranted.quantum
      have hle := hgranted.quantum_le
      omega
    · refine hholds₂.update hlayout₃ hdev (by omega) rfl rfl fun i => ?_
      rw [hquanta₃]
      exact hholds₂.cells_eq i
  · refine Or.inr ⟨hne₃, items₃, cells, ?_, by rw [hnew, if_pos rfl]⟩
    refine hholds₂.update hlayout₃ hdev (by omega) rfl rfl fun i => ?_
    have hmod := Nat.mod_lt pos hn
    have hstored : ∀ k, quantumAt items₃ q k = if k = pos / f.quantum then
        some (p, splice cells (pos % f.quantum) (([] : List Byte).map some))
        else quantumAt items₂ q k := by
      rw [List.map_nil, splice_nil]
      exact hnew
    exact hholds₂.cells_store (by simp; omega) hstored hold i

/-- The size of the file grows. -/
theorem ScullMem.Holds.grow (h : m.Holds q items f) {pos : Nat}
    (hpos : pos ≤ 2 ^ 32 * (f.quantum * q)) (hle : pos ≤ items.length * (f.quantum * q)) :
    { m with dev := { m.dev with size := if m.dev.size < pos then pos else m.dev.size } }.Holds q
      items (f.grow pos) := by
  have hsize_le := h.size_le
  refine ⟨⟨h.qsets, h.arrays, h.quanta, h.sized⟩, h.quantum_pos, h.qset_pos, h.itemsize_lt,
    h.quantum_eq, h.qset_eq, h.data_eq, ?_, ?_, ?_, h.cells_eq⟩
  · show (if m.dev.size < pos then pos else m.dev.size) = max f.size pos
    rw [h.size_eq]
    split <;> omega
  · exact Nat.max_le.mpr ⟨h.size_reach, hpos⟩
  · show max f.size pos ≤ _
    exact Nat.max_le.mpr ⟨hsize_le, hle⟩

/-- What `scull_write` does.  Without memory it does nothing to the file.  Otherwise it
stores bytes in one quantum, and the file grows unless the copy fails. -/
theorem ScullMem.Holds.write (h : m.Holds q items f) (hpos : InReach f.quantum q pos)
    (kmalloc : Kmalloc) (answer : ScullAnswer) (buf : List Byte) :
    ∃ r, m.write kmalloc answer f.quantum q buf pos = .ok r ∧
      (r.ret = -ENOMEM ∧ r.stored = none ∧ r.pos = pos ∧ ¬ answer.Granted kmalloc f.quantum q ∧
          (∃ items', r.mem.Holds q items' f) ∨
        ∃ bytes, r.stored = some bytes ∧ bytes.length = f.room pos buf.length ∧
          (r.ret = bytes.length ∧ bytes = buf.take bytes.length ∧ r.pos = pos + bytes.length ∧
              (∃ items', r.mem.Holds q items' ((f.store pos bytes).grow (pos + bytes.length))) ∨
            r.ret = -EFAULT ∧ r.pos = pos ∧ answer.uncopied ≠ 0 ∧
              (∃ k, k < bytes.length ∧
                bytes = buf.take k ++ List.replicate (bytes.length - k) 0) ∧
              ∃ items', r.mem.Holds q items' (f.store pos bytes))) := by
  have hn := h.quantum_pos
  have hmod := Nat.mod_lt pos hn
  have hdiv := Nat.mod_add_div pos f.quantum
  have hreach := InReach.le (Nat.mul_pos hn h.qset_pos) hpos
  have hsize := h.itemsize_lt
  have hnext : (pos / f.quantum + 1) * f.quantum = f.quantum * (pos / f.quantum) + f.quantum := by
    rw [Nat.add_one_mul, Nat.mul_comm]
  rw [ScullMem.write, locate_spec hn h.qset_pos h.itemsize_lt hpos]
  obtain ⟨dptr, m₁, hfollow, hplace⟩ := h.makePlace kmalloc answer pos
  simp only [ScullMem.writeAt, hfollow, ok_bind]
  rcases hplace with ⟨rfl, hrefused, hholds⟩ | ⟨hne₁, data, m₂, harray, hplace⟩
  · rw [if_pos rfl]
    exact ⟨_, rfl, Or.inl ⟨rfl, rfl, rfl, hrefused, hholds⟩⟩
  simp only [hne₁, if_false, harray, ok_bind]
  rcases hplace with ⟨rfl, hrefused, hholds⟩ | ⟨hne₂, p, m₃, hquantum, hplace⟩
  · rw [if_pos rfl]
    exact ⟨_, rfl, Or.inl ⟨rfl, rfl, rfl, hrefused, hholds⟩⟩
  simp only [hne₂, if_false, hquantum, ok_bind]
  rcases hplace with ⟨rfl, hrefused, hholds⟩ | ⟨hne₃, items₃, cells, hholds, hx⟩
  · rw [if_pos rfl]
    exact ⟨_, rfl, Or.inl ⟨rfl, rfl, rfl, hrefused, hholds⟩⟩
  obtain ⟨c, hc_eq⟩ : ∃ c, c = f.room pos buf.length := ⟨_, rfl⟩
  let copied := copyFromUser (buf.take c) answer.uncopied
  have hroom : min buf.length (sizeT ((f.quantum : Int) - (pos % f.quantum : Nat))) = c := by
    have hlt := h.quantum_lt
    rw [sizeT_sub (by omega) (by omega), hc_eq]
    rfl
  have hc : pos % f.quantum + c ≤ f.quantum ∧ c ≤ buf.length := by
    rw [hc_eq]
    show pos % f.quantum + min _ _ ≤ _ ∧ min _ _ ≤ _
    omega
  have hle : pos + c ≤ (pos / f.quantum + 1) * f.quantum := by omega
  have hlimit := Nat.le_trans hle hreach
  have hend : pos + c < 2 ^ 63 := by omega
  have hpos_size : sizeT ((pos + c : Nat) : Int) = pos + c := sizeT_of_lt (by omega)
  have hlen : copied.2.length = c := by
    show (copyFromUser (buf.take c) answer.uncopied).2.length = c
    rw [length_copyFromUser, List.length_take]
    omega
  obtain ⟨quanta, items₄, hstore, hlayout₄, hfirst₄, hcount₄, hquanta₄⟩ :=
    @ScullMem.storeBytes_spec _ _ _ _ hholds.toLayout _ _ _ hx _ copied.2 (by rw [hlen]; exact hc.1)
  let m₄ : ScullMem := { m₃ with quanta := quanta }
  have hholds₄ : m₄.Holds q items₄ (f.store pos copied.2) := by
    rw [← f.store_store_nil]
    refine hholds.update hlayout₄ ?_ (by omega) rfl rfl fun i => ?_
    · show m₃.dev = _
      rw [hfirst₄, ← hholds.data_eq]
    · exact hholds.cells_store (by rw [hlen]; exact hc.1) hquanta₄ (Or.inl hx) i
  simp only [hne₃, if_false, hroom]
  show ∃ r, (m₃.storeBytes p ((pos % f.quantum : Nat) : Int) copied.2 >>= _) = .ok r ∧ _
  rw [hstore, ok_bind]
  by_cases hleft : copied.1 = 0
  · have hall : copied.2 = buf.take c := copyFromUser_of_zero hleft
    have hsum := signed64_add_of_lt hend
    rw [if_neg (not_not_intro hleft)]
    simp only [hsum, hpos_size]
    refine ⟨_, rfl, Or.inr ⟨copied.2, rfl, hlen.trans hc_eq, Or.inl ⟨?_, ?_, ?_, items₄, ?_⟩⟩⟩
    · rw [hlen]
    · rw [hlen, hall]
    · rw [hlen, Nat.cast_add]
    · rw [hlen]
      refine hholds₄.grow hlimit ?_
      have hquanta : pos / f.quantum < items₄.length * q := by
        rw [← Nat.div_lt_iff_lt_mul h.qset_pos, hcount₄]
        exact lt_length_of_quantumAt hx
      calc pos + c ≤ (pos / f.quantum + 1) * f.quantum := hle
        _ ≤ items₄.length * q * f.quantum := Nat.mul_le_mul_right _ hquanta
        _ = items₄.length * (f.quantum * q) := by rw [Nat.mul_assoc, Nat.mul_comm q]
  · obtain ⟨huncopied, k, hk, hbytes⟩ := copyFromUser_of_ne_zero hleft
    have htake : (buf.take c).length = copied.2.length := by
      rw [hlen, List.length_take, Nat.min_eq_left hc.2]
    rw [htake] at hk hbytes
    rw [if_pos hleft]
    refine ⟨_, rfl, Or.inr ⟨copied.2, rfl, hlen.trans hc_eq,
      Or.inr ⟨rfl, rfl, huncopied, ⟨k, hk, ?_⟩, items₄, hholds₄⟩⟩⟩
    rw [List.take_take, Nat.min_eq_left (by omega)] at hbytes
    exact hbytes

end Holds

end AesdChar.Scull
