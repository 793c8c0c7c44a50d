import AesdChar.CircularBuffer.Fifo

/-!
# Adding an entry and clearing the buffer, store by store

`aesd_circular_buffer_add_entry` runs under the lock of the driver and
`aesd_circular_buffer_init` does not, so the stores of the two can alternate.
Here each of them is a sequence of steps.

A step of `add_entry` is one of its statements, and the assignment of the new
entry is two of them, one for each field.  `addEntryRest_loadOldest` says that
the steps in a row are `addEntry`.  A step of `init` clears one field, and
`foldl_clear` says that all of them are `init`.

`clear_of_isZero` is why the two can alternate at all: a store of zero bytes
over zero bytes is no step for the other side.
-/

namespace AesdChar

open CodeLib CodeLib.Ring

/-! ## `aesd_circular_buffer_init` -/

/-- A field of `struct aesd_circular_buffer`. -/
inductive BufferField
  | buffptr (i : Nat)
  | size (i : Nat)
  | inOffs
  | outOffs
  | full
deriving DecidableEq, Repr

namespace AesdCircularBuffer

/-- The fields, in the order of their addresses. -/
def fields : List BufferField :=
  (List.range maxWriteOperations).flatMap (fun i => [.buffptr i, .size i]) ++
    [.inOffs, .outOffs, .full]

/-- Store zero bytes in one field. -/
def clear (buffer : AesdCircularBuffer) : BufferField → AesdCircularBuffer
  | .buffptr i => buffer.setSlot i { buffer.slot i with buffptr := .null }
  | .size i => buffer.setSlot i { buffer.slot i with size := 0 }
  | .inOffs => { buffer with inOffs := 0 }
  | .outOffs => { buffer with outOffs := 0 }
  | .full => { buffer with full := false }

/-- Whether a field holds zero bytes. -/
def IsZero (buffer : AesdCircularBuffer) : BufferField → Prop
  | .buffptr i => (buffer.slot i).buffptr = .null
  | .size i => (buffer.slot i).size = 0
  | .inOffs => buffer.inOffs = 0
  | .outOffs => buffer.outOffs = 0
  | .full => buffer.full = false

instance (buffer : AesdCircularBuffer) (field : BufferField) : Decidable (buffer.IsZero field) := by
  cases field <;> exact inferInstanceAs (Decidable (_ = _))

/-- Two buffers with the same slots and registers. -/
theorem ext_slot {buffer buffer' : AesdCircularBuffer}
    (hslot : ∀ i, i < maxWriteOperations → buffer.slot i = buffer'.slot i)
    (hin : buffer.inOffs = buffer'.inOffs) (hout : buffer.outOffs = buffer'.outOffs)
    (hfull : buffer.full = buffer'.full) : buffer = buffer' := by
  obtain ⟨entry, _, _, _⟩ := buffer
  obtain ⟨entry', _, _, _⟩ := buffer'
  obtain rfl : entry = entry' := by
    ext1 i hi
    have := hslot i hi
    simpa [slot, hi] using this
  obtain ⟨rfl, rfl, rfl⟩ : _ ∧ _ ∧ _ := ⟨hin, hout, hfull⟩
  rfl

/-- Two stores fill a slot. -/
theorem setSlot_fields (buffer : AesdCircularBuffer) (e : AesdBufferEntry) (i : Nat) :
    (buffer.setSlot i { buffer.slot i with buffptr := e.buffptr }).setSlot i
        { (buffer.setSlot i { buffer.slot i with buffptr := e.buffptr }).slot i with
          size := e.size } = buffer.setSlot i e := by
  by_cases hi : i < maxWriteOperations
  · rw [slot_setSlot buffer _ hi, if_pos rfl]
    unfold setSlot
    rw [Vector.setIfInBounds_setIfInBounds]
  · unfold setSlot
    simp only [Vector.setIfInBounds_eq_of_size_le (Nat.le_of_not_lt hi)]

/-- The stores to the first slots. -/
theorem slot_foldl_clear (buffer : AesdCircularBuffer) {n : Nat} (hn : n ≤ maxWriteOperations)
    (j : Nat) :
    (((List.range n).flatMap fun i => [.buffptr i, .size i]).foldl clear buffer).slot j =
      if j < n then .zero else buffer.slot j := by
  induction n with
  | zero => rfl
  | succ n ih =>
    specialize ih (Nat.le_of_succ_le hn)
    rw [List.range_succ, List.flatMap_append, List.foldl_append]
    generalize ((List.range n).flatMap fun i => [.buffptr i, .size i]).foldl clear buffer =
      cleared at ih ⊢
    have hlast : [.buffptr n, .size n].foldl clear cleared = cleared.setSlot n .zero :=
      cleared.setSlot_fields .zero n
    rw [List.flatMap_singleton, hlast, slot_setSlot cleared _ hn, ih]
    split_ifs <;> first | rfl | omega

/-- The stores to all fields are the `memset`. -/
theorem foldl_clear (buffer : AesdCircularBuffer) : fields.foldl clear buffer = init := by
  have hslots := slot_foldl_clear buffer (le_refl maxWriteOperations)
  unfold fields
  rw [List.foldl_append]
  generalize ((List.range maxWriteOperations).flatMap fun i => [.buffptr i, .size i]).foldl clear
    buffer = cleared at hslots ⊢
  refine ext_slot (fun i hi => ?_) rfl rfl rfl
  rw [slot_init]
  exact (hslots i).trans (if_pos hi)

/-- A slot that is set to what it holds. -/
theorem setSlot_slot (buffer : AesdCircularBuffer) (i : Nat) :
    buffer.setSlot i (buffer.slot i) = buffer := by
  refine ext_slot (fun j hj => ?_) rfl rfl rfl
  by_cases hi : i < maxWriteOperations
  · rw [slot_setSlot buffer _ hi]
    split_ifs with hji
    · rw [hji]
    · rfl
  · rw [setSlot, Vector.setIfInBounds_eq_of_size_le (Nat.le_of_not_lt hi)]

/-- A store of zero bytes over zero bytes changes nothing. -/
theorem clear_of_isZero {buffer : AesdCircularBuffer} {field : BufferField}
    (h : buffer.IsZero field) : buffer.clear field = buffer := by
  cases field with
  | buffptr i =>
    have hslot : { buffer.slot i with buffptr := Ptr.null } = buffer.slot i := by
      rw [← show (buffer.slot i).buffptr = .null from h]
    rw [clear, hslot, setSlot_slot]
  | size i =>
    have hslot : { buffer.slot i with size := 0 } = buffer.slot i := by
      rw [← show (buffer.slot i).size = 0 from h]
    rw [clear, hslot, setSlot_slot]
  | inOffs =>
    have hfield : buffer.inOffs = 0 := h
    rw [clear, ← hfield]
  | outOffs =>
    have hfield : buffer.outOffs = 0 := h
    rw [clear, ← hfield]
  | full =>
    have hfield : buffer.full = false := h
    rw [clear, ← hfield]

/-- Clearing the pointer of a slot leaves a null pointer among the entries. -/
theorem Holds.clear_buffptr {buffer : AesdCircularBuffer}
    {q : BoundedQueue AesdBufferEntry maxWriteOperations} (h : buffer.Holds q) {i : Nat}
    (hne : (buffer.slot i).buffptr ≠ .null) :
    ∃ e ∈ q.items, ⟨.null, e.size⟩ ∈ (buffer.clear (.buffptr i)).validEntries := by
  have hi : i < maxWriteOperations := by
    by_contra hge
    rw [slot, Vector.getElem?_eq_none (Nat.le_of_not_lt hge)] at hne
    exact hne rfl
  obtain ⟨k, hk, hki⟩ : ∃ k, k < q.items.length ∧
      (buffer.outOffs + k) % maxWriteOperations = i := by
    by_contra hnone
    rw [h.clean i hi fun k hk hki => hnone ⟨k, hk, hki⟩] at hne
    exact hne rfl
  have hslot : q.items[k] = buffer.slot i := by rw [← h.slot_eq hk, hki]
  refine ⟨q.items[k], List.getElem_mem hk, List.mem_map.mpr ⟨k, ?_, ?_⟩⟩
  · rw [List.mem_range]
    exact hk.trans_eq h.maxValidEntry_eq.symm
  · rw [hslot, show (buffer.clear (.buffptr i)).outOffs = buffer.outOffs from rfl, hki, clear,
      slot_setSlot buffer _ hi, if_pos rfl]

end AesdCircularBuffer

/-! ## `aesd_circular_buffer_add_entry` -/

/-- Where `aesd_circular_buffer_add_entry` stands.  Behind `loadOldest` it has
its return value, and behind the first half of the assignment the index of the
slot that it fills. -/
inductive AddEntryPc
  | loadOldest
  | storeBuffptr (retval : Ptr)
  | storeSize (retval : Ptr) (i : Nat)
  | advanceIn (retval : Ptr)
  | advanceOut (retval : Ptr)
  | setFull (retval : Ptr)
  | returned (retval : Ptr)
deriving DecidableEq, Repr

/-- The return value, once it is known. -/
def AddEntryPc.retval : AddEntryPc → Ptr
  | .loadOldest => .null
  | .storeBuffptr retval | .storeSize retval _ | .advanceIn retval | .advanceOut retval
  | .setFull retval | .returned retval => retval

/-- How many steps are left. -/
def AddEntryPc.left : AddEntryPc → Nat
  | .loadOldest => 6
  | .storeBuffptr _ => 5
  | .storeSize _ _ => 4
  | .advanceIn _ => 3
  | .advanceOut _ => 2
  | .setFull _ => 1
  | .returned _ => 0

namespace AesdCircularBuffer

/-- One step of `aesd_circular_buffer_add_entry`. -/
def addEntryStep (e : AesdBufferEntry) :
    AddEntryPc × AesdCircularBuffer → AddEntryPc × AesdCircularBuffer
  | (.loadOldest, buffer) =>
    (.storeBuffptr (if buffer.full then (buffer.slot buffer.outOffs).buffptr else .null), buffer)
  | (.storeBuffptr retval, buffer) =>
    let i := buffer.inOffs
    (.storeSize retval i, buffer.setSlot i { buffer.slot i with buffptr := e.buffptr })
  | (.storeSize retval i, buffer) =>
    (.advanceIn retval, buffer.setSlot i { buffer.slot i with size := e.size })
  | (.advanceIn retval, buffer) =>
    (.advanceOut retval, { buffer with inOffs := (buffer.inOffs + 1) % maxWriteOperations })
  | (.advanceOut retval, buffer) =>
    (.setFull retval,
      if buffer.full then { buffer with outOffs := (buffer.outOffs + 1) % maxWriteOperations }
      else buffer)
  | (.setFull retval, buffer) =>
    (.returned retval,
      if buffer.inOffs = buffer.outOffs then { buffer with full := true } else buffer)
  | (.returned retval, buffer) => (.returned retval, buffer)

/-- The steps that are left, in a row: the return value and the buffer. -/
def addEntryRest (e : AesdBufferEntry) (pc : AddEntryPc) (buffer : AesdCircularBuffer) :
    Ptr × AesdCircularBuffer :=
  let (pc, buffer) := (addEntryStep e)^[pc.left] (pc, buffer)
  (pc.retval, buffer)

variable (e : AesdBufferEntry) (buffer : AesdCircularBuffer)

/-- A step leaves the other ones to do. -/
theorem addEntryRest_step {pc : AddEntryPc} (hpc : pc.left ≠ 0) :
    addEntryRest e (addEntryStep e (pc, buffer)).1 (addEntryStep e (pc, buffer)).2 =
      addEntryRest e pc buffer := by
  cases pc with
  | returned => exact absurd rfl hpc
  | _ => rfl

/-- A step is one less to do. -/
theorem addEntryStep_left {pc : AddEntryPc} (hpc : pc.left ≠ 0) :
    (addEntryStep e (pc, buffer)).1.left < pc.left := by
  cases pc with
  | returned => exact absurd rfl hpc
  | _ => exact Nat.lt_succ_self _

/-- The steps in a row are `addEntry`. -/
theorem addEntryRest_loadOldest : addEntryRest e .loadOldest buffer = buffer.addEntry e := by
  have hfill := buffer.setSlot_fields e buffer.inOffs
  unfold addEntry
  rw [← hfill]
  rfl

end AesdCircularBuffer

end AesdChar
