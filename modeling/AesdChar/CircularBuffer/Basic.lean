import AesdChar.CodeLib.CInt
import AesdChar.CodeLib.Heap

/-!
# The circular buffer of the driver

The data type and the three functions of `aesd-circular-buffer.c`, and the
loop macro of its header.

The `uint8_t` indices are natural numbers.  Both are always the result of a
remainder by ten, so no conversion to `uint8_t` changes them.  A pointer to
an entry is the index of its slot.  The out-parameter of the search is the
second component of its result; the search leaves it unwritten exactly when
it returns `none`.
-/

namespace AesdChar

open CodeLib CodeLib.CInt

/-- `AESDCHAR_MAX_WRITE_OPERATIONS_SUPPORTED`. -/
abbrev maxWriteOperations : Nat := 10

/-- `struct aesd_buffer_entry`. -/
structure AesdBufferEntry where
  buffptr : Ptr
  size : Nat
deriving DecidableEq, Repr

/-- An entry of all zero bytes. -/
def AesdBufferEntry.zero : AesdBufferEntry := ⟨.null, 0⟩

/-- `struct aesd_circular_buffer`. -/
structure AesdCircularBuffer where
  entry : Vector AesdBufferEntry maxWriteOperations
  inOffs : Nat
  outOffs : Nat
  full : Bool
deriving DecidableEq, Repr

namespace AesdCircularBuffer

/-- `buffer->entry[i]`. -/
def slot (buffer : AesdCircularBuffer) (i : Nat) : AesdBufferEntry :=
  buffer.entry[i]?.getD .zero

/-- `buffer->entry[i] = e`. -/
def setSlot (buffer : AesdCircularBuffer) (i : Nat) (e : AesdBufferEntry) : AesdCircularBuffer :=
  { buffer with entry := buffer.entry.setIfInBounds i e }

/-- `aesd_circular_buffer_init`: all bytes become zero. -/
def init : AesdCircularBuffer :=
  ⟨Vector.replicate maxWriteOperations .zero, 0, 0, false⟩

/-- The number of valid entries, as the search computes it. -/
def maxValidEntry (buffer : AesdCircularBuffer) : Nat :=
  if buffer.full then maxWriteOperations
  else (buffer.inOffs + maxWriteOperations - buffer.outOffs) % maxWriteOperations

/-- The `while` loop of the search, with `left` rounds to go. -/
def findLoop (buffer : AesdCircularBuffer) : (left charOffset idx : Nat) → Option (Nat × Nat)
  | 0, _, _ => none
  | left + 1, charOffset, idx =>
    let entry := buffer.slot idx
    if charOffset < entry.size then some (idx, charOffset)
    else findLoop buffer left (sizeT ((charOffset : Int) - entry.size))
      ((idx + 1) % maxWriteOperations)

/-- `aesd_circular_buffer_find_entry_offset_for_fpos`. -/
def findEntryOffsetForFpos (buffer : AesdCircularBuffer) (charOffset : Nat) :
    Option (Nat × Nat) :=
  if buffer.full = false ∧ buffer.inOffs = buffer.outOffs then none
  else findLoop buffer buffer.maxValidEntry charOffset buffer.outOffs

/-- `aesd_circular_buffer_add_entry`, with the returned pointer first. -/
def addEntry (buffer : AesdCircularBuffer) (e : AesdBufferEntry) : Ptr × AesdCircularBuffer :=
  let retval := if buffer.full then (buffer.slot buffer.outOffs).buffptr else .null
  let buffer := buffer.setSlot buffer.inOffs e
  let buffer := { buffer with inOffs := (buffer.inOffs + 1) % maxWriteOperations }
  let buffer :=
    if buffer.full then { buffer with outOffs := (buffer.outOffs + 1) % maxWriteOperations }
    else buffer
  let buffer := if buffer.inOffs = buffer.outOffs then { buffer with full := true } else buffer
  (retval, buffer)

/-- A sequence of calls of `addEntry`, with the returned pointers in order. -/
def addEntries : AesdCircularBuffer → List AesdBufferEntry → List Ptr × AesdCircularBuffer
  | buffer, [] => ([], buffer)
  | buffer, e :: es =>
    let (old, buffer) := buffer.addEntry e
    let (olds, buffer) := buffer.addEntries es
    (old :: olds, buffer)

/-- The slots in the order of `AESD_CIRCULAR_BUFFER_FOREACH`. -/
def foreach (buffer : AesdCircularBuffer) : List AesdBufferEntry :=
  (List.range maxWriteOperations).map buffer.slot

/-- The entries met when walking from `outOffs` over the valid count. -/
def validEntries (buffer : AesdCircularBuffer) : List AesdBufferEntry :=
  (List.range buffer.maxValidEntry).map fun i =>
    buffer.slot ((buffer.outOffs + i) % maxWriteOperations)

/-! ## Field lemmas -/

theorem slot_setSlot (buffer : AesdCircularBuffer) (e : AesdBufferEntry) {i : Nat}
    (hi : i < maxWriteOperations) (j : Nat) :
    (buffer.setSlot i e).slot j = if j = i then e else buffer.slot j := by
  unfold slot setSlot
  rw [Vector.getElem?_setIfInBounds]
  by_cases hij : i = j
  · subst hij
    simp [hi]
  · rw [if_neg hij, if_neg (Ne.symm hij)]

@[simp] theorem slot_init (i : Nat) : init.slot i = .zero := by
  unfold slot init
  rw [Vector.getElem?_replicate]
  split <;> rfl

/-- What one call does to the registers and the slots. -/
theorem addEntry_snd (buffer : AesdCircularBuffer) (e : AesdBufferEntry) :
    (buffer.addEntry e).2 =
      { buffer with
        entry := (buffer.setSlot buffer.inOffs e).entry
        inOffs := (buffer.inOffs + 1) % maxWriteOperations
        outOffs :=
          if buffer.full then (buffer.outOffs + 1) % maxWriteOperations else buffer.outOffs
        full :=
          if (buffer.inOffs + 1) % maxWriteOperations =
              (if buffer.full then (buffer.outOffs + 1) % maxWriteOperations
                else buffer.outOffs)
            then true else buffer.full } := by
  unfold addEntry setSlot
  cases hfull : buffer.full
  · by_cases hwrap : (buffer.inOffs + 1) % maxWriteOperations = buffer.outOffs <;> simp [hwrap]
  · by_cases hwrap : (buffer.inOffs + 1) % maxWriteOperations =
        (buffer.outOffs + 1) % maxWriteOperations <;> simp [hwrap]

/-- The returned pointer. -/
theorem addEntry_fst (buffer : AesdCircularBuffer) (e : AesdBufferEntry) :
    (buffer.addEntry e).1 =
      if buffer.full then (buffer.slot buffer.outOffs).buffptr else .null := rfl

end AesdCircularBuffer

end AesdChar
