import AesdChar.CircularBuffer.Fifo
import AesdChar.CodeLib.Segments

/-!
# The search of the circular buffer

`aesd_circular_buffer_find_entry_offset_for_fpos` walks the ring with a
shrinking offset.  On a buffer that holds a queue it is `locate` on the sizes
of the queue, with the entry number turned into a slot.  The loop never
subtracts more than it has, so the unsigned subtraction does not wrap.

`search` is the same function with its out-parameter as a memory cell and
with the operands of its subtractions, for statements about these.
-/

namespace AesdChar.AesdCircularBuffer

open CodeLib CodeLib.CInt CodeLib.Ring

variable {buffer : AesdCircularBuffer}
  {q : BoundedQueue AesdBufferEntry maxWriteOperations}

/-- The sizes of the entries of a queue. -/
def sizes (q : BoundedQueue AesdBufferEntry maxWriteOperations) : List Nat :=
  q.items.map AesdBufferEntry.size

/-- The loop from the `k`-th oldest entry on. -/
private theorem findLoop_eq (h : buffer.Holds q) (left k : Nat) {charOffset : Nat}
    (hk : k + left = q.items.length) (hoff : charOffset < 2 ^ 64) :
    buffer.findLoop left charOffset ((buffer.outOffs + k) % maxWriteOperations) =
      (locate ((sizes q).drop k) charOffset).map fun p =>
        ((buffer.outOffs + (k + p.1)) % maxWriteOperations, p.2) := by
  induction left generalizing k charOffset with
  | zero =>
    rw [findLoop, List.drop_eq_nil_of_le (by rw [sizes, List.length_map]; omega)]
    rfl
  | succ left ih =>
    have hlt : k < (sizes q).length := by
      rw [sizes, List.length_map]
      omega
    have hitem : k < q.items.length := by omega
    have hsize : (sizes q)[k] = q.items[k].size := by simp [sizes]
    rw [findLoop, h.slot_eq hitem, List.drop_eq_getElem_cons hlt,
      hsize, locate]
    split
    · rfl
    · rename_i hge
      have hnext : ((buffer.outOffs + k) % maxWriteOperations + 1) % maxWriteOperations =
          (buffer.outOffs + (k + 1)) % maxWriteOperations := by
        rw [Nat.mod_add_mod, Nat.add_assoc]
      rw [sizeT_sub (by omega) hoff, hnext, ih (k + 1) (by omega) (by omega), Option.map_map]
      congr 1
      funext p
      simp only [Function.comp]
      congr 2
      omega

/-- The search is `locate` on the sizes of the queue. -/
theorem Holds.find_eq (h : buffer.Holds q) {charOffset : Nat} (hoff : charOffset < 2 ^ 64) :
    buffer.findEntryOffsetForFpos charOffset =
      (locate (sizes q) charOffset).map fun p =>
        ((buffer.outOffs + p.1) % maxWriteOperations, p.2) := by
  unfold findEntryOffsetForFpos
  split
  · rename_i hempty
    -- The two indices agree and the flag is down, so the queue is empty.
    have hlen : q.items.length = 0 := by
      rcases h.ring.in_eq_out_iff.mp hempty.2 with h0 | h10
      · exact h0
      · exact absurd (h.ring.full_iff.mpr h10) (by simp [hempty.1])
    rw [sizes, List.eq_nil_of_length_eq_zero hlen]
    rfl
  · have hloop := findLoop_eq h q.items.length 0 (by omega) hoff
    rw [h.maxValidEntry_eq]
    simpa [Nat.mod_eq_of_lt h.ring.out_lt] using hloop

/-! ## The out-parameter and the subtractions -/

/-- A call of the search: the slot of the returned entry, the value of
`*entry_offset_byte_rtn` afterwards, and the operands of the subtractions on
`char_offset`, in order. -/
structure Search where
  entry : Option Nat
  entryOffsetByteRtn : Nat
  subtractions : List (Nat × Nat)
deriving DecidableEq, Repr

/-- The loop of the search.  `rtn` is what the out-parameter holds before. -/
def searchLoop (buffer : AesdCircularBuffer) (rtn : Nat) : (left charOffset idx : Nat) → Search
  | 0, _, _ => ⟨none, rtn, []⟩
  | left + 1, charOffset, idx =>
    let entry := buffer.slot idx
    if charOffset < entry.size then ⟨some idx, charOffset, []⟩
    else
      let r := buffer.searchLoop rtn left (sizeT ((charOffset : Int) - entry.size))
        ((idx + 1) % maxWriteOperations)
      { r with subtractions := (charOffset, entry.size) :: r.subtractions }

/-- `aesd_circular_buffer_find_entry_offset_for_fpos`, observed. -/
def search (buffer : AesdCircularBuffer) (charOffset rtn : Nat) : Search :=
  if buffer.full = false ∧ buffer.inOffs = buffer.outOffs then ⟨none, rtn, []⟩
  else buffer.searchLoop rtn buffer.maxValidEntry charOffset buffer.outOffs

private theorem searchLoop_eq (buffer : AesdCircularBuffer) (rtn left charOffset idx : Nat) :
    (buffer.searchLoop rtn left charOffset idx).entry =
      (buffer.findLoop left charOffset idx).map Prod.fst ∧
    (buffer.searchLoop rtn left charOffset idx).entryOffsetByteRtn =
      ((buffer.findLoop left charOffset idx).map Prod.snd).getD rtn ∧
    ∀ p ∈ (buffer.searchLoop rtn left charOffset idx).subtractions, p.2 ≤ p.1 := by
  induction left generalizing charOffset idx with
  | zero => simp [searchLoop, findLoop]
  | succ left ih =>
    rw [searchLoop, findLoop]
    by_cases hlt : charOffset < (buffer.slot idx).size
    · simp [hlt]
    · obtain ⟨hentry, hrtn, hsub⟩ := ih (sizeT ((charOffset : Int) - (buffer.slot idx).size))
        ((idx + 1) % maxWriteOperations)
      simp only [if_neg hlt]
      refine ⟨hentry, hrtn, fun p hp => ?_⟩
      rcases List.mem_cons.mp hp with rfl | hp
      · show (buffer.slot idx).size ≤ charOffset
        omega
      · exact hsub p hp

/-- The search, observed: the out-parameter is written only with an entry, and
no subtraction takes away more than there is. -/
theorem search_eq (buffer : AesdCircularBuffer) (charOffset rtn : Nat) :
    (buffer.search charOffset rtn).entry =
      (buffer.findEntryOffsetForFpos charOffset).map Prod.fst ∧
    (buffer.search charOffset rtn).entryOffsetByteRtn =
      ((buffer.findEntryOffsetForFpos charOffset).map Prod.snd).getD rtn ∧
    ∀ p ∈ (buffer.search charOffset rtn).subtractions, p.2 ≤ p.1 := by
  unfold search findEntryOffsetForFpos
  split
  · simp
  · exact searchLoop_eq buffer rtn _ _ _

/-- The search finds an entry by its number and an offset in it exactly if
these name the position. -/
theorem Holds.find_eq_some_iff (h : buffer.Holds q) {charOffset i o : Nat}
    (hoff : charOffset < 2 ^ 64) (hi : i < q.items.length) :
    buffer.findEntryOffsetForFpos charOffset =
        some ((buffer.outOffs + i) % maxWriteOperations, o) ↔
      locate (sizes q) charOffset = some (i, o) := by
  rw [h.find_eq hoff, Option.map_eq_some_iff]
  constructor
  · rintro ⟨⟨j, o'⟩, hj, he⟩
    obtain ⟨size, hsize, -⟩ := locate_eq_some_iff.mp hj
    have hjlt : j < q.items.length := by
      have := (List.getElem?_eq_some_iff.mp hsize).1
      rwa [sizes, List.length_map] at this
    have hle := q.length_le
    simp only [Prod.mk.injEq] at he
    obtain ⟨hslot, rfl⟩ := he
    -- Steps below ten from the read index lead to different slots.
    have hij : j = i := by
      rcases Nat.lt_trichotomy i j with hlt | heq | hgt
      · exact absurd hslot.symm (step_ne hlt (by omega))
      · exact heq.symm
      · exact absurd hslot (step_ne hgt (by omega))
    rwa [hij] at hj
  · intro hloc
    exact ⟨(i, o), hloc, rfl⟩

/-- The lookup is exact.  On a buffer after any sequence of calls of
`addEntry` it returns the `i`-th oldest of the last ten entries with offset
`o` exactly if these name the position; it returns nothing, and leaves the
out-parameter as it was, exactly from the total size on; and no subtraction
wraps. -/
theorem addEntries_find_exact (es : List AesdBufferEntry) (charOffset : UInt64) (rtn : Nat) :
    let buffer := (init.addEntries es).2
    let entries := buffer.validEntries
    let sizes := entries.map AesdBufferEntry.size
    let r := buffer.search charOffset.toNat rtn
    entries = es.rtake maxWriteOperations ∧
    (∀ i o, i < entries.length →
      entries[i]? = some (buffer.slot ((buffer.outOffs + i) % maxWriteOperations)) ∧
      (r.entry = some ((buffer.outOffs + i) % maxWriteOperations) ∧ r.entryOffsetByteRtn = o ↔
        ∃ size, sizes[i]? = some size ∧ o < size ∧
          charOffset.toNat = (sizes.take i).sum + o)) ∧
    (r.entry = none ↔ sizes.sum ≤ charOffset.toNat) ∧
    (r.entry = none → r.entryOffsetByteRtn = rtn) ∧
    ∀ p ∈ r.subtractions, p.2 ≤ p.1 := by
  intro buffer entries sizes r
  have h : buffer.Holds (BoundedQueue.ofList _ es) := addEntries_holds holds_init es
  have hentries : entries = (BoundedQueue.ofList maxWriteOperations es).items := h.validEntries_eq
  have hsizes : sizes = AesdCircularBuffer.sizes (BoundedQueue.ofList maxWriteOperations es) := by
    show entries.map AesdBufferEntry.size = _
    rw [hentries]
    rfl
  have hoff : charOffset.toNat < 2 ^ 64 := charOffset.toNat_lt
  obtain ⟨hentry, hrtn, hsub⟩ := search_eq buffer charOffset.toNat rtn
  refine ⟨hentries, fun i o hi => ⟨?_, ?_⟩, ?_, fun hnone => ?_, hsub⟩
  · rw [hentries] at hi ⊢
    rw [h.slot_eq hi]
    exact List.getElem?_eq_getElem hi
  · have hi' : i < (BoundedQueue.ofList maxWriteOperations es).items.length := by
      rwa [hentries] at hi
    rw [hsizes, ← locate_eq_some_iff, ← h.find_eq_some_iff hoff hi', hentry, hrtn]
    cases hfind : buffer.findEntryOffsetForFpos charOffset.toNat with
    | none => simp
    | some p => simp [Prod.ext_iff]
  · rw [hentry, Option.map_eq_none_iff, h.find_eq hoff, Option.map_eq_none_iff,
      locate_eq_none_iff, hsizes]
  · rw [hentry, Option.map_eq_none_iff] at hnone
    rw [hrtn, hnone]
    rfl

end AesdChar.AesdCircularBuffer
