import AesdChar.CircularBuffer.Basic
import AesdChar.CodeLib.Ring

/-!
# The circular buffer is a bounded queue

`Holds buffer q` says that the registers and slots of `buffer` represent the
bounded queue `q`, and that every slot outside the valid range still holds
the zero bytes of the initialisation.  The second part is what lets the other
functions of the driver tell a valid slot by its non-null pointer.

`Holds.addEntry` is the rule of one call.  `addEntries_holds` and
`addEntries_olds` are the inductions over a sequence of calls.
-/

namespace AesdChar.AesdCircularBuffer

open CodeLib CodeLib.Ring

/-- The buffer holds the queue `q`, and its other slots are zero. -/
structure Holds (buffer : AesdCircularBuffer)
    (q : BoundedQueue AesdBufferEntry maxWriteOperations) : Prop where
  ring : Represents maxWriteOperations buffer.slot buffer.inOffs buffer.outOffs buffer.full q
  clean : ∀ i, i < maxWriteOperations →
    (∀ k, k < q.items.length → (buffer.outOffs + k) % maxWriteOperations ≠ i) →
    buffer.slot i = .zero

theorem holds_init : init.Holds (BoundedQueue.ofList _ []) where
  ring := Represents.empty (by decide) _
  clean i _ _ := slot_init i

namespace Holds

variable {buffer : AesdCircularBuffer}
  {q : BoundedQueue AesdBufferEntry maxWriteOperations}

/-- The valid count of the search is the length of the queue. -/
theorem maxValidEntry_eq (h : buffer.Holds q) : buffer.maxValidEntry = q.items.length :=
  h.ring.length_eq.symm

/-- The walk over the valid count meets the queue, oldest entry first. -/
theorem validEntries_eq (h : buffer.Holds q) : buffer.validEntries = q.items := by
  have hwin := h.ring.window_eq
  rw [← h.maxValidEntry_eq] at hwin
  exact hwin

/-- The slot of the `k`-th oldest entry. -/
theorem slot_eq (h : buffer.Holds q) {k : Nat} (hk : k < q.items.length) :
    buffer.slot ((buffer.outOffs + k) % maxWriteOperations) = q.items[k] := by
  have hget := h.ring.getElem? hk
  rw [List.getElem?_eq_getElem hk] at hget
  exact (Option.some.inj hget).symm

/-- The slot at `k` steps from the read index, for `k` behind the valid
range. -/
theorem slot_eq_zero (h : buffer.Holds q) {k : Nat} (hk : q.items.length ≤ k)
    (hlt : k < maxWriteOperations) :
    buffer.slot ((buffer.outOffs + k) % maxWriteOperations) = .zero := by
  refine h.clean _ (Nat.mod_lt _ (by decide)) fun j hj => ?_
  exact step_ne (by omega) hlt

/-- The slots are the queue and zero bytes, in some order. -/
theorem foreach_perm (h : buffer.Holds q) :
    buffer.foreach.Perm
      (q.items ++ List.replicate (maxWriteOperations - q.items.length) .zero) := by
  have hle := q.length_le
  have hturn := (perm_turn maxWriteOperations buffer.outOffs).symm.map buffer.slot
  have hslots : (((List.range maxWriteOperations).map fun k =>
      (buffer.outOffs + k) % maxWriteOperations).map buffer.slot) =
      q.items ++ List.replicate (maxWriteOperations - q.items.length) .zero := by
    refine List.ext_getElem (by simp; omega) fun k hk _ => ?_
    have hk : k < maxWriteOperations := by simpa using hk
    rw [List.getElem_map, List.getElem_map, List.getElem_range]
    rcases Nat.lt_or_ge k q.items.length with hlt | hge
    · rw [h.slot_eq hlt, List.getElem_append_left hlt]
    · rw [h.slot_eq_zero hge hk, List.getElem_append_right hge, List.getElem_replicate]
  rw [hslots] at hturn
  exact hturn

/-- The rule of one call. -/
theorem addEntry (h : buffer.Holds q) (e : AesdBufferEntry) :
    (buffer.addEntry e).2.Holds (q.push e) := by
  have hin := h.ring.in_lt
  have hslot : ∀ j, (buffer.addEntry e).2.slot j =
      if j = buffer.inOffs then e else buffer.slot j := by
    intro j
    rw [addEntry_snd]
    exact slot_setSlot buffer e hin j
  have hring : Represents maxWriteOperations (buffer.addEntry e).2.slot
      (buffer.addEntry e).2.inOffs (buffer.addEntry e).2.outOffs (buffer.addEntry e).2.full
      (q.push e) := by
    have hnew : (buffer.addEntry e).2.slot buffer.inOffs = e := by rw [hslot, if_pos rfl]
    have hpush := h.ring.push hnew fun c hc => by rw [hslot, if_neg hc]
    rw [addEntry_snd] at hpush ⊢
    exact hpush
  refine ⟨hring, fun i hi hout => ?_⟩
  -- A slot stays outside only if the buffer had room.
  have hroom : q.items.length < maxWriteOperations := by
    by_contra hge
    have hfull := h.ring.full_iff.mpr (Nat.le_antisymm q.length_le (Nat.le_of_not_lt hge))
    have hlen : (q.push e).items.length = maxWriteOperations := by
      have := q.length_le
      rw [BoundedQueue.items_push, length_rtake, List.length_append, List.length_singleton]
      omega
    obtain ⟨k, hk, hki⟩ := exists_step hring.out_lt hi
    exact hout k (by omega) hki
  have hitems := BoundedQueue.items_push_of_lt hroom e
  have hfull : buffer.full = false := by
    rw [← Bool.not_eq_true, h.ring.full_iff]
    omega
  have houtOffs : (buffer.addEntry e).2.outOffs = buffer.outOffs := by
    rw [addEntry_snd]
    simp [hfull]
  rw [houtOffs, hitems, List.length_append, List.length_singleton] at hout
  have hne : i ≠ buffer.inOffs := by
    rw [h.ring.in_eq]
    exact (hout q.items.length (by omega)).symm
  rw [hslot, if_neg hne]
  exact h.clean i hi fun k hk => hout k (by omega)

/-- The returned pointer is that of the entry that gives way. -/
theorem addEntry_fst_eq (h : buffer.Holds q) (e : AesdBufferEntry) :
    (buffer.addEntry e).1 = (q.displaced.map AesdBufferEntry.buffptr).getD .null := by
  rw [addEntry_fst, h.ring.displaced_eq]
  split <;> rfl

end Holds

/-! ## Sequences of calls -/

/-- A run adds its entries to the history. -/
theorem addEntries_holds {buffer : AesdCircularBuffer} {hist : List AesdBufferEntry}
    (h : buffer.Holds (BoundedQueue.ofList _ hist)) (es : List AesdBufferEntry) :
    (buffer.addEntries es).2.Holds (BoundedQueue.ofList _ (hist ++ es)) := by
  induction es generalizing buffer hist with
  | nil => simpa [addEntries] using h
  | cons e es ih =>
    have hnext := h.addEntry e
    rw [BoundedQueue.push_ofList] at hnext
    simpa [addEntries] using ih hnext

/-- The pointers that a run returns. -/
theorem addEntries_olds {buffer : AesdCircularBuffer} {hist : List AesdBufferEntry}
    (h : buffer.Holds (BoundedQueue.ofList _ hist)) (es : List AesdBufferEntry) :
    (buffer.addEntries es).1 = (List.range es.length).map fun k =>
      (((BoundedQueue.ofList maxWriteOperations (hist ++ es.take k)).displaced).map
        AesdBufferEntry.buffptr).getD .null := by
  induction es generalizing buffer hist with
  | nil => rfl
  | cons e es ih =>
    have hnext := h.addEntry e
    rw [BoundedQueue.push_ofList] at hnext
    rw [List.length_cons, List.range_succ_eq_map, List.map_cons, List.map_map]
    simp only [addEntries, ih hnext, h.addEntry_fst_eq, List.take_zero, List.append_nil]
    congr 1
    refine List.map_congr_left fun k _ => ?_
    simp

/-- The circular buffer refines a bounded queue.  After any sequence of
calls on a fresh buffer the walk over the valid count meets the last ten
entries in order, the registers agree with the number of calls, the other
slots are zero, and the `k`-th call hands back the pointer that was added
ten calls before. -/
theorem addEntries_refines_queue (es : List AesdBufferEntry) :
    (init.addEntries es).2.validEntries = es.rtake maxWriteOperations ∧
    (init.addEntries es).2.inOffs < maxWriteOperations ∧
    (init.addEntries es).2.outOffs < maxWriteOperations ∧
    ((init.addEntries es).2.full = true ↔ maxWriteOperations ≤ es.length) ∧
    (∀ i, i < maxWriteOperations →
      (∀ k, k < (init.addEntries es).2.maxValidEntry →
        ((init.addEntries es).2.outOffs + k) % maxWriteOperations ≠ i) →
      (init.addEntries es).2.slot i = ⟨.null, 0⟩) ∧
    (init.addEntries es).1.length = es.length ∧
    (∀ k, k < es.length →
      (k < maxWriteOperations → (init.addEntries es).1[k]? = some .null) ∧
      (maxWriteOperations ≤ k → (init.addEntries es).1[k]? =
        es[k - maxWriteOperations]?.map AesdBufferEntry.buffptr)) := by
  have h := addEntries_holds holds_init es
  rw [List.nil_append] at h
  have hlen : (BoundedQueue.ofList maxWriteOperations es).items.length =
      min es.length maxWriteOperations := by
    rw [BoundedQueue.items_ofList, length_rtake]
  have holds := addEntries_olds holds_init es
  refine ⟨h.validEntries_eq, h.ring.in_lt, h.ring.out_lt, ?_, ?_, ?_, ?_⟩
  · rw [h.ring.full_iff, hlen]
    omega
  · rw [h.maxValidEntry_eq]
    exact h.clean
  · rw [holds, List.length_map, List.length_range]
  · intro k hk
    have hget : (init.addEntries es).1[k]? =
        some ((((BoundedQueue.ofList maxWriteOperations (es.take k)).displaced).map
          AesdBufferEntry.buffptr).getD .null) := by
      rw [holds]
      simp [hk]
    have htake : (es.take k).length = k := by
      rw [List.length_take]
      omega
    rw [hget, BoundedQueue.displaced_ofList, htake]
    refine ⟨fun hlt => ?_, fun hge => ?_⟩
    · rw [if_neg (by omega)]
      rfl
    · have hback : k - maxWriteOperations < k :=
        Nat.sub_lt (Nat.lt_of_lt_of_le (by decide) hge) (by decide)
      rw [if_pos hge, List.getElem?_take_of_lt hback, List.getElem?_eq_getElem (by omega)]
      rfl

end AesdChar.AesdCircularBuffer
