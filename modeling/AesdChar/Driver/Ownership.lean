import AesdChar.Driver.History

/-!
# Who owns the heap

A block moves from the kernel buffer of a write to the accumulator, from there
to a slot of the circular buffer, and back to the allocator when the slot is
needed again.  Between two calls the live blocks are those of the valid
entries and that of the accumulator.  A run that ends without a fault has
freed no block twice and has used no block after it was freed, so it is enough
to say that every run ends so and what is live at its end.

`aesd_cleanup_module` frees by non-null slot instead of by valid entry.
`cleanup_spec` shows that this comes to the same.
-/

namespace AesdChar

open CodeLib CodeLib.CInt CodeLib.Ring

/-- The blocks that the device keeps, with the sizes that it notes for them:
the accumulator if it holds a byte, then the valid entries. -/
def AesdDev.owned (dev : AesdDev) : List (Ptr × Nat) :=
  (if 0 < dev.sizePartial then [(dev.bufferPartial, dev.sizePartial)] else []) ++
    dev.buffer.validEntries.map fun e => (e.buffptr, e.size)

variable {kmalloc : Kmalloc} {k : KState} {cmds : Slots} {log : CommandLog}

/-! ## Between calls -/

/-- The cells behind `AesdDev.owned`: none of them is empty. -/
theorem Stores.owned_cells (h : Stores kmalloc k cmds log) :
    ∃ cells : List (Ptr × List (Option Byte)), k.heap.Owns cells ∧ (∀ c ∈ cells, c.2 ≠ []) ∧
      k.dev.owned = cells.map fun c => (c.1, c.2.length) := by
  have hvalid : (k.dev.buffer.validEntries.map fun e => (e.buffptr, e.size)) =
      (cmds.items.map cellOf).map fun c => (c.1, c.2.length) := by
    rw [h.validEntries_eq, List.map_map, List.map_map]
    refine List.map_congr_left fun c _ => ?_
    simp [entryOf, cellOf]
  have hcmds : ∀ c ∈ cmds.items.map cellOf, c.2 ≠ [] := by
    intro c hc hnil
    obtain ⟨d, hd, rfl⟩ := List.mem_map.mp hc
    have hvis : d.2 ∈ log.visible := by
      rw [← h.map_snd]
      exact List.mem_map_of_mem hd
    exact log.ne_nil_of_visible _ hvis (List.map_eq_nil_iff.mp hnil)
  unfold AesdDev.owned
  rw [hvalid, h.size]
  rcases hpending : log.pending with _ | ⟨b, bs⟩
  · -- Nothing is pending: the accumulator owns no block.
    have hown := h.owns
    have hfits := hown.fits _ List.mem_cons_self
    rw [hpending] at hown hfits
    have hnone : k.dev.bufferPartial.addr? = none := by
      rcases hfits with ⟨-, hne⟩ | ⟨hnone, -⟩
      · exact absurd rfl hne
      · exact hnone
    exact ⟨_, hown.of_cons_none hnone, hcmds, by simp⟩
  · refine ⟨_, h.owns, ?_, ?_⟩
    · intro c hc
      rcases List.mem_cons.mp hc with rfl | hc
      · simp [cellOf, hpending]
      · exact hcmds c hc
    · simp [cellOf, hpending]

/-- The live blocks are those that the device keeps. -/
theorem Stores.perm_owned (h : Stores kmalloc k cmds log) :
    (k.heap.liveAddrs.map Ptr.block).Perm (k.dev.owned.map Prod.fst) := by
  obtain ⟨cells, hown, hne, howned⟩ := h.owned_cells
  rw [howned, List.map_map]
  exact hown.perm_map_fst hne

/-- No block is kept twice. -/
theorem Stores.nodup_owned (h : Stores kmalloc k cmds log) : (k.dev.owned.map Prod.fst).Nodup :=
  h.perm_owned.nodup_iff.mp
    (k.heap.nodup_liveAddrs.map fun _ _ heq => Ptr.block.inj heq)

/-- The sizes that the device notes are those of the allocations. -/
theorem Stores.size_owned (h : Stores kmalloc k cmds log) :
    ∀ c ∈ k.dev.owned, 0 < c.2 ∧ k.heap.blockSize? c.1 = some c.2 := by
  obtain ⟨cells, hown, hne, howned⟩ := h.owned_cells
  intro c hc
  rw [howned] at hc
  obtain ⟨⟨p, bytes⟩, hd, rfl⟩ := List.mem_map.mp hc
  exact ⟨List.length_pos_iff.mpr (hne _ hd), hown.blockSize?_eq hd (hne _ hd)⟩

/-- A size that the allocator grants can be added to the accumulator. -/
theorem Stores.size_add (h : Stores kmalloc k cmds log) {count : Nat}
    (hcount : count ≤ kmalloc.maxSize) :
    sizeT ((k.dev.sizePartial : Int) + count) = k.dev.sizePartial + count := by
  rw [h.size]
  exact_mod_cast sizeT_of_lt (Nat.lt_trans (kmalloc.add_lt h.pending_le hcount) (by decide))

/-! ## The end of the module -/

/-- Freeing every slot whose pointer is not null frees every block that some
slot points to. -/
private theorem freeSlots_spec {heap : Heap Byte} {cells : List (Ptr × List (Option Byte))}
    (entries : List AesdBufferEntry) (hown : heap.Owns cells)
    (hperm : (entries.map AesdBufferEntry.buffptr).Perm (cells.map Prod.fst)) :
    ∃ heap', freeSlots heap entries = .ok heap' ∧ heap'.Owns [] := by
  induction entries generalizing heap cells with
  | nil =>
    rw [List.map_nil, List.nil_perm, List.map_eq_nil_iff] at hperm
    subst hperm
    exact ⟨heap, rfl, hown⟩
  | cons e es ih =>
    have hmem : e.buffptr ∈ cells.map Prod.fst := hperm.subset List.mem_cons_self
    obtain ⟨⟨p, c⟩, hc, hp⟩ := List.mem_map.mp hmem
    obtain ⟨l₁, l₂, rfl⟩ := List.append_of_mem hc
    obtain ⟨heap₁, hfree, hown₁⟩ := freeIfSet_spec (hown.perm List.perm_middle)
    have hrest : (es.map AesdBufferEntry.buffptr).Perm ((l₁ ++ l₂).map Prod.fst) := by
      have := hperm.trans (List.perm_middle.map Prod.fst)
      rw [List.map_cons, List.map_cons, ← hp] at this
      exact this.cons_inv
    obtain ⟨heap₂, hrun, hown₂⟩ := ih hown₁ hrest
    refine ⟨heap₂, ?_, hown₂⟩
    rw [freeSlots, ← hp, hfree, ok_bind, hrun]

/-- `aesd_cleanup_module` leaves no block behind. -/
theorem cleanup_spec (h : Stores kmalloc k cmds log) :
    ∃ k', aesdCleanupModule k = .ok k' ∧ k'.heap.liveAddrs = [] := by
  obtain ⟨heap₁, hpart, hown₁⟩ := freeIfSet_spec h.owns
  -- The slots outside the valid range are null: they count as empty cells.
  have hnull : ∀ n : Nat, heap₁.Owns (List.replicate n (.null, []) ++ cmds.items.map cellOf) := by
    intro n
    induction n with
    | zero => exact hown₁
    | succ n ih => exact ih.cons_nil rfl
  have hslots := (h.ring.foreach_perm.map AesdBufferEntry.buffptr).trans
    (List.Perm.of_eq (List.map_append ..))
  obtain ⟨heap₂, hfree, hown₂⟩ := freeSlots_spec k.dev.buffer.foreach
    (hnull (maxWriteOperations - (cmds.map entryOf).items.length)) (by
      refine hslots.trans (List.perm_append_comm.trans (List.Perm.of_eq ?_))
      rw [List.map_append, List.map_replicate, List.map_replicate, BoundedQueue.items_map,
        List.map_map, List.map_map]
      rfl)
  refine ⟨{ k with heap := heap₂ }, ?_, List.perm_nil.mp hown₂.perm_liveAddrs⟩
  unfold aesdCleanupModule
  rw [hpart, ok_bind, hfree]
  rfl

/-- No run goes wrong.  After each call the live blocks are those that the
device keeps, each once and each with the size that the device notes for it,
and unloading the module at that point leaves no block behind. -/
theorem run_owns_heap (kmalloc : Kmalloc) (calls : List Call) :
    ∃ events s, Driver.loaded.run kmalloc calls = .ok (events, s) ∧
      events.map Event.call = calls ∧
      (s.k.heap.liveAddrs.map Ptr.block).Perm (s.k.dev.owned.map Prod.fst) ∧
      (s.k.dev.owned.map Prod.fst).Nodup ∧
      (∀ c ∈ s.k.dev.owned, 0 < c.2 ∧ s.k.heap.blockSize? c.1 = some c.2) ∧
      (∀ count, count ≤ kmalloc.maxSize →
        sizeT ((s.k.dev.sizePartial : Int) + count) = s.k.dev.sizePartial + count) ∧
      ∃ k', aesdCleanupModule s.k = .ok k' ∧ k'.heap.liveAddrs = [] := by
  obtain ⟨events, s, cmds, hrun, hcalls, hready⟩ := Driver.run_loaded kmalloc calls
  have hstores := hready.idle.toStores
  exact ⟨events, s, hrun, hcalls, hstores.perm_owned, hstores.nodup_owned, hstores.size_owned,
    fun _ => hstores.size_add, cleanup_spec hstores⟩

end AesdChar
