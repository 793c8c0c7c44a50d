import AesdChar.Driver.Read

/-!
# `aesd_llseek` and `aesd_unlocked_ioctl`

Neither call changes the device, and each leaves a position that a `loff_t`
can hold.  A granted seek request moves the file to a byte of a command:
`aesdUnlockedIoctl_seek` says to which.
-/

namespace AesdChar

open CodeLib CodeLib.CInt CodeLib.Ring

variable {kmalloc : Kmalloc} {k : KState} {cmds : Slots} {log : CommandLog}

/-- Locking and unlocking an idle device gives the device back. -/
private theorem relock_eq {dev : AesdDev} (h : dev.lock = .unlocked) :
    { dev with lock := .unlocked } = dev := by
  rw [← h]

/-! ## `aesd_llseek` -/

/-- The call leaves the device alone and never fails inside. -/
theorem aesdLlseek_state (h : k.dev.lock = .unlocked) {fPos offset : Int} (whence : Int)
    (hpos : IsSigned64 fPos) (hoffset : IsSigned64 offset) :
    ∃ r, aesdLlseek fPos offset whence k = .ok r ∧ r.state = k ∧ IsSigned64 r.fPos := by
  unfold aesdLlseek
  rw [mutexLock_of_unlocked h]
  simp only [ok_bind, pure_eq_ok, mutexUnlock_of_locked, relock_eq h]
  split
  · exact ⟨_, rfl, rfl, hpos⟩
  · rename_i newpos hnew
    have hnewpos : IsSigned64 newpos := by
      split_ifs at hnew
      · rwa [← Option.some.inj hnew]
      · rw [← Option.some.inj hnew]
        exact isSigned64_signed64 _
      · rw [← Option.some.inj hnew]
        exact isSigned64_signed64 _
    split
    · exact ⟨_, rfl, rfl, hpos⟩
    · refine ⟨_, rfl, rfl, ?_⟩
      dsimp only
      split
      · exact isSigned64_signed64 _
      · exact hnewpos

/-! ## `aesd_unlocked_ioctl` -/

/-- The call leaves the device alone and never fails inside. -/
theorem aesdUnlockedIoctl_state (h : k.dev.lock = .unlocked) (uncopied cmd : Nat)
    (seekto : AesdSeekto) {fPos : Int} (hpos : IsSigned64 fPos) :
    ∃ r, aesdUnlockedIoctl uncopied cmd seekto fPos k = .ok r ∧ r.state = k ∧
      IsSigned64 r.fPos := by
  unfold aesdUnlockedIoctl
  rw [mutexLock_of_unlocked h]
  simp only [ok_bind, pure_eq_ok, mutexUnlock_of_locked, relock_eq h]
  split_ifs
  case neg =>
    refine ⟨_, rfl, rfl, ?_⟩
    dsimp only
    exact isSigned64_signed64 _
  all_goals exact ⟨_, rfl, rfl, hpos⟩

/-- The sizes of the first `i` entries, and the size of the next one. -/
private theorem sizes_take_succ {q : BoundedQueue AesdBufferEntry maxWriteOperations}
    (hsum : (AesdCircularBuffer.sizes q).sum < 2 ^ 64) {i : Nat} (hi : i < q.items.length) :
    sizeT ((((AesdCircularBuffer.sizes q).take i).sum : Int) + (q.items[i]).size) =
      ((AesdCircularBuffer.sizes q).take (i + 1)).sum := by
  have hsizes : i < (AesdCircularBuffer.sizes q).length := by
    rw [AesdCircularBuffer.sizes, List.length_map]
    exact hi
  have hnext : ((AesdCircularBuffer.sizes q).take i).sum + (q.items[i]).size =
      ((AesdCircularBuffer.sizes q).take (i + 1)).sum := by
    rw [List.sum_take_succ _ _ hsizes]
    simp [AesdCircularBuffer.sizes]
  have hle : ((AesdCircularBuffer.sizes q).take (i + 1)).sum < 2 ^ 64 :=
    Nat.lt_of_le_of_lt (List.Sublist.sum_le_sum (List.take_sublist _ _) (by simp)) hsum
  rw [← hnext] at hle ⊢
  exact_mod_cast sizeT_of_lt hle

/-- The count of the entries passed does not wrap. -/
private theorem uint32_succ {q : BoundedQueue AesdBufferEntry maxWriteOperations} {i : Nat}
    (hi : i < q.items.length) : uint32 ((i : Int) + 1) = i + 1 := by
  have hlen := q.length_le
  unfold maxWriteOperations at hlen
  exact_mod_cast uint32_of_lt (n := i + 1) (by omega)

/-- The walk over the slots stops at the command that was asked for, with the
size of the commands before it. -/
private theorem seekLoop_hit {buffer : AesdCircularBuffer}
    {q : BoundedQueue AesdBufferEntry maxWriteOperations} (h : buffer.Holds q)
    (hset : ∀ e ∈ q.items, e.buffptr ≠ .null)
    (hsum : (AesdCircularBuffer.sizes q).sum < 2 ^ 64) {writeCmd : Nat}
    (hcmd : writeCmd < q.items.length) (left i : Nat) (entry : AesdBufferEntry)
    (hi : i ≤ writeCmd) (hleft : i + left = maxWriteOperations) :
    seekLoop buffer writeCmd (List.range' i left) entry i
        ((AesdCircularBuffer.sizes q).take i).sum =
      (q.items[writeCmd], ((AesdCircularBuffer.sizes q).take writeCmd).sum) := by
  have hlen := q.length_le
  induction left generalizing i entry with
  | zero => omega
  | succ left ih =>
    have hlt : i < q.items.length := by omega
    have hne := hset _ (List.getElem_mem hlt)
    rw [List.range'_succ, seekLoop, h.slot_eq hlt]
    simp only [hne, if_false]
    rcases Nat.lt_or_ge i writeCmd with hbefore | hat
    · rw [if_neg (Nat.ne_of_lt hbefore), uint32_succ hlt, sizes_take_succ hsum hlt]
      exact ih (i + 1) _ hbefore (by omega)
    · obtain rfl : i = writeCmd := Nat.le_antisymm hi hat
      rw [if_pos rfl]

/-- A walk that does not meet the command runs over all slots.  It ends with
the slot before the read index. -/
private theorem seekLoop_miss {buffer : AesdCircularBuffer}
    {q : BoundedQueue AesdBufferEntry maxWriteOperations} (h : buffer.Holds q)
    (hset : ∀ e ∈ q.items, e.buffptr ≠ .null)
    (hsum : (AesdCircularBuffer.sizes q).sum < 2 ^ 64) {writeCmd : Nat}
    (hcmd : q.items.length ≤ writeCmd) (left i : Nat) (entry : AesdBufferEntry)
    (hleft : i + left = maxWriteOperations)
    (hentry : left = 0 → entry = (q.items[maxWriteOperations - 1]?).getD .zero) :
    seekLoop buffer writeCmd (List.range' i left) entry (min i q.items.length)
        ((AesdCircularBuffer.sizes q).take i).sum =
      ((q.items[maxWriteOperations - 1]?).getD .zero, (AesdCircularBuffer.sizes q).sum) := by
  have hlen := q.length_le
  have hsizes : (AesdCircularBuffer.sizes q).length = q.items.length := List.length_map _
  induction left generalizing i entry with
  | zero =>
    rw [List.range'_zero, seekLoop, hentry rfl, List.take_of_length_le (by omega)]
  | succ left ih =>
    have hlast : left = 0 → i = maxWriteOperations - 1 := by omega
    rw [List.range'_succ, seekLoop]
    rcases Nat.lt_or_ge i q.items.length with hlt | hge
    · -- A valid entry before the command that is asked for.
      have hne := hset _ (List.getElem_mem hlt)
      rw [h.slot_eq hlt]
      simp only [hne, if_false]
      rw [Nat.min_eq_left (Nat.le_of_lt hlt), if_neg (by omega), uint32_succ hlt,
        sizes_take_succ hsum hlt]
      have hnext := ih (i + 1) q.items[i] (by omega) (by
        intro hzero
        obtain rfl := hlast hzero
        rw [List.getElem?_eq_getElem hlt, Option.getD_some])
      rwa [Nat.min_eq_left hlt] at hnext
    · -- A slot that was never written.
      rw [h.slot_eq_zero hge (by omega)]
      have hnext := ih (i + 1) .zero (by omega) (by
        intro hzero
        rw [List.getElem?_eq_none (by have := hlast hzero; omega), Option.getD_none])
      rw [Nat.min_eq_right (by omega), List.take_of_length_le (by omega)] at hnext
      rw [Nat.min_eq_right hge, List.take_of_length_le (by omega)]
      exact hnext

/-- The walk from the read index over all slots. -/
private theorem seekLoop_eq {buffer : AesdCircularBuffer}
    {q : BoundedQueue AesdBufferEntry maxWriteOperations} (h : buffer.Holds q)
    (hset : ∀ e ∈ q.items, e.buffptr ≠ .null)
    (hsum : (AesdCircularBuffer.sizes q).sum < 2 ^ 64) (writeCmd : Nat) :
    seekLoop buffer writeCmd (List.range maxWriteOperations) .zero 0 0 =
      ((q.items[min writeCmd (maxWriteOperations - 1)]?).getD .zero,
        ((AesdCircularBuffer.sizes q).take writeCmd).sum) := by
  have hlen := q.length_le
  have hsizes : (AesdCircularBuffer.sizes q).length = q.items.length := List.length_map _
  rcases Nat.lt_or_ge writeCmd q.items.length with hlt | hge
  · have hloop := seekLoop_hit h hset hsum hlt maxWriteOperations 0 .zero (Nat.zero_le _)
      (Nat.zero_add _)
    rw [List.take_zero, List.sum_nil, ← List.range_eq_range'] at hloop
    rw [hloop, Nat.min_eq_left (by omega), List.getElem?_eq_getElem hlt, Option.getD_some]
  · have hloop := seekLoop_miss h hset hsum hge maxWriteOperations 0 .zero (Nat.zero_add _)
      (by simp)
    rw [List.take_zero, List.sum_nil, Nat.zero_min, ← List.range_eq_range'] at hloop
    rw [hloop, List.take_of_length_le (by omega)]
    congr 1
    rcases Nat.lt_or_ge writeCmd (maxWriteOperations - 1) with hcmd | hcmd
    · rw [Nat.min_eq_left (Nat.le_of_lt hcmd), List.getElem?_eq_none hge,
        List.getElem?_eq_none (by omega)]
    · rw [Nat.min_eq_right hcmd]

/-- The blocks of the shown commands are not null. -/
theorem Stores.buffptr_ne_null (h : Stores kmalloc k cmds log) :
    ∀ e ∈ (cmds.map entryOf).items, e.buffptr ≠ .null := by
  intro e he hnull
  rw [BoundedQueue.items_map] at he
  obtain ⟨⟨p, bytes⟩, hmem, rfl⟩ := List.mem_map.mp he
  obtain rfl : p = .null := hnull
  have hfits := h.owns.fits _ (List.mem_cons_of_mem _ (List.mem_map_of_mem hmem))
  have hbytes : bytes ∈ log.visible := by
    rw [← h.map_snd]
    exact List.mem_map_of_mem (f := Prod.snd) hmem
  rcases hfits with ⟨⟨a, ha⟩, -⟩ | ⟨-, hnil⟩
  · cases ha
  · exact log.ne_nil_of_visible _ hbytes (List.map_eq_nil_iff.mp hnil)

/-- The end of a seek request, after the walk. -/
private theorem aesdUnlockedIoctl_of_loop (h : k.dev.lock = .unlocked) {seekto : AesdSeekto}
    {entry : AesdBufferEntry} {offset : Nat}
    (hloop : seekLoop k.dev.buffer seekto.writeCmd (List.range maxWriteOperations) .zero 0 0 =
      (entry, offset)) (fPos : Int) :
    aesdUnlockedIoctl 0 AESDCHAR_IOCSEEKTO seekto fPos k =
      .ok (if entry.buffptr = .null ∨ entry.size ≤ seekto.writeCmdOffset then ⟨-EINVAL, fPos, k⟩
        else ⟨0, signed64 (sizeT ((offset : Int) + seekto.writeCmdOffset)), k⟩) := by
  have htype : iocType AESDCHAR_IOCSEEKTO = AESD_IOC_MAGIC := by decide
  have hnr : ¬ iocNr AESDCHAR_IOCSEEKTO > AESDCHAR_IOC_MAXNR := by decide
  unfold aesdUnlockedIoctl
  rw [mutexLock_of_unlocked h]
  simp only [htype, hnr, ne_eq, not_true_eq_false, if_false, ok_bind, hloop,
    mutexUnlock_of_locked, relock_eq h, pure_eq_ok]
  by_cases hnull : entry.buffptr = .null
  · simp [hnull]
  · by_cases hle : entry.size ≤ seekto.writeCmdOffset
    · simp [hnull, hle]
    · simp [hnull, hle]

/-- The answer to every seek request.  The entry is the one that was asked
for or, for a number of ten or more, the tenth. -/
theorem aesdUnlockedIoctl_eq (h : Idle kmalloc k cmds log) (seekto : AesdSeekto) (fPos : Int) :
    aesdUnlockedIoctl 0 AESDCHAR_IOCSEEKTO seekto fPos k =
      .ok (match log.visible[min seekto.writeCmd (maxWriteOperations - 1)]? with
        | none => ⟨-EINVAL, fPos, k⟩
        | some c =>
          if c.length ≤ seekto.writeCmdOffset then ⟨-EINVAL, fPos, k⟩
          else ⟨0, ((log.visible.take seekto.writeCmd).flatten.length +
            seekto.writeCmdOffset : Nat), k⟩) := by
  have hitems : (cmds.map entryOf).items = cmds.items.map entryOf := BoundedQueue.items_map _ _
  have hsum : (AesdCircularBuffer.sizes (cmds.map entryOf)).sum < 2 ^ 64 := by
    rw [h.sizes_eq, ← List.length_flatten]
    exact Nat.lt_trans h.content_lt (by decide)
  have htake : ((AesdCircularBuffer.sizes (cmds.map entryOf)).take seekto.writeCmd).sum =
      (log.visible.take seekto.writeCmd).flatten.length := by
    rw [h.sizes_eq, ← List.map_take, List.length_flatten]
  have hloop := seekLoop_eq h.ring h.buffptr_ne_null hsum seekto.writeCmd
  rw [htake] at hloop
  rw [aesdUnlockedIoctl_of_loop h.unlocked hloop, ← h.map_snd, hitems, List.getElem?_map,
    List.getElem?_map, h.map_snd]
  congr 1
  cases hc : cmds.items[min seekto.writeCmd (maxWriteOperations - 1)]? with
  | none => simp [AesdBufferEntry.zero]
  | some c =>
    have hnull : (entryOf c).buffptr ≠ .null := by
      apply h.buffptr_ne_null
      rw [hitems]
      exact List.mem_map_of_mem (List.mem_of_getElem? hc)
    simp only [Option.map_some, Option.getD_some, hnull, false_or]
    by_cases hle : c.2.length ≤ seekto.writeCmdOffset
    · simp [entryOf, hle]
    · -- The sum is at most the content, so nothing wraps.
      have hpos : (log.visible.take seekto.writeCmd).flatten.length + seekto.writeCmdOffset <
          2 ^ 63 := by
        have hcontent := h.content_le
        have hmax := kmalloc.maxSize_le
        have hclen : c.2.length ≤ kmalloc.maxSize := by
          apply h.visible_le
          rw [← h.map_snd]
          exact List.mem_map_of_mem (List.mem_of_getElem? hc)
        have htaken : (log.visible.take seekto.writeCmd).flatten.length ≤ log.content.length := by
          conv_rhs => rw [CommandLog.content, ← List.take_append_drop seekto.writeCmd log.visible]
          rw [List.flatten_append, List.length_append]
          exact Nat.le_add_right _ _
        unfold maxWriteOperations at hcontent
        omega
      have hwrap : sizeT (((log.visible.take seekto.writeCmd).flatten.length : Int) +
          seekto.writeCmdOffset) =
          (log.visible.take seekto.writeCmd).flatten.length + seekto.writeCmdOffset := by
        exact_mod_cast sizeT_of_lt (Nat.lt_trans hpos (by decide))
      rw [hwrap, signed64_of_lt hpos]
      simp [entryOf, hle]

/-- A seek request for a byte of a shown command. -/
theorem aesdUnlockedIoctl_seek (h : Idle kmalloc k cmds log) {x y : Nat} (fPos : Int)
    (hx : x < log.visible.length) (hy : y < (log.visible[x]).length) :
    aesdUnlockedIoctl 0 AESDCHAR_IOCSEEKTO ⟨x, y⟩ fPos k =
      .ok ⟨0, ((log.visible.take x).flatten.length + y : Nat), k⟩ := by
  have hlen : log.visible.length ≤ maxWriteOperations := by
    rw [CommandLog.visible, length_rtake]
    omega
  rw [aesdUnlockedIoctl_eq h]
  simp only
  rw [Nat.min_eq_left (by omega), List.getElem?_eq_getElem hx]
  simp only
  rw [if_neg (Nat.not_le.mpr hy)]

end AesdChar
