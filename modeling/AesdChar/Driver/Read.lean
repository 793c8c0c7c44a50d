import AesdChar.CircularBuffer.Lookup
import AesdChar.Driver.Write
import Mathlib.Algebra.Order.BigOperators.Group.List
import Mathlib.Algebra.Order.Group.Nat

/-!
# `aesd_read` delivers a window of the content

The content of the device is the concatenation of the commands that it
shows.  `readLoop_eq` is the invariant of the copy loop: what is left to do is
always a window of the content, and every round copies one piece of it, up to
the end of a command.  `copyOut` is the row of these copies, for any answers of
`copy_to_user`.  `aesdRead_spec` is the whole call.  A read either meets a fault
of the user buffer, or delivers the window that was asked for; in neither case
does it change the device.
-/

namespace AesdChar

open CodeLib CodeLib.CInt CodeLib.Ring

variable {kmalloc : Kmalloc} {k : KState} {cmds : Slots} {log : CommandLog}

/-! ## The search on a stored log -/

/-- The sizes of the entries are the lengths of the commands. -/
theorem Stores.sizes_eq (h : Stores kmalloc k cmds log) :
    AesdCircularBuffer.sizes (cmds.map entryOf) = log.visible.map List.length := by
  rw [← h.map_snd, AesdCircularBuffer.sizes, BoundedQueue.items_map, List.map_map, List.map_map]
  rfl

/-- Ten commands hold at most ten times what the allocator can serve. -/
theorem Stores.content_le (h : Stores kmalloc k cmds log) :
    log.content.length ≤ maxWriteOperations * kmalloc.maxSize := by
  have hlen : log.visible.length ≤ maxWriteOperations := by
    rw [CommandLog.visible, length_rtake]
    omega
  have hsum : (log.visible.map List.length).sum ≤ log.visible.length * kmalloc.maxSize := by
    have := List.sum_le_card_nsmul (log.visible.map List.length) kmalloc.maxSize (by
      intro n hn
      obtain ⟨c, hc, rfl⟩ := List.mem_map.mp hn
      exact h.visible_le c hc)
    simpa using this
  rw [CommandLog.content, List.length_flatten]
  exact Nat.le_trans hsum (Nat.mul_le_mul_right _ hlen)

/-- The content fits a `loff_t`. -/
theorem Stores.content_lt (h : Stores kmalloc k cmds log) : log.content.length < 2 ^ 63 :=
  calc log.content.length
      ≤ maxWriteOperations * kmalloc.maxSize := h.content_le
    _ ≤ 10 * 2 ^ 59 := Nat.mul_le_mul_left _ kmalloc.maxSize_le
    _ < 2 ^ 63 := by decide

/-- The search finds nothing behind the content. -/
theorem Stores.find_none (h : Stores kmalloc k cmds log) {off : Nat} (hoff : off < 2 ^ 64)
    (hge : log.content.length ≤ off) : k.dev.buffer.findEntryOffsetForFpos off = none := by
  rw [h.ring.find_eq hoff, h.sizes_eq, Option.map_eq_none_iff, locate_eq_none_iff,
    ← List.length_flatten]
  exact hge

/-- The search finds the command that `locate` finds, and its bytes can be
loaded. -/
theorem Stores.find_of_locate (h : Stores kmalloc k cmds log) {off i o : Nat}
    (hoff : off < 2 ^ 64) (hloc : locate (log.visible.map List.length) off = some (i, o)) :
    ∃ (idx : Nat) (seg : List Byte), k.dev.buffer.findEntryOffsetForFpos off = some (idx, o) ∧
      log.visible[i]? = some seg ∧ (k.dev.buffer.slot idx).size = seg.length ∧
      seg.length < 2 ^ 63 ∧
      ∀ n, n ≤ seg.length - o →
        k.heap.load (k.dev.buffer.slot idx).buffptr o n = .ok ((seg.drop o).take n) := by
  have hfind := h.ring.find_eq hoff
  rw [h.sizes_eq, hloc, Option.map_some] at hfind
  obtain ⟨size, hsize, -⟩ := locate_eq_some_iff.mp hloc
  rw [List.getElem?_map, Option.map_eq_some_iff] at hsize
  obtain ⟨seg, hseg, -⟩ := hsize
  have hseg_lt : seg.length < 2 ^ 63 :=
    Nat.lt_of_le_of_lt (h.visible_le seg (List.mem_of_getElem? hseg))
      (Nat.lt_of_le_of_lt kmalloc.maxSize_le (by decide))
  have hcmd := hseg
  rw [← h.map_snd, List.getElem?_map, Option.map_eq_some_iff] at hcmd
  obtain ⟨⟨p, bytes⟩, hcmd, rfl⟩ := hcmd
  have hi : i < (cmds.map entryOf).items.length := by
    rw [BoundedQueue.items_map, List.length_map]
    exact (List.getElem?_eq_some_iff.mp hcmd).1
  have hslot : k.dev.buffer.slot ((k.dev.buffer.outOffs + i) % maxWriteOperations) =
      entryOf (p, bytes) := by
    rw [h.ring.slot_eq hi]
    simp only [BoundedQueue.items_map, List.getElem_map]
    rw [(List.getElem?_eq_some_iff.mp hcmd).2]
  refine ⟨_, bytes, hfind, hseg, by rw [hslot]; rfl, hseg_lt, ?_⟩
  intro n hn
  rw [hslot]
  have hmem : cellOf (p, bytes) ∈ cellOf (k.dev.bufferPartial, log.pending) ::
      cmds.items.map cellOf :=
    List.mem_cons_of_mem _ (List.mem_map_of_mem (List.mem_of_getElem? hcmd))
  have hlen : ((bytes.drop o).take n).length = n := by
    rw [List.length_take, List.length_drop]
    exact Nat.min_eq_left hn
  have hload := h.owns.load hmem o ((bytes.drop o).take n) (by
    rw [hlen, List.map_take, List.map_drop])
  rwa [hlen] at hload

/-! ## The copy loop -/

/-- The copies of a read, one for each piece of the window.  The result is
that of `readLoop`. -/
def copyOut (env : ReadEnv) : (ps : List (List Byte)) → (bytesCopied copies : Nat) →
    (fPos : Int) → (ubuf : List Byte) → Int × Int × List Byte
  | [], bytesCopied, _, fPos, ubuf => (bytesCopied, fPos, ubuf)
  | p :: ps, bytesCopied, copies, fPos, ubuf =>
    let (left, ubuf) := copyToUser (env.uncopied copies) ubuf bytesCopied p
    if left ≠ 0 then (-EFAULT, fPos, ubuf)
    else copyOut env ps (bytesCopied + p.length) (copies + 1) (fPos + p.length) ubuf

/-- A copy that leaves nothing behind. -/
theorem copyToUser_ok {uncopied : Nat} {ubuf : List Byte} {off : Nat} {bytes : List Byte}
    (h : min uncopied bytes.length = 0) :
    copyToUser uncopied ubuf off bytes = (0, splice ubuf off bytes) := by
  simp only [copyToUser, h, Nat.sub_zero, List.take_length]

/-- The copies meet a fault, or put the pieces side by side. -/
theorem copyOut_spec (env : ReadEnv) (ps : List (List Byte)) {bytesCopied : Nat} (copies : Nat)
    (fPos : Int) {ubuf : List Byte} (hubuf : bytesCopied ≤ ubuf.length) :
    (∃ i, env.uncopied i ≠ 0) ∧ (copyOut env ps bytesCopied copies fPos ubuf).1 = -EFAULT ∨
      copyOut env ps bytesCopied copies fPos ubuf =
        (((bytesCopied + ps.flatten.length : Nat) : Int), fPos + ps.flatten.length,
          splice ubuf bytesCopied ps.flatten) := by
  induction ps generalizing bytesCopied copies fPos ubuf with
  | nil => simp [copyOut]
  | cons p ps ih =>
    rw [copyOut]
    by_cases hleft : min (env.uncopied copies) p.length = 0
    · have hlen : bytesCopied + p.length ≤ (splice ubuf bytesCopied p).length := by
        simp only [splice, List.length_append, List.length_take_of_le hubuf]
        omega
      simp only [copyToUser_ok hleft, ne_eq, not_true_eq_false, if_false]
      rcases ih (copies + 1) (fPos + p.length) hlen with hfault | hok
      · exact Or.inl hfault
      · refine Or.inr ?_
        rw [hok, splice_splice p ps.flatten hubuf, List.flatten_cons, List.length_append,
          Nat.add_assoc, Int.add_assoc, ← Int.natCast_add]
    · refine Or.inl ⟨⟨copies, by omega⟩, ?_⟩
      simp [copyToUser, hleft]

/-- The copy loop from position `off` on, after `bytesCopied` bytes, copies the
pieces of what is left of the window. -/
theorem readLoop_eq (h : Stores kmalloc k cmds log) (env : ReadEnv) (count fuel : Nat)
    {off bytesCopied : Nat} (copies : Nat) (ubuf : List Byte)
    (hfuel : count < fuel + bytesCopied) (hcount : bytesCopied ≤ count)
    (hcopied : bytesCopied ≤ off) (hoff : off < 2 ^ 63) :
    readLoop env k count fuel (k.dev.buffer.findEntryOffsetForFpos off) bytesCopied copies
        off ubuf =
      .ok (copyOut env (pieces log.visible off (count - bytesCopied)) bytesCopied copies off
        ubuf) := by
  induction fuel generalizing off bytesCopied copies ubuf with
  | zero => omega
  | succ fuel ih =>
    have hret : signed64 (bytesCopied : Int) = bytesCopied := signed64_of_lt (by omega)
    cases hloc : locate (log.visible.map List.length) off with
    | none =>
      have hge := hloc
      rw [locate_eq_none_iff, ← List.length_flatten] at hge
      rw [h.find_none (Nat.lt_trans hoff (by decide)) hge, readLoop,
        pieces_eq_nil_of_locate _ hloc, copyOut, hret]
    | some pair =>
      obtain ⟨i, o⟩ := pair
      obtain ⟨idx, seg, hfind, hget, hsize, hseg, hload⟩ :=
        h.find_of_locate (Nat.lt_trans hoff (by decide)) hloc
      rw [hfind, readLoop]
      by_cases hmore : bytesCopied < count
      · obtain ⟨seg', hget', ho, hpieces⟩ :=
          pieces_of_locate hloc (show 0 < count - bytesCopied by omega)
        obtain rfl : seg = seg' := Option.some.inj (hget.symm.trans hget')
        have hcontent := h.content_lt
        obtain ⟨seg', hget', -, hle, -⟩ := drop_flatten_of_locate hloc
        obtain rfl : seg = seg' := Option.some.inj (hget.symm.trans hget')
        have hend : off + (seg.length - o) ≤ log.content.length := hle
        have havail : sizeT ((seg.length : Int) - o) = seg.length - o :=
          sizeT_sub (Nat.le_of_lt ho) (by omega)
        rw [if_pos hmore, hpieces, copyOut]
        simp only [hsize, havail]
        obtain ⟨n, hn⟩ : ∃ n, n = min (count - bytesCopied) (seg.length - o) := ⟨_, rfl⟩
        have hn_pos : 0 < n := by
          rw [hn]
          exact Nat.lt_min.mpr ⟨Nat.sub_pos_of_lt hmore, Nat.sub_pos_of_lt ho⟩
        have hn_le : bytesCopied + n ≤ count := by
          have := Nat.min_le_left (count - bytesCopied) (seg.length - o)
          omega
        have hpiece : (seg.drop o).take (count - bytesCopied) = (seg.drop o).take n := by
          rw [List.take_eq_take_iff, List.length_drop, hn]
          omega
        have hlen : ((seg.drop o).take n).length = n := by
          rw [List.length_take, List.length_drop, hn]
          omega
        simp only [← hn, hload n (by omega), ok_bind, hpiece]
        by_cases hleft : min (env.uncopied copies) ((seg.drop o).take n).length = 0
        · -- The whole stretch was copied: the loop goes on behind it.
          have hoff_lt : off + n < 2 ^ 63 := by omega
          have hsum : sizeT ((bytesCopied : Int) + n) = bytesCopied + n := by
            exact_mod_cast sizeT_of_lt (n := bytesCopied + n) (by omega)
          have hpos : signed64 ((off : Int) + n) = (off + n : Nat) := by
            exact_mod_cast signed64_of_lt hoff_lt
          have hoff' : sizeT ((off + n : Nat) : Int) = off + n :=
            sizeT_of_lt (Nat.lt_trans hoff_lt (by decide))
          have hfuel' : count < fuel + (bytesCopied + n) := by omega
          have hrest := ih (copies + 1) (splice ubuf bytesCopied ((seg.drop o).take n)) hfuel' hn_le
            (Nat.add_le_add_right hcopied n) hoff_lt
          rw [Nat.sub_add_eq] at hrest
          simp only [copyToUser_ok hleft, ne_eq, not_true_eq_false, if_false, hsum, hpos, hoff',
            hlen, hrest]
          rfl
        · simp only [copyToUser, ne_eq, hleft, not_false_eq_true, if_true, pure_eq_ok]
      · have hzero : count - bytesCopied = 0 := by omega
        rw [if_neg hmore, hzero, pieces_zero, copyOut, hret]

/-! ## The call -/

/-- `aesd_read` from a position that is not negative copies the pieces of the
window that was asked for. -/
theorem aesdRead_eq (h : Idle kmalloc k cmds log) (env : ReadEnv) (ubuf : List Byte)
    (count : Nat) {off : Nat} (hoff : off < 2 ^ 63) :
    let r := copyOut env (pieces log.visible off count) 0 0 off ubuf
    aesdRead env ubuf count off k =
      .ok { ret := r.1, fPos := r.2.1, state := k, ubuf := r.2.2 } := by
  have hstores := h.toStores.of_lock .locked
  have hdev : { k.dev with lock := .unlocked } = k.dev := by rw [← h.unlocked]
  have hsize : sizeT (off : Int) = off := sizeT_of_lt (by omega)
  unfold aesdRead
  rw [mutexLock_of_unlocked h.unlocked, ok_bind, hsize]
  cases hloc : locate (log.visible.map List.length) off with
  | none =>
    have hge := hloc
    rw [locate_eq_none_iff, ← List.length_flatten] at hge
    have hnone := hstores.find_none (Nat.lt_trans hoff (by decide)) hge
    simp only at hnone
    simp only [hnone, ok_bind, mutexUnlock_of_locked, pure_eq_ok, hdev,
      pieces_eq_nil_of_locate _ hloc, copyOut, Nat.cast_zero]
  | some pair =>
    obtain ⟨idx, seg, hfind, -⟩ := hstores.find_of_locate (Nat.lt_trans hoff (by decide)) hloc
    have hrun := readLoop_eq hstores env count (count + 1) 0 ubuf
      (show count < count + 1 + 0 by omega) (Nat.zero_le _) (Nat.zero_le _) hoff
    simp only at hfind hrun
    rw [hfind] at hrun
    simp only [hfind, hrun, ok_bind, mutexUnlock_of_locked, pure_eq_ok, hdev, Nat.sub_zero]

/-- `aesd_read` from a position that is not negative.  It either meets a
fault of the user buffer or delivers the window that was asked for. -/
theorem aesdRead_spec (h : Idle kmalloc k cmds log) (env : ReadEnv) (ubuf : List Byte)
    (count : Nat) {off : Nat} (hoff : off < 2 ^ 63) :
    ∃ r, aesdRead env ubuf count off k = .ok r ∧ r.state = k ∧
      ((∃ i, env.uncopied i ≠ 0) ∧ r.ret = -EFAULT ∨
        r.ret = ((log.content.drop off).take count).length ∧
        r.fPos = (off + ((log.content.drop off).take count).length : Nat) ∧
        r.ubuf = (log.content.drop off).take count ++
          ubuf.drop ((log.content.drop off).take count).length) := by
  have hwindow : (pieces log.visible off count).flatten = (log.content.drop off).take count :=
    pieces_flatten _ _ _
  refine ⟨_, aesdRead_eq h env ubuf count hoff, rfl, ?_⟩
  rcases copyOut_spec env (pieces log.visible off count) 0 (off : Int)
    (show 0 ≤ ubuf.length from Nat.zero_le _) with hfault | hok
  · exact Or.inl hfault
  · refine Or.inr ?_
    rw [hok, hwindow, splice_zero, Nat.zero_add]
    exact ⟨rfl, rfl, rfl⟩

/-- A negative position lies behind the content. -/
theorem aesdRead_neg (h : Idle kmalloc k cmds log) (env : ReadEnv) (ubuf : List Byte)
    (count : Nat) {fPos : Int} (hpos : IsSigned64 fPos) (hneg : fPos < 0) :
    aesdRead env ubuf count fPos k = .ok { ret := 0, fPos := fPos, state := k, ubuf := ubuf } := by
  have hstores := h.toStores.of_lock .locked
  have hdev : { k.dev with lock := .unlocked } = k.dev := by rw [← h.unlocked]
  have hnone := hstores.find_none (sizeT_lt fPos)
    (Nat.le_trans (Nat.le_of_lt hstores.content_lt) (sizeT_of_neg hpos hneg))
  simp only at hnone
  unfold aesdRead
  rw [mutexLock_of_unlocked h.unlocked]
  simp only [hnone, ok_bind, mutexUnlock_of_locked, pure_eq_ok, hdev]

/-- What is read next starts where the window ended. -/
theorem drop_window {α : Type*} (xs : List α) (off count : Nat) :
    xs.drop (off + ((xs.drop off).take count).length) = xs.drop (off + count) := by
  rw [List.length_take, List.length_drop]
  rcases Nat.le_total count (xs.length - off) with hle | hge
  · rw [Nat.min_eq_left hle]
  · rw [Nat.min_eq_right hge, List.drop_eq_nil_of_le (by omega), List.drop_eq_nil_of_le (by omega)]

/-- The window does not reach behind the content, unless it is empty. -/
theorem Stores.window_lt (h : Stores kmalloc k cmds log) (count : Nat) {off : Nat}
    (hoff : off < 2 ^ 63) : off + ((log.content.drop off).take count).length < 2 ^ 63 := by
  have hcontent := h.content_lt
  have hle : ((log.content.drop off).take count).length ≤ log.content.length - off := by
    rw [List.length_take, List.length_drop]
    exact Nat.min_le_right _ _
  omega

/-- A read never goes wrong inside, and the file keeps a position that a
`loff_t` can hold. -/
theorem aesdRead_state (h : Idle kmalloc k cmds log) (env : ReadEnv) (ubuf : List Byte)
    (count : Nat) {fPos : Int} (hpos : IsSigned64 fPos) :
    ∃ r, aesdRead env ubuf count fPos k = .ok r ∧ r.state = k ∧ IsSigned64 (r.filePos fPos) := by
  rcases Int.lt_or_le fPos 0 with hneg | hnonneg
  · exact ⟨_, aesdRead_neg h env ubuf count hpos hneg, rfl, hpos⟩
  · obtain ⟨off, rfl⟩ := Int.eq_ofNat_of_zero_le hnonneg
    have hoff : off < 2 ^ 63 := by exact_mod_cast hpos.2
    obtain ⟨r, hread, hstate, hres⟩ := aesdRead_spec h env ubuf count hoff
    refine ⟨r, hread, hstate, ?_⟩
    unfold CallResult.filePos
    split
    · rename_i hret
      rcases hres with ⟨-, hfault⟩ | ⟨-, hfPos, -⟩
      · rw [hfault] at hret
        exact absurd hret (by decide)
      · rw [hfPos]
        exact isSigned64_of_lt (h.window_lt count hoff)
    · exact hpos

end AesdChar
