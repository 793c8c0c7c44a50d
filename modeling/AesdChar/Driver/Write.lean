import AesdChar.CircularBuffer.Fifo
import AesdChar.Driver.CommandLog

/-!
# `aesd_write` refines the command log

`Stores kmalloc k cmds log` says that the kernel state `k` is the log `log`:
the circular buffer holds the slots `cmds`, their blocks hold the last ten
finished commands, the accumulator holds the open command, and the heap owns
these blocks and nothing else.

`append_spec` and `finalize_spec` follow the two halves of `aesd_write` with
the rules of the heap.  `aesdWrite_granted` and `aesdWrite_refused` are the
two outcomes of a call: it is one `write` on the log, or it changes nothing.
Which of the two happens is decided by `WriteEnv.Grants` before the call.
-/

namespace AesdChar

open CodeLib CodeLib.CInt CodeLib.Ring

/-- The slots of the circular buffer with their contents. -/
abbrev Slots := BoundedQueue (Ptr × List Byte) maxWriteOperations

/-- The entry of a block. -/
def entryOf (c : Ptr × List Byte) : AesdBufferEntry := ⟨c.1, c.2.length⟩

/-- The heap cells of a block. -/
def cellOf (c : Ptr × List Byte) : Ptr × List (Option Byte) := (c.1, c.2.map some)

/-- The kernel state `k` stores the log `log` in the slots `cmds`. -/
structure Stores (kmalloc : Kmalloc) (k : KState) (cmds : Slots) (log : CommandLog) : Prop where
  ring : k.dev.buffer.Holds (cmds.map entryOf)
  contents : cmds.map Prod.snd = BoundedQueue.ofList _ log.closed
  size : k.dev.sizePartial = log.pending.length
  owns : k.heap.Owns (cellOf (k.dev.bufferPartial, log.pending) :: cmds.items.map cellOf)
  pending_le : log.pending.length ≤ kmalloc.maxSize
  visible_le : ∀ c ∈ log.visible, c.length ≤ kmalloc.maxSize

theorem Stores.map_snd {kmalloc : Kmalloc} {k : KState} {cmds : Slots} {log : CommandLog}
    (h : Stores kmalloc k cmds log) : cmds.items.map Prod.snd = log.visible :=
  congrArg BoundedQueue.items h.contents

/-- The valid entries hold the commands that are shown. -/
theorem Stores.validEntries_eq {kmalloc : Kmalloc} {k : KState} {cmds : Slots} {log : CommandLog}
    (h : Stores kmalloc k cmds log) : k.dev.buffer.validEntries = cmds.items.map entryOf := by
  rw [h.ring.validEntries_eq, BoundedQueue.items_map]

/-- The module starts with the empty log. -/
theorem stores_loaded (kmalloc : Kmalloc) :
    Stores kmalloc loaded (BoundedQueue.ofList _ []) .empty where
  ring := AesdCircularBuffer.holds_init
  contents := rfl
  size := rfl
  owns := Heap.Owns.empty.cons_nil rfl
  pending_le := Nat.zero_le _
  visible_le := by simp [CommandLog.visible, CommandLog.empty]

/-! ## The two halves of a write -/

section Halves

variable {heap : Heap Byte} {newbuf kbuf : Ptr} {pending buf : List Byte}
  {rest : List (Ptr × List (Option Byte))} {k : KState}

/-- `if (p) kfree(p)` drops a cell. -/
theorem freeIfSet_spec {p : Ptr} {cells : List (Option Byte)}
    (hown : heap.Owns ((p, cells) :: rest)) :
    ∃ heap', freeIfSet heap p = .ok heap' ∧ heap'.Owns rest := by
  unfold freeIfSet
  split
  · exact hown.free
  · rename_i hnull
    obtain rfl : p = .null := by simpa using hnull
    exact ⟨heap, rfl, hown.of_cons_none rfl⟩

/-- The old partial command moves to `newbuf` and its buffer goes away. -/
private theorem copyPartial_spec
    (hown : k.heap.Owns ((newbuf, List.replicate (pending.length + buf.length) none) ::
      (kbuf, buf.map some) :: cellOf (k.dev.bufferPartial, pending) :: rest))
    (hsize : k.dev.sizePartial = pending.length) :
    ∃ heap, copyPartial newbuf k = .ok heap ∧
      heap.Owns ((newbuf, pending.map some ++ List.replicate buf.length none) ::
        (kbuf, buf.map some) :: rest) := by
  have hrotate : ∀ {a b c : Ptr × List (Option Byte)} {l : List (Ptr × List (Option Byte))},
      (a :: b :: c :: l).Perm (c :: a :: b :: l) :=
    (List.Perm.cons _ (List.Perm.swap _ _ _)).trans (List.Perm.swap _ _ _)
  unfold copyPartial
  by_cases hnull : k.dev.bufferPartial = .null
  · rw [if_neg (not_not.mpr hnull)]
    rw [cellOf, hnull] at hown
    have hlast := hown.perm hrotate
    have hnil : pending = [] := List.map_eq_nil_iff.mp hlast.eq_nil_of_null
    subst hnil
    refine ⟨_, rfl, ?_⟩
    simpa using hlast.of_cons_none rfl
  · rw [if_pos hnull]
    have hsrc : (k.dev.bufferPartial, pending.map some) ∈
        (kbuf, buf.map some) :: cellOf (k.dev.bufferPartial, pending) :: rest := by
      simp [cellOf]
    obtain ⟨heap, hcopy, hown⟩ := hown.copy 0 hsrc (by simp)
    obtain ⟨heap', hfree, hown⟩ := (hown.perm hrotate).free
    refine ⟨heap', ?_, ?_⟩
    · rw [hsize, hcopy, ok_bind, hfree]
    · simpa [splice] using hown

/-- The appending half of `aesd_write`. -/
theorem append_spec
    (hown : k.heap.Owns ((newbuf, List.replicate (pending.length + buf.length) none) ::
      (kbuf, buf.map some) :: cellOf (k.dev.bufferPartial, pending) :: rest))
    (hsize : k.dev.sizePartial = pending.length)
    (hlt : pending.length + buf.length < 2 ^ 63) :
    ∃ heap, append newbuf kbuf buf.length k =
        .ok ⟨heap, { k.dev with
          bufferPartial := newbuf, sizePartial := (pending ++ buf).length }⟩ ∧
      heap.Owns (cellOf (newbuf, pending ++ buf) :: rest) := by
  obtain ⟨heap₁, hfirst, hown₁⟩ := copyPartial_spec hown hsize
  have hsrc : (kbuf, buf.map some) ∈ (kbuf, buf.map some) :: rest := List.mem_cons_self
  obtain ⟨heap₂, hcopy, hown₂⟩ := hown₁.copy pending.length hsrc (by simp)
  have hsplice : splice (pending.map some ++ List.replicate buf.length none) pending.length
      (buf.map some) = (pending ++ buf).map some := by
    have hlen : pending.length = (pending.map some).length := by simp
    rw [splice, hlen, List.take_left, List.drop_eq_nil_of_le (by simp), List.append_nil,
      List.map_append]
  rw [hsplice] at hown₂
  obtain ⟨heap₃, hfree, hown₃⟩ := (hown₂.perm (List.Perm.swap _ _ _)).free
  have hsum : sizeT ((pending.length : Int) + buf.length) = (pending ++ buf).length := by
    rw [List.length_append]
    exact_mod_cast sizeT_of_lt (Nat.lt_trans hlt (by decide))
  refine ⟨heap₃, ?_, hown₃⟩
  unfold append
  simp only [hfirst, ok_bind, pure_eq_ok, hsize, hcopy, hfree, hsum]

/-- The finalising half of `aesd_write`.  The block of the accumulator moves
to the circular buffer, and the block that it displaces is freed. -/
theorem finalize_spec {cmds : Slots} {content : List Byte}
    (hring : k.dev.buffer.Holds (cmds.map entryOf))
    (hsize : k.dev.sizePartial = content.length)
    (hown : k.heap.Owns (cellOf (k.dev.bufferPartial, content) :: cmds.items.map cellOf)) :
    ∃ heap, finalize k =
        .ok ⟨heap, { k.dev with
          buffer := (k.dev.buffer.addEntry (entryOf (k.dev.bufferPartial, content))).2
          bufferPartial := .null
          sizePartial := 0 }⟩ ∧
      heap.Owns (cellOf (.null, []) ::
        (cmds.push (k.dev.bufferPartial, content)).items.map cellOf) := by
  have hentry : (⟨k.dev.bufferPartial, k.dev.sizePartial⟩ : AesdBufferEntry) =
      entryOf (k.dev.bufferPartial, content) := by
    rw [hsize]
    rfl
  have hold : (k.dev.buffer.addEntry (entryOf (k.dev.bufferPartial, content))).1 =
      (cmds.displaced.map Prod.fst).getD .null := by
    rw [hring.addEntry_fst_eq, BoundedQueue.displaced_map, Option.map_map]
    rfl
  have hperm : (cellOf (k.dev.bufferPartial, content) :: cmds.items.map cellOf).Perm
      ((cmds.displaced.toList ++
        (cmds.push (k.dev.bufferPartial, content)).items).map cellOf) := by
    rw [BoundedQueue.displaced_append_push _ (by decide), List.map_append]
    exact (List.perm_append_singleton _ _).symm
  have hown := hown.perm hperm
  unfold finalize
  simp only [hentry, hold]
  cases hdisp : cmds.displaced with
  | none =>
    rw [hdisp] at hown
    exact ⟨k.heap, rfl, hown.cons_nil rfl⟩
  | some c =>
    rw [hdisp, Option.toList_some, List.singleton_append, List.map_cons] at hown
    obtain ⟨heap, hfree, hown⟩ := freeIfSet_spec hown
    refine ⟨heap, ?_, hown.cons_nil rfl⟩
    simp only [Option.map_some, Option.getD_some]
    rw [hfree]
    rfl

end Halves

/-! ## One call -/

/-- What the kernel has to grant for a write of `count` bytes to succeed when
`pending` bytes are pending. -/
def WriteEnv.Grants (env : WriteEnv) (kmalloc : Kmalloc) (pending count : Nat) : Prop :=
  (count = 0 ∨ env.kbufOk = true ∧ count ≤ kmalloc.maxSize) ∧
  min env.uncopied count = 0 ∧
  (pending + count = 0 ∨ env.newbufOk = true ∧ pending + count ≤ kmalloc.maxSize)

instance (env : WriteEnv) (kmalloc : Kmalloc) (pending count : Nat) :
    Decidable (env.Grants kmalloc pending count) := by
  unfold WriteEnv.Grants
  infer_instance

/-- A kernel that grants everything. -/
def WriteEnv.granting : WriteEnv := ⟨true, 0, true⟩

section Call

variable {kmalloc : Kmalloc} {env : WriteEnv} {buf : List Byte} {k : KState}
  {cmds : Slots} {log : CommandLog}

/-- Two sizes that the allocator can serve do not wrap when added. -/
theorem Kmalloc.add_lt (kmalloc : Kmalloc) {m n : Nat} (hm : m ≤ kmalloc.maxSize)
    (hn : n ≤ kmalloc.maxSize) : m + n < 2 ^ 63 := by
  have := kmalloc.maxSize_le
  omega

/-- The end of a write whose data were appended. -/
private theorem finish_spec (h : Stores kmalloc k cmds log) {newbuf : Ptr} {heap : Heap Byte}
    (hle : (log.pending ++ buf).length ≤ kmalloc.maxSize)
    (hown : heap.Owns (cellOf (newbuf, log.pending ++ buf) :: cmds.items.map cellOf)) :
    let k₁ : KState := ⟨heap, { k.dev with
      bufferPartial := newbuf, sizePartial := (log.pending ++ buf).length }⟩
    ∃ k' cmds', (if hasNewline buf then finalize k₁ else .ok k₁) = .ok k' ∧
      Stores kmalloc k' cmds' (log.write buf) ∧ k'.dev.lock = k.dev.lock := by
  intro k₁
  by_cases hnl : newline ∈ buf
  · rw [if_pos (hasNewline_eq_true.mpr hnl)]
    obtain ⟨hclosed, hpending⟩ := log.write_of_mem hnl
    obtain ⟨heap', hfin, hown'⟩ := finalize_spec (k := k₁) h.ring rfl hown
    refine ⟨_, cmds.push (newbuf, log.pending ++ buf), hfin, ?_, rfl⟩
    refine ⟨?_, ?_, ?_, ?_, ?_, ?_⟩
    · rw [BoundedQueue.map_push]
      exact h.ring.addEntry _
    · rw [BoundedQueue.map_push, h.contents, BoundedQueue.push_ofList, hclosed]
    · rw [hpending]
      rfl
    · rw [hpending]
      exact hown'
    · rw [hpending]
      exact Nat.zero_le _
    · intro c hc
      rw [log.visible_write_of_mem hnl] at hc
      rcases List.mem_append.mp (List.mem_of_mem_drop hc) with hc | hc
      · exact h.visible_le c hc
      · rw [List.mem_singleton.mp hc]
        exact hle
  · rw [if_neg (by rwa [hasNewline_eq_true])]
    obtain ⟨hclosed, hpending⟩ := log.write_of_notMem hnl
    refine ⟨k₁, cmds, rfl, ⟨h.ring, ?_, ?_, ?_, ?_, ?_⟩, rfl⟩
    · rw [h.contents, hclosed]
    · rw [hpending]
    · rw [hpending]
      exact hown
    · rw [hpending]
      exact hle
    · rw [CommandLog.visible, hclosed]
      exact h.visible_le

/-- The bytes of the user arrive in `kbuf`. -/
private theorem copyFromUser_spec {heap : Heap Byte} {max : Nat} {ok : Bool}
    {rest : List (Ptr × List (Option Byte))} (hown : heap.Owns rest)
    (hk : (heap.alloc max ok buf.length).1 ≠ .null) :
    ∃ heap', (heap.alloc max ok buf.length).2.store (heap.alloc max ok buf.length).1 0 buf =
        .ok heap' ∧
      heap'.load (heap.alloc max ok buf.length).1 0 buf.length = .ok buf ∧
      heap'.Owns (((heap.alloc max ok buf.length).1, buf.map some) :: rest) := by
  obtain ⟨heap', hstore, hown'⟩ := (hown.alloc hk).store 0 buf (by simp)
  have hsplice : splice (List.replicate buf.length (none : Option Byte)) 0 (buf.map some) =
      buf.map some := by
    rw [splice_zero, List.drop_eq_nil_of_le (by simp), List.append_nil]
  rw [hsplice] at hown'
  exact ⟨heap', hstore, hown'.load_all List.mem_cons_self, hown'⟩

/-- The size that is asked for `newbuf` does not wrap. -/
private theorem newbuf_size (h : Stores kmalloc k cmds log) (hbuf : buf.length ≤ kmalloc.maxSize) :
    sizeT ((k.dev.sizePartial : Int) + buf.length) = log.pending.length + buf.length := by
  rw [h.size]
  exact_mod_cast sizeT_of_lt (Nat.lt_trans (kmalloc.add_lt h.pending_le hbuf) (by decide))

/-- The log does not see a change of the heap outside its blocks. -/
theorem Stores.of_owns (h : Stores kmalloc k cmds log) {heap : Heap Byte}
    (hown : heap.Owns (cellOf (k.dev.bufferPartial, log.pending) :: cmds.items.map cellOf)) :
    Stores kmalloc { k with heap := heap } cmds log :=
  { h with owns := hown }

/-- A write that the kernel grants is one write on the log. -/
theorem writeBody_granted (h : Stores kmalloc k cmds log)
    (hg : env.Grants kmalloc log.pending.length buf.length) (fPos : Int) :
    ∃ k' cmds', writeBody kmalloc env buf fPos k =
        .ok ⟨buf.length, signed64 (fPos + buf.length), k'⟩ ∧
      Stores kmalloc k' cmds' (log.write buf) ∧ k'.dev.lock = k.dev.lock := by
  obtain ⟨hkbuf, hcopy, hnewbuf⟩ := hg
  have hbuf : buf.length ≤ kmalloc.maxSize := by omega
  have hsum := kmalloc.add_lt h.pending_le hbuf
  have hle : (log.pending ++ buf).length ≤ kmalloc.maxSize := by
    rw [List.length_append]
    omega
  have hret : signed64 (buf.length : Int) = buf.length := signed64_of_lt (by omega)
  have hk := Heap.alloc_ne_null_iff (h := k.heap).mpr hkbuf
  obtain ⟨heap₁, hstore, hload, hown₁⟩ := copyFromUser_spec h.owns hk
  have hn := Heap.alloc_ne_null_iff (h := heap₁).mpr hnewbuf
  obtain ⟨heap₂, happend, hown₂⟩ :=
    append_spec (k := { k with heap := _ }) (hown₁.alloc hn) h.size hsum
  obtain ⟨k', cmds', hfin, hstores, hlock⟩ := finish_spec h hle hown₂
  refine ⟨k', cmds', ?_, hstores, hlock⟩
  unfold writeBody
  simp only [hk, hcopy, hstore, hload, newbuf_size h hbuf, scanNewline_eq, hn, happend, hfin,
    hret, if_false, ne_eq, not_true_eq_false, ok_bind, pure_eq_ok]

/-- The error of a write that the kernel refuses. -/
def WriteEnv.refusal (env : WriteEnv) (kmalloc : Kmalloc) (count : Nat) : Int :=
  if (count = 0 ∨ env.kbufOk = true ∧ count ≤ kmalloc.maxSize) ∧ min env.uncopied count ≠ 0 then
    -EFAULT
  else -ENOMEM

theorem WriteEnv.refusal_cases (env : WriteEnv) (kmalloc : Kmalloc) (count : Nat) :
    env.refusal kmalloc count = -ENOMEM ∨ env.refusal kmalloc count = -EFAULT := by
  unfold WriteEnv.refusal
  split
  · exact Or.inr rfl
  · exact Or.inl rfl

/-- A write that the kernel refuses leaves the log alone. -/
theorem writeBody_refused (h : Stores kmalloc k cmds log)
    (hg : ¬ env.Grants kmalloc log.pending.length buf.length) (fPos : Int) :
    ∃ heap, writeBody kmalloc env buf fPos k =
        .ok ⟨env.refusal kmalloc buf.length, fPos, { k with heap := heap }⟩ ∧
      Stores kmalloc { k with heap := heap } cmds log := by
  by_cases hkbuf : buf.length = 0 ∨ env.kbufOk = true ∧ buf.length ≤ kmalloc.maxSize
  · have hbuf : buf.length ≤ kmalloc.maxSize := by omega
    have hk := Heap.alloc_ne_null_iff (h := k.heap).mpr hkbuf
    by_cases hcopy : min env.uncopied buf.length = 0
    · obtain ⟨heap₁, hstore, hload, hown₁⟩ := copyFromUser_spec h.owns hk
      have hn : (heap₁.alloc kmalloc.maxSize env.newbufOk
          (log.pending.length + buf.length)).1 = .null := by
        by_contra hne
        exact hg ⟨hkbuf, hcopy, Heap.alloc_ne_null_iff.mp hne⟩
      have hret : env.refusal kmalloc buf.length = -ENOMEM :=
        if_neg fun hfault => hfault.2 hcopy
      obtain ⟨heap₂, hfree, hown₂⟩ := hown₁.free
      refine ⟨heap₂, ?_, h.of_owns hown₂⟩
      unfold writeBody
      simp only [hk, hcopy, hstore, hload, newbuf_size h hbuf, hn, Heap.alloc_null hn, hfree,
        hret, if_false, if_true, ne_eq, not_true_eq_false, ok_bind, pure_eq_ok]
    · have hret : env.refusal kmalloc buf.length = -EFAULT := if_pos ⟨hkbuf, hcopy⟩
      obtain ⟨heap₁, hfree, hown₁⟩ := (h.owns.alloc hk).free
      refine ⟨heap₁, ?_, h.of_owns hown₁⟩
      unfold writeBody
      simp only [hk, hcopy, hfree, hret, if_false, if_true, ne_eq, not_false_eq_true, ok_bind,
        pure_eq_ok]
  · have hk : (k.heap.alloc kmalloc.maxSize env.kbufOk buf.length).1 = .null := by
      by_contra hne
      exact hkbuf (Heap.alloc_ne_null_iff.mp hne)
    have hret : env.refusal kmalloc buf.length = -ENOMEM := if_neg fun hfault => hkbuf hfault.1
    refine ⟨k.heap, ?_, h⟩
    unfold writeBody
    simp only [hk, Heap.alloc_null hk, hret, if_true, pure_eq_ok]

end Call

/-! ## Calls between calls -/

/-- The state between two calls: the log is stored and the lock is free. -/
structure Idle (kmalloc : Kmalloc) (k : KState) (cmds : Slots) (log : CommandLog) : Prop
    extends Stores kmalloc k cmds log where
  unlocked : k.dev.lock = .unlocked

theorem idle_loaded (kmalloc : Kmalloc) :
    Idle kmalloc loaded (BoundedQueue.ofList _ []) .empty :=
  ⟨stores_loaded kmalloc, rfl⟩

section Idle

variable {kmalloc : Kmalloc} {env : WriteEnv} {buf : List Byte} {k : KState}
  {cmds : Slots} {log : CommandLog}

/-- The log does not see the lock. -/
theorem Stores.of_lock (h : Stores kmalloc k cmds log) (m : Mutex) :
    Stores kmalloc { k with dev := { k.dev with lock := m } } cmds log :=
  ⟨h.ring, h.contents, h.size, h.owns, h.pending_le, h.visible_le⟩

@[simp] theorem mutexLock_of_unlocked {dev : AesdDev} (h : dev.lock = .unlocked) :
    dev.mutexLock = .ok { dev with lock := .locked } := if_pos h

@[simp] theorem mutexUnlock_of_locked {dev : AesdDev} (h : dev.lock = .locked) :
    dev.mutexUnlock = .ok { dev with lock := .unlocked } := if_pos h

/-- `aesd_write` when the kernel grants everything. -/
theorem aesdWrite_granted (h : Idle kmalloc k cmds log)
    (hg : env.Grants kmalloc log.pending.length buf.length) (fPos : Int) :
    ∃ k' cmds', aesdWrite kmalloc env buf fPos k =
        .ok ⟨buf.length, signed64 (fPos + buf.length), k'⟩ ∧
      Idle kmalloc k' cmds' (log.write buf) := by
  obtain ⟨k', cmds', hbody, hstores, hlock⟩ :=
    writeBody_granted (h.toStores.of_lock .locked) hg fPos
  refine ⟨_, cmds', ?_, hstores.of_lock .unlocked, rfl⟩
  unfold aesdWrite
  rw [mutexLock_of_unlocked h.unlocked, ok_bind, hbody, ok_bind, mutexUnlock_of_locked hlock]
  rfl

/-- `aesd_write` when the kernel refuses something: the device and the file
position are as before, and so are the blocks that the device owns. -/
theorem aesdWrite_refused_eq (h : Idle kmalloc k cmds log)
    (hg : ¬ env.Grants kmalloc log.pending.length buf.length) (fPos : Int) :
    ∃ heap, aesdWrite kmalloc env buf fPos k =
        .ok ⟨env.refusal kmalloc buf.length, fPos, { k with heap := heap }⟩ ∧
      Idle kmalloc { k with heap := heap } cmds log := by
  obtain ⟨heap, hbody, hstores⟩ := writeBody_refused (h.toStores.of_lock .locked) hg fPos
  have hdev : { k.dev with lock := .unlocked } = k.dev := by rw [← h.unlocked]
  have hidle : Idle kmalloc { k with heap := heap } cmds log := by
    refine ⟨?_, h.unlocked⟩
    have := hstores.of_lock .unlocked
    simpa only [hdev] using this
  refine ⟨heap, ?_, hidle⟩
  unfold aesdWrite
  rw [mutexLock_of_unlocked h.unlocked, ok_bind, hbody, ok_bind, mutexUnlock_of_locked rfl]
  simp only [ok_bind, pure_eq_ok, hdev]

/-- The same, with the error left open. -/
theorem aesdWrite_refused (h : Idle kmalloc k cmds log)
    (hg : ¬ env.Grants kmalloc log.pending.length buf.length) (fPos : Int) :
    ∃ ret heap, aesdWrite kmalloc env buf fPos k = .ok ⟨ret, fPos, { k with heap := heap }⟩ ∧
      (ret = -ENOMEM ∨ ret = -EFAULT) ∧ Idle kmalloc { k with heap := heap } cmds log := by
  obtain ⟨heap, hwrite, hidle⟩ := aesdWrite_refused_eq h hg fPos
  exact ⟨_, heap, hwrite, env.refusal_cases kmalloc buf.length, hidle⟩

end Idle

end AesdChar
