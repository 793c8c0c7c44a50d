import AesdChar.Driver.History
import AesdChar.Driver.Seek

/-!
# Three ways to name a byte of the device

A byte of the device is named by its position, as `aesd_read` and
`aesd_llseek` do, and by a command and an offset in it, as the seek request
does.  The search, the seek request and the sum of `aesd_llseek` walk the ring
by three different rules.  `addressing_agrees` says that they induce one
numbering: the search and the seek request are inverse to each other, and the
sum is the number of positions.

`seek_exact_iff` says for which requests the walk of the seek request also
refuses what does not exist.  It looks at the slot where the walk ended, and in
a full ring that slot holds an entry even if the walk did not find its command.
-/

namespace AesdChar

open CodeLib CodeLib.CInt CodeLib.Ring

variable {kmalloc : Kmalloc} {k : KState} {cmds : Slots} {log : CommandLog}

/-! ## The entries of a stored log -/

/-- The sizes of the valid entries are the lengths of the commands. -/
theorem Stores.validEntries_sizes (h : Stores kmalloc k cmds log) :
    k.dev.buffer.validEntries.map AesdBufferEntry.size = log.visible.map List.length := by
  rw [h.ring.validEntries_eq]
  exact h.sizes_eq

/-- The size of a valid entry is the length of its command. -/
theorem Stores.validEntries_getElem? (h : Stores kmalloc k cmds log) (i : Nat) :
    (k.dev.buffer.validEntries[i]?).map AesdBufferEntry.size =
      (log.visible[i]?).map List.length := by
  rw [← List.getElem?_map, ← List.getElem?_map, h.validEntries_sizes]

/-- The running sum of `aesd_llseek` over slots whose null entries are
empty. -/
private theorem foldl_size_eq (entries : List AesdBufferEntry) (total : Nat)
    (hnull : ∀ e ∈ entries, e.buffptr = .null → e.size = 0)
    (hlt : total + (entries.map AesdBufferEntry.size).sum < 2 ^ 64) :
    entries.foldl (fun total entry =>
      if entry.buffptr ≠ .null then sizeT ((total : Int) + entry.size) else total) total =
      total + (entries.map AesdBufferEntry.size).sum := by
  induction entries generalizing total with
  | nil => rfl
  | cons e entries ih =>
    rw [List.map_cons, List.sum_cons] at hlt ⊢
    rw [List.foldl_cons]
    have hnext : (if e.buffptr ≠ .null then sizeT ((total : Int) + e.size) else total) =
        total + e.size := by
      by_cases he : e.buffptr = .null
      · rw [if_neg (not_not.mpr he), hnull e List.mem_cons_self he, Nat.add_zero]
      · rw [if_pos he]
        exact_mod_cast sizeT_of_lt (n := total + e.size) (by omega)
    rw [hnext, ih _ (fun e' he' => hnull e' (List.mem_cons_of_mem _ he')) (by omega),
      Nat.add_assoc]

/-- The size summed over all slots is the length of the content. -/
theorem Stores.totalSize_eq (h : Stores kmalloc k cmds log) :
    totalSize k.dev.buffer = log.content.length := by
  have hperm := h.ring.foreach_perm
  have hsum : (k.dev.buffer.foreach.map AesdBufferEntry.size).sum = log.content.length := by
    have hsizes := h.sizes_eq
    unfold AesdCircularBuffer.sizes at hsizes
    rw [(hperm.map _).sum_eq, List.map_append, List.sum_append, hsizes, CommandLog.content,
      List.length_flatten]
    simp [AesdBufferEntry.zero]
  have hcontent := h.content_lt
  unfold totalSize
  rw [foldl_size_eq, hsum, Nat.zero_add]
  · intro e he hnull
    rcases List.mem_append.mp (hperm.mem_iff.mp he) with hmem | hmem
    · exact absurd hnull (h.buffptr_ne_null e hmem)
    · rw [List.eq_of_mem_replicate hmem]
      rfl
  · rw [hsum]
    omega

/-! ## Which seek requests are answered exactly -/

/-- The exact answer to a seek request: success for an offset inside an
existing command, and then the file moves there; otherwise `-EINVAL`, and the
file stays. -/
def SeekIsExact (k : KState) (seekto : AesdSeekto) (fPos : Int) : Prop :=
  let entries := k.dev.buffer.validEntries
  ∃ r, aesdUnlockedIoctl 0 AESDCHAR_IOCSEEKTO seekto fPos k = .ok r ∧
    (r.ret = 0 ↔ ∃ e, entries[seekto.writeCmd]? = some e ∧ seekto.writeCmdOffset < e.size) ∧
    (r.ret = 0 → r.fPos =
      (((entries.take seekto.writeCmd).map AesdBufferEntry.size).sum +
        seekto.writeCmdOffset : Nat)) ∧
    (r.ret ≠ 0 → r.ret = -EINVAL ∧ r.fPos = fPos)

/-- An entry by its number, seen through the log. -/
private theorem exists_entry_iff (h : Stores kmalloc k cmds log) (i o : Nat) :
    (∃ e, k.dev.buffer.validEntries[i]? = some e ∧ o < e.size) ↔
      ∃ c, log.visible[i]? = some c ∧ o < c.length := by
  have hget := h.validEntries_getElem? i
  cases he : k.dev.buffer.validEntries[i]? with
  | none =>
    rw [he, Option.map_none, eq_comm, Option.map_eq_none_iff] at hget
    simp [hget]
  | some e =>
    rw [he, Option.map_some, eq_comm, Option.map_eq_some_iff] at hget
    obtain ⟨c, hc, hlen⟩ := hget
    simp [hc, hlen]

/-- The seek request is exact unless it names a command behind the tenth with
an offset inside the tenth. -/
theorem Idle.seekIsExact_iff (h : Idle kmalloc k cmds log) (seekto : AesdSeekto) (fPos : Int) :
    SeekIsExact k seekto fPos ↔
      seekto.writeCmd < maxWriteOperations ∨
        ∀ e, k.dev.buffer.validEntries[maxWriteOperations - 1]? = some e →
          e.size ≤ seekto.writeCmdOffset := by
  have hlen : log.visible.length ≤ maxWriteOperations := by
    rw [CommandLog.visible, length_rtake]
    omega
  have hsum : ((k.dev.buffer.validEntries.take seekto.writeCmd).map AesdBufferEntry.size).sum =
      (log.visible.take seekto.writeCmd).flatten.length := by
    rw [List.map_take, h.validEntries_sizes, ← List.map_take, List.length_flatten]
  have hlast : (∀ e, k.dev.buffer.validEntries[maxWriteOperations - 1]? = some e →
      e.size ≤ seekto.writeCmdOffset) ↔
      ¬ ∃ c, log.visible[maxWriteOperations - 1]? = some c ∧
        seekto.writeCmdOffset < c.length := by
    rw [← exists_entry_iff h.toStores]
    simp only [not_exists, not_and, Nat.not_lt]
  unfold SeekIsExact
  simp only [exists_entry_iff h.toStores, hsum, hlast, aesdUnlockedIoctl_eq h, Except.ok.injEq,
    exists_eq_left']
  rcases Nat.lt_or_ge seekto.writeCmd maxWriteOperations with hcmd | hcmd
  · -- The walk examines the command that is asked for, or a slot never written.
    rw [Nat.min_eq_left (Nat.le_sub_one_of_lt hcmd)]
    refine iff_of_true ?_ (Or.inl hcmd)
    cases hc : log.visible[seekto.writeCmd]? with
    | none => simp [EINVAL]
    | some c =>
      by_cases hle : c.length ≤ seekto.writeCmdOffset
      · simp [hle, EINVAL]
      · simp [hle, Nat.lt_of_not_le hle]
  · -- The command does not exist, and the walk ends with the tenth entry.
    have hmiss : log.visible[seekto.writeCmd]? = none := List.getElem?_eq_none (by omega)
    rw [Nat.min_eq_right (Nat.le_trans (Nat.sub_le _ _) hcmd), or_iff_right (Nat.not_lt.mpr hcmd),
      hmiss]
    cases hc : log.visible[maxWriteOperations - 1]? with
    | none => simp [EINVAL]
    | some c =>
      by_cases hle : c.length ≤ seekto.writeCmdOffset
      · simp [hle, EINVAL]
      · simp [hle, Nat.lt_of_not_le hle]

/-- Where the seek request answers exactly, after any run of calls. -/
theorem seek_exact_iff (kmalloc : Kmalloc) (calls : List Call) (seekto : AesdSeekto)
    (fPos : Int) :
    ∃ events s, Driver.loaded.run kmalloc calls = .ok (events, s) ∧
      (SeekIsExact s.k seekto fPos ↔
        seekto.writeCmd < maxWriteOperations ∨
          ∀ e, s.k.dev.buffer.validEntries[maxWriteOperations - 1]? = some e →
            e.size ≤ seekto.writeCmdOffset) := by
  obtain ⟨events, s, cmds, hrun, -, hready⟩ := Driver.run_loaded kmalloc calls
  exact ⟨events, s, hrun, hready.idle.seekIsExact_iff seekto fPos⟩

/-- Ten commands of one byte: a seek request for the eleventh succeeds, and
moves the file to the end of the content. -/
theorem seek_accepts_eleventh :
    ∃ (kmalloc : Kmalloc) (events : List Event) (s : Driver),
      Driver.loaded.run kmalloc (List.replicate 10 (.write 0 [newline] .granting)) =
        .ok (events, s) ∧
      s.k.dev.buffer.validEntries.map AesdBufferEntry.size = List.replicate 10 1 ∧
      aesdUnlockedIoctl 0 AESDCHAR_IOCSEEKTO ⟨10, 0⟩ 0 s.k = .ok ⟨0, 10, s.k⟩ ∧
      ¬ SeekIsExact s.k ⟨10, 0⟩ 0 := by
  let kmalloc : Kmalloc := ⟨4096, by decide⟩
  obtain ⟨events, s, cmds, hrun, h⟩ := (Driver.ready_loaded kmalloc).run_commands 0
    (List.replicate 10 [newline]) rfl (by
      intro w hw
      rw [List.eq_of_mem_replicate hw]
      decide)
  have hvisible : ((List.replicate 10 [newline]).foldl CommandLog.write .empty).visible =
      List.replicate 10 [newline] := rfl
  refine ⟨kmalloc, events, s, hrun, ?_, ?_, ?_⟩
  · rw [h.idle.validEntries_sizes, hvisible]
    rfl
  · rw [aesdUnlockedIoctl_eq h.idle, hvisible]
    rfl
  · intro hexact
    have hsmall := (h.idle.seekIsExact_iff _ _).mp hexact
    have hget := h.idle.validEntries_getElem? (maxWriteOperations - 1)
    rw [hvisible] at hget
    obtain ⟨e, he, hsize⟩ := Option.map_eq_some_iff.mp hget
    rcases hsmall with hlt | hle
    · exact absurd hlt (by decide)
    · have := hle e he
      rw [hsize] at this
      exact absurd this (by decide)

/-! ## One numbering -/

/-- A pair that names a position is answered with it. -/
theorem Idle.ioctl_of_position (h : Idle kmalloc k cmds log) {c o p : Nat}
    (hpos : position (log.visible.map List.length) c o = some p) (fPos : Int) :
    aesdUnlockedIoctl 0 AESDCHAR_IOCSEEKTO ⟨c, o⟩ fPos k = .ok ⟨0, p, k⟩ := by
  obtain ⟨size, hsize, ho, rfl⟩ := position_eq_some_iff.mp hpos
  rw [List.getElem?_map, Option.map_eq_some_iff] at hsize
  obtain ⟨cmd, hcmd, rfl⟩ := hsize
  obtain ⟨hc, rfl⟩ := List.getElem?_eq_some_iff.mp hcmd
  rw [aesdUnlockedIoctl_seek h fPos hc ho, ← List.map_take, List.length_flatten]

/-- The search is `locate` on the commands that are shown. -/
theorem Stores.find_eq (h : Stores kmalloc k cmds log) {off : Nat} (hoff : off < 2 ^ 64) :
    k.dev.buffer.findEntryOffsetForFpos off =
      (locate (log.visible.map List.length) off).map fun p =>
        ((k.dev.buffer.outOffs + p.1) % maxWriteOperations, p.2) := by
  rw [h.ring.find_eq hoff, h.sizes_eq]

/-- A seek to a position by `aesd_llseek`, from the start or from the end. -/
theorem Idle.llseek_position (h : Idle kmalloc k cmds log) {p : Nat}
    (hp : p ≤ log.content.length) (fPos : Int) :
    aesdLlseek fPos p SEEK_SET k = .ok ⟨p, p, k⟩ ∧
    aesdLlseek fPos ((p : Int) - log.content.length) SEEK_END k = .ok ⟨p, p, k⟩ := by
  have hcontent := h.content_lt
  have hend : signed64 ((log.content.length : Int) + ((p : Int) - log.content.length)) = p := by
    rw [show (log.content.length : Int) + ((p : Int) - log.content.length) = (p : Nat) by omega]
    exact signed64_of_lt (by omega)
  have hsize : sizeT (p : Int) = p := sizeT_of_lt (by omega)
  have hnonneg : ¬ (p : Int) < 0 := by omega
  have hle : ¬ p > log.content.length := by omega
  unfold aesdLlseek
  rw [mutexLock_of_unlocked h.unlocked]
  have hdev : { k.dev with lock := .unlocked } = k.dev := by rw [← h.unlocked]
  constructor
  · simp only [ok_bind, pure_eq_ok, mutexUnlock_of_locked, h.totalSize_eq, if_true, hnonneg,
      if_false, hsize, hle, hdev]
  · have hset : ¬ SEEK_END = SEEK_SET := by decide
    have hcur : ¬ SEEK_END = SEEK_CUR := by decide
    simp only [ok_bind, pure_eq_ok, mutexUnlock_of_locked, h.totalSize_eq, hset, hcur, if_true,
      hend, hnonneg, if_false, hsize, hle, hdev]

/-- The three numberings of the bytes of a device agree. -/
structure AddressesAgree (k : KState) : Prop where
  /-- The sum of `aesd_llseek` is the number of bytes that can be read. -/
  total : ∃ commands, k.commands = .ok commands ∧
    totalSize k.dev.buffer = commands.flatten.length ∧
    (k.dev.buffer.validEntries.map AesdBufferEntry.size).sum = commands.flatten.length
  /-- The search finds every position, and the seek request and `aesd_llseek`
  lead back to it. -/
  lookup : ∀ p, p < totalSize k.dev.buffer → ∃ slot o,
    k.dev.buffer.findEntryOffsetForFpos p = some (slot, o) ∧ ∀ fPos,
      (o < 2 ^ 32 → aesdUnlockedIoctl 0 AESDCHAR_IOCSEEKTO
        ⟨(((slot : Int) - k.dev.buffer.outOffs) % maxWriteOperations).toNat, o⟩ fPos k =
          .ok ⟨0, p, k⟩) ∧
      aesdLlseek fPos p SEEK_SET k = .ok ⟨p, p, k⟩ ∧
      aesdLlseek fPos ((p : Int) - totalSize k.dev.buffer) SEEK_END k = .ok ⟨p, p, k⟩
  /-- The seek request leads to a position where the search finds the pair. -/
  seek : ∀ c o e, k.dev.buffer.validEntries[c]? = some e → o < e.size → ∃ p,
    p < totalSize k.dev.buffer ∧
    (∀ fPos, aesdUnlockedIoctl 0 AESDCHAR_IOCSEEKTO ⟨c, o⟩ fPos k = .ok ⟨0, p, k⟩) ∧
    k.dev.buffer.findEntryOffsetForFpos p =
      some ((k.dev.buffer.outOffs + c) % maxWriteOperations, o)

/-- The number of a valid slot, counted from the read index. -/
private theorem slot_number (outOffs : Nat) {i : Nat} (hi : i < maxWriteOperations) :
    ((((outOffs + i) % maxWriteOperations : Nat) : Int) - outOffs) % maxWriteOperations = i := by
  unfold maxWriteOperations at *
  omega

theorem Idle.addressesAgree (h : Idle kmalloc k cmds log) : AddressesAgree k where
  total := by
    refine ⟨_, h.commands_eq, h.totalSize_eq, ?_⟩
    rw [h.validEntries_sizes, ← List.length_flatten]
  lookup := by
    intro p hp
    rw [h.totalSize_eq] at hp ⊢
    have hcontent := h.content_lt
    have hfind := h.toStores.find_eq (show p < 2 ^ 64 by omega)
    cases hloc : locate (log.visible.map List.length) p with
    | none =>
      rw [locate_eq_none_iff, ← List.length_flatten] at hloc
      exact absurd hp (Nat.not_lt.mpr hloc)
    | some pair =>
      obtain ⟨i, o⟩ := pair
      rw [hloc, Option.map_some] at hfind
      refine ⟨_, o, hfind, fun fPos => ⟨fun _ => ?_, h.llseek_position (Nat.le_of_lt hp) fPos⟩⟩
      have hpos := locate_eq_some_iff_position.mp hloc
      obtain ⟨size, hsize, -⟩ := position_eq_some_iff.mp hpos
      have hi : i < maxWriteOperations := by
        have hlt := (List.getElem?_eq_some_iff.mp hsize).1
        rw [List.length_map, CommandLog.visible, length_rtake] at hlt
        omega
      rw [slot_number _ hi]
      exact h.ioctl_of_position hpos fPos
  seek := by
    intro c o e he ho
    obtain ⟨cmd, hcmd, hlt⟩ := (exists_entry_iff h.toStores c o).mp ⟨e, he, ho⟩
    have hpos : position (log.visible.map List.length) c o =
        some (((log.visible.map List.length).take c).sum + o) :=
      position_eq_some_iff.mpr ⟨cmd.length, by rw [List.getElem?_map, hcmd]; rfl, hlt, rfl⟩
    have hsum := position_lt_sum hpos
    rw [← List.length_flatten] at hsum
    refine ⟨_, ?_, h.ioctl_of_position hpos, ?_⟩
    · rw [h.totalSize_eq]
      exact hsum
    · have hcontent : log.visible.flatten.length < 2 ^ 63 := h.content_lt
      rw [h.toStores.find_eq (by omega), locate_eq_some_iff_position.mpr hpos]
      rfl

/-- The search, the seek request and `aesd_llseek` agree after any run of
calls. -/
theorem addressing_agrees (kmalloc : Kmalloc) (calls : List Call) :
    ∃ events s, Driver.loaded.run kmalloc calls = .ok (events, s) ∧ AddressesAgree s.k := by
  obtain ⟨events, s, cmds, hrun, -, hready⟩ := Driver.run_loaded kmalloc calls
  exact ⟨events, s, hrun, hready.idle.addressesAgree⟩

end AesdChar
