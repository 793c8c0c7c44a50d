import AesdChar.Scull.Pipe.Invariant

/-!
# A pipe is a queue

Every step of a task keeps `PipeSystem.Inv`, and what it does to the data is a step
of a queue.  There is one lemma for each part of a call, and `PipeSystem.Inv.run` is
the induction over a run.

A run is safe if the size that `scull_p_open` stores is positive and fits the buffer
that is there.  The size is a parameter that anybody can change, also while the device is open.
-/

namespace AesdChar.Scull

open CodeLib CodeLib.CInt CodeLib.Mutex CodeLib.Ring

/-! ## Memory -/

section Memory

variable {kmalloc : Kmalloc} {m : PipeMem} {q : List Byte}

/-- Opening the device leaves the buffer that is there, or allocates one. -/
theorem PipeMem.openBuffer_spec (h : m.Settled kmalloc q) (ok : Bool) (size : Int) :
    m.openBuffer kmalloc ok size = m ∧ m.dev.buffer = .null ∨
      (m.openBuffer kmalloc ok size).dev.buffer ≠ .null ∧
        (m.openBuffer kmalloc ok size).dev.nreaders = m.dev.nreaders ∧
        (m.openBuffer kmalloc ok size).dev.nwriters = m.dev.nwriters ∧
        (m.openBuffer kmalloc ok size).Shape kmalloc q .allocated := by
  rcases h with ⟨hm, rfl⟩ | ⟨cells, n, x, y, hx, hy, hring⟩
  · unfold openBuffer
    rw [if_pos hm.buffer_eq]
    by_cases hnull : (m.heap.alloc kmalloc.maxSize ok (sizeT size)).1 = .null
    · left
      refine ⟨?_, hm.buffer_eq⟩
      show (⟨(m.heap.alloc kmalloc.maxSize ok (sizeT size)).2,
        { m.dev with buffer := (m.heap.alloc kmalloc.maxSize ok (sizeT size)).1 }⟩ : PipeMem) = m
      rw [hnull, Heap.alloc_null hnull, ← hm.buffer_eq]
    · right
      refine ⟨hnull, rfl, rfl, ⟨_, hnull, hm.owns.alloc hnull, ?_⟩, Or.inl rfl⟩
      rw [List.length_replicate]
      rcases Heap.alloc_ne_null_iff.mp hnull with hzero | hgrant
      · omega
      · exact hgrant.2
  · right
    unfold openBuffer
    rw [if_neg hring.buffer_ne]
    exact ⟨hring.buffer_ne, rfl, rfl, ⟨cells, hring.toBuffered⟩,
      Or.inr ⟨cells, n, x, y, hx, hy, hring⟩⟩

/-- The size that is stored is positive and fits the buffer. -/
def PipeMem.Fits (m : PipeMem) (size : Int) : Prop :=
  0 < size ∧
    ((m.heap.blockSize? m.dev.buffer).any fun allocated : Nat => decide (size ≤ allocated)) = true

theorem PipeMem.openSize_spec {size : Int} (h : m.Shape kmalloc q .allocated)
    (hfits : m.Fits size) : (m.openSize size).Shape kmalloc [] .sized := by
  obtain ⟨⟨cells, hbuffer⟩, -⟩ := h
  obtain ⟨hpos, hany⟩ := hfits
  obtain ⟨allocated, hsize, hany⟩ := (Option.any_eq_true _ _).mp hany
  have hle : size ≤ allocated := of_decide_eq_true hany
  have hne : cells ≠ [] := by
    rintro rfl
    rcases hbuffer.owns.fits _ List.mem_cons_self with ⟨-, hcells⟩ | ⟨haddr, -⟩
    · exact hcells rfl
    · unfold Heap.blockSize? at hsize
      split at hsize
      · rename_i a ha
        rw [ha] at haddr
        cases haddr
      · cases hsize
  have hlen := hbuffer.owns.blockSize?_eq List.mem_cons_self hne
  rw [hsize, Option.some.injEq] at hlen
  refine ⟨rfl, cells, size.toNat, ⟨hbuffer.buffer_ne, hbuffer.owns, hbuffer.length_le⟩, ?_, ?_,
    ?_, ?_⟩
  · omega
  · omega
  · show size = _
    omega
  · show size = _
    omega

theorem PipeMem.openWp_spec (h : m.Shape kmalloc q .sized) : m.openWp.Shape kmalloc q .wpReset := by
  obtain ⟨rfl, cells, n, hsized⟩ := h
  exact ⟨rfl, rfl, cells, n, ⟨hsized.buffer_ne, hsized.owns, hsized.length_le⟩, hsized.pos,
    hsized.le, hsized.buffersize_eq, hsized.bufEnd_eq⟩

theorem PipeMem.openRp_spec (h : m.Shape kmalloc q .wpReset) :
    m.openRp.Shape kmalloc q .opened := by
  obtain ⟨rfl, hwp, cells, n, hsized⟩ := h
  have hpos := hsized.pos
  refine ⟨cells, n, 0, 0, hpos, hpos, ⟨⟨hsized.buffer_ne, hsized.owns, hsized.length_le⟩,
    hsized.pos, hsized.le, hsized.buffersize_eq, hsized.bufEnd_eq⟩, rfl, hwp, by omega, by omega,
    ?_, ?_⟩
  · exact Carries.empty hsized.le (Nat.mod_lt _ hpos)
  · simp [stop]

/-- The counts have nothing to do with the bytes. -/
theorem PipeMem.Ring.with_counts {cells : List (Option Byte)} {n x y : Nat}
    (h : m.Ring kmalloc cells n x y q) (nreaders nwriters : Int) :
    { m with dev := { m.dev with nreaders := nreaders, nwriters := nwriters } }.Ring kmalloc cells n
      x y q :=
  ⟨⟨⟨h.buffer_ne, h.owns, h.length_le⟩, h.pos, h.le, h.buffersize_eq, h.bufEnd_eq⟩, h.rp_eq,
    h.wp_eq, h.rp_le, h.wp_le, h.carries, h.stop_eq⟩

theorem PipeMem.Settled.with_counts (h : m.Settled kmalloc q) (nreaders nwriters : Int) :
    { m with dev := { m.dev with nreaders := nreaders, nwriters := nwriters } }.Settled
      kmalloc q := by
  rcases h with ⟨hm, hq⟩ | ⟨cells, n, x, y, hx, hy, hring⟩
  · exact Or.inl ⟨⟨hm.buffer_eq, hm.owns⟩, hq⟩
  · exact Or.inr ⟨cells, n, x, y, hx, hy, hring.with_counts nreaders nwriters⟩

/-- Freeing the buffer leaves nothing. -/
theorem PipeMem.free_spec (h : m.Settled kmalloc q) :
    ∃ heap, m.heap.free m.dev.buffer = .ok heap ∧ heap.Owns [] := by
  rcases h with ⟨hm, -⟩ | ⟨cells, n, x, y, hx, hy, hring⟩
  · rw [hm.buffer_eq]
    exact ⟨m.heap, rfl, hm.owns⟩
  · exact hring.owns.free

/-- An operation that need not wait finds data, or room. -/
theorem PipeMem.transfer_of_ready (h : m.Settled kmalloc q) (hbuffer : m.dev.buffer ≠ .null)
    {op : PipeOp} (hready : op.ready m.dev = true) :
    m.Shape kmalloc q (PipePc.transfer op).phase := by
  rcases h with ⟨hm, -⟩ | ⟨cells, n, x, y, hx, hy, hring⟩
  · exact absurd hm.buffer_eq hbuffer
  · cases op with
    | read count nonblock =>
      have hne : m.dev.rp ≠ m.dev.wp := of_decide_eq_true hready
      exact ⟨fun hq => hne ((hring.rp_eq_wp_iff hx hy).mpr hq), cells, n, x, y, hx, hy, hring⟩
    | write buf nonblock =>
      have hne : m.dev.spacefree ≠ 0 := of_decide_eq_true hready
      have hlen := hring.length_lt
      rw [hring.spacefree_eq hx hy] at hne
      exact ⟨cells, n, x, y, by omega, hx, hy, hring⟩

end Memory

/-! ## Safe runs -/

section Steps

variable {τ : Type} [DecidableEq τ] {kmalloc : Kmalloc} {mode : τ → FMode} {s s' : PipeSystem τ}
  {q : List Byte} {t : τ} {answer : PipeAnswer}

/-- The size that an `open` is about to store fits the buffer. -/
def PipeSystem.SafeStep (s : PipeSystem τ) : PipeAct τ → Prop
  | .step t _ => s.tasks t = .openSize → s.mem.Fits s.params.scullPBuffer
  | _ => True

/-- A run every step of which meets a condition on the state before it. -/
def PipeSystem.Along (kmalloc : Kmalloc) (mode : τ → FMode)
    (P : PipeSystem τ → PipeAct τ → Prop) (s : PipeSystem τ) (acts : List (PipeAct τ)) : Prop :=
  Trace.Along (fun s act => s.step kmalloc mode act) P s acts

/-- A run of safe steps. -/
def PipeSystem.SafeRun (kmalloc : Kmalloc) (mode : τ → FMode) (s : PipeSystem τ)
    (acts : List (PipeAct τ)) : Prop :=
  s.Along kmalloc mode SafeStep acts

omit [DecidableEq τ] in
instance PipeMem.decidableFits (m : PipeMem) (size : Int) : Decidable (m.Fits size) :=
  inferInstanceAs (Decidable (_ ∧ _))

instance PipeSystem.decidableSafeStep (s : PipeSystem τ) :
    (act : PipeAct τ) → Decidable (s.SafeStep act)
  | .call _ _ => inferInstanceAs (Decidable True)
  | .step t _ =>
    inferInstanceAs (Decidable (s.tasks t = .openSize → s.mem.Fits s.params.scullPBuffer))
  | .ioctl _ => inferInstanceAs (Decidable True)

instance PipeSystem.decidableAlong (P : PipeSystem τ → PipeAct τ → Prop)
    [∀ s act, Decidable (P s act)]
    (s : PipeSystem τ) (acts : List (PipeAct τ)) : Decidable (s.Along kmalloc mode P acts) :=
  inferInstanceAs (Decidable (Trace.Along (fun s act => s.step kmalloc mode act) P s acts))

instance PipeSystem.decidableSafeRun (s : PipeSystem τ) (acts : List (PipeAct τ)) :
    Decidable (s.SafeRun kmalloc mode acts) :=
  inferInstanceAs (Decidable (s.Along kmalloc mode PipeSystem.SafeStep acts))

/-- A step that does not fail, that is one of the queue, and behind which the
invariant holds. -/
def PipeSystem.Refines (kmalloc : Kmalloc) (mode : τ → FMode) (q : List Byte)
    (r : Except Fault (PipeEvent τ × PipeSystem τ)) : Prop :=
  Trace.Refines PipeEvent.after (fun s q => PipeSystem.Inv kmalloc mode s q) q r

/-! ## Steps of the tasks -/

namespace PipeSystem.Inv

omit [DecidableEq τ] in
/-- Nothing happens. -/
theorem stay (h : s.Inv kmalloc mode q) : Refines kmalloc mode q (.ok (.silent, s)) :=
  ⟨_, s, q, rfl, rfl, h⟩

omit [DecidableEq τ] in
/-- A task that is in no operation needs no access mode. -/
theorem allowed_of_none {pc : PipePc} (h : pc.op? = none) (op : PipeOp) (hop : pc.op? = some op) :
    PipeSystem.allowed (mode t) (.op op) = true := by
  rw [h] at hop
  cases hop

theorem mutexUnlock_eq (h : s.Inv kmalloc mode q) (ht : (s.tasks t).holds = true) :
    s.mutexUnlock t = .ok { s with lock := none } := by
  rw [mutexUnlock, if_pos ((h.lock t).mpr ht)]

/-- A task waits for the mutex. -/
theorem mutexLock (h : s.Inv kmalloc mode q) {pc : PipePc} (hnew : pc.holds = true)
    (hphase : pc.phase = .settled) (hcounted : pc.counted = (s.tasks t).counted)
    (hop : ∀ op, pc.op? = some op → PipeSystem.allowed (mode t) (.op op) = true) :
    Refines kmalloc mode q (.ok (s.mutexLock t pc)) := by
  unfold PipeSystem.mutexLock
  split
  · rename_i hfree
    exact ⟨_, _, q, rfl, rfl, h.acquire hfree rfl rfl rfl hnew hphase hcounted hop⟩
  · exact h.stay

theorem mutexLockInterruptible (h : s.Inv kmalloc mode q) {fail pc : PipePc}
    (hold : (s.tasks t).holds = false) (hnew : pc.holds = true) (hphase : pc.phase = .settled)
    (hcounted : pc.counted = (s.tasks t).counted)
    (hop : ∀ op, pc.op? = some op → PipeSystem.allowed (mode t) (.op op) = true)
    (hfail : fail.holds = false) (hfail_counted : fail.counted = (s.tasks t).counted)
    (hfail_op : fail.op? = none) :
    Refines kmalloc mode q (.ok (s.mutexLockInterruptible t answer fail pc)) := by
  unfold PipeSystem.mutexLockInterruptible
  split
  · rename_i hfree
    exact ⟨_, _, q, rfl, rfl, h.acquire hfree rfl rfl rfl hnew hphase hcounted hop⟩
  · split
    · exact ⟨_, _, q, rfl, rfl,
        h.outside rfl rfl rfl hold hfail hfail_counted (allowed_of_none hfail_op)⟩
    · exact h.stay

/-- The steps of `scull_p_open`. -/
theorem openStep [Fintype τ] (h : s.Inv kmalloc mode q) (hcard : Fintype.card τ < 2 ^ 30)
    (hsafe : s.SafeStep (.step t answer))
    (hpc : s.tasks t = .openLock ∨ s.tasks t = .openBuffer ∨ (s.tasks t).opening = true) :
    Refines kmalloc mode q (s.taskStep kmalloc mode t answer) := by
  unfold taskStep
  have hshape := @shape_of_holds _ _ _ _ _ t h
  cases htask : s.tasks t with
  | openLock =>
    exact h.mutexLockInterruptible (by rw [htask]; rfl) rfl rfl (by rw [htask]; rfl)
      (allowed_of_none rfl) rfl (by rw [htask]; rfl) rfl
  | openBuffer =>
    rw [htask] at hshape
    have howner : (s.tasks t).holds = true := by
      rw [htask]
      rfl
    have hlock := (h.lock t).mpr howner
    rcases PipeMem.openBuffer_spec (hshape rfl) answer.allocOk s.params.scullPBuffer with
      ⟨hsame, hnull⟩ | ⟨hne, hreaders, hwriters, hallocated⟩
    · simp only [hsame, hnull, if_true, mutexUnlock, hlock, ok_bind, pure_eq_ok]
      exact ⟨_, _, q, rfl, rfl, h.owner_same howner rfl rfl (allowed_of_none rfl)
        (by rw [htask]; rfl) (by rw [htask]; exact id) rfl rfl rfl (hshape rfl)⟩
    · simp only [hne, if_false, pure_eq_ok]
      refine ⟨_, _, q, rfl, rfl, h.owner howner rfl hlock (allowed_of_none rfl) ?_ ?_ ?_
        hallocated⟩
      · exact h.counts.congr (by rw [htask]; rfl) hreaders hwriters
      · exact fun hnull => absurd hnull hne
      · intro _
        refine ⟨t, Or.inr ?_⟩
        show (Function.update s.tasks t .openSize t).opening = true
        rw [Function.update_self]
        rfl
  | openSize =>
    rw [htask] at hshape
    exact ⟨_, _, [], rfl, rfl, h.owner_same (by rw [htask]; rfl) rfl
      ((h.lock t).mpr (by rw [htask]; rfl)) (allowed_of_none rfl) (by rw [htask]; rfl)
      (fun _ => rfl) rfl rfl rfl (PipeMem.openSize_spec (hshape rfl) (hsafe htask))⟩
  | openWp =>
    rw [htask] at hshape
    exact ⟨_, _, q, rfl, rfl, h.owner_same (by rw [htask]; rfl) rfl
      ((h.lock t).mpr (by rw [htask]; rfl)) (allowed_of_none rfl) (by rw [htask]; rfl)
      (fun _ => rfl) rfl rfl rfl (PipeMem.openWp_spec (hshape rfl))⟩
  | openRp =>
    rw [htask] at hshape
    exact ⟨_, _, q, rfl, rfl, h.owner_same (by rw [htask]; rfl) rfl
      ((h.lock t).mpr (by rw [htask]; rfl)) (allowed_of_none rfl) (by rw [htask]; rfl)
      (fun _ => rfl) rfl rfl rfl (PipeMem.openRp_spec (hshape rfl))⟩
  | openCount =>
    rw [htask] at hshape
    have howner : (s.tasks t).holds = true := by
      rw [htask]
      rfl
    have hcounts : Counts mode (Function.update s.tasks t .user)
        (s.mem.openCount (mode t)).dev :=
      h.counts.openCount hcard (by rw [htask]; rfl) rfl
    obtain ⟨cells, n, x, y, hx, hy, hring⟩ := hshape rfl
    simp only [mutexUnlock, (h.lock t).mpr howner, if_true, ok_bind, pure_eq_ok]
    refine ⟨_, _, q, rfl, rfl, h.owner howner rfl rfl (allowed_of_none rfl) hcounts ?_ ?_ ?_⟩
    · exact fun hnull => absurd hnull hring.buffer_ne
    · intro _
      refine ⟨t, Or.inl ?_⟩
      show (Function.update s.tasks t .user t).counted = true
      rw [Function.update_self]
      rfl
    · exact Or.inr ⟨cells, n, x, y, hx, hy, hring.with_counts _ _⟩
  | _ =>
    rw [htask] at hpc
    rcases hpc with hpc | hpc | hpc <;> cases hpc

/-- Behind the last reader and writer the buffer is freed. -/
theorem releaseCount_spec [Fintype τ] (h : s.Inv kmalloc mode q) (hcard : Fintype.card τ < 2 ^ 30)
    (hpc : s.tasks t = .releaseCount) :
    ∃ m', s.mem.releaseCount (mode t) = .ok m' ∧
      Counts mode (Function.update s.tasks t .releaseUnlock) m'.dev ∧
      (m'.dev.buffer = .null ∧ m'.dev.nreaders + m'.dev.nwriters = 0 ∧ m'.Settled kmalloc [] ∨
        m'.dev.buffer ≠ .null ∧ m'.dev.nreaders + m'.dev.nwriters ≠ 0 ∧ m'.Settled kmalloc q) := by
  have hsettled : s.mem.Settled kmalloc q := by
    have hshape := @shape_of_holds _ _ _ _ _ t h
    rw [hpc] at hshape
    exact hshape rfl
  have hcounted : (s.tasks t).counted = true := by
    rw [hpc]
    rfl
  have hout : (s.mem.countOut (mode t)).Settled kmalloc q := hsettled.with_counts _ _
  have hcounts : Counts mode (Function.update s.tasks t .releaseUnlock)
      (s.mem.countOut (mode t)).dev := h.counts.countOut hcard hcounted rfl
  -- The sum of the counters does not overflow either.
  have hrange := hcounts.range hcard
  have hsum : int32 ((s.mem.countOut (mode t)).dev.nreaders +
      (s.mem.countOut (mode t)).dev.nwriters) = (s.mem.countOut (mode t)).dev.nreaders +
      (s.mem.countOut (mode t)).dev.nwriters := int32_of_range (by omega) (by omega)
  unfold PipeMem.releaseCount
  simp only [hsum]
  by_cases hzero : (s.mem.countOut (mode t)).dev.nreaders +
      (s.mem.countOut (mode t)).dev.nwriters = 0
  · obtain ⟨heap, hfree, howns⟩ := PipeMem.free_spec hout
    refine ⟨⟨heap, { (s.mem.countOut (mode t)).dev with buffer := .null }⟩, ?_,
      ⟨hcounts.readers, hcounts.writers⟩, Or.inl ⟨rfl, hzero, Or.inl ⟨⟨rfl, howns⟩, rfl⟩⟩⟩
    simp only [if_pos hzero, hfree, ok_bind, pure_eq_ok]
  · refine ⟨s.mem.countOut (mode t), if_neg hzero, hcounts, Or.inr ⟨?_, hzero, hout⟩⟩
    -- Without a buffer nothing is counted, and the file is neither a reader nor a writer.
    intro hnull
    have hcount := h.unbuffered hnull
    have hnoread : ¬ (mode t).read = true := fun hread =>
      h.counts.pos hcounted (Or.inl hread) hcount
    have hnowrite : ¬ (mode t).write = true := fun hwrite =>
      h.counts.pos hcounted (Or.inr hwrite) hcount
    apply hzero
    simp only [PipeMem.countOut, hnoread, hnowrite]
    exact hcount

/-- The steps of `scull_p_release`. -/
theorem releaseStep [Fintype τ] (h : s.Inv kmalloc mode q) (hcard : Fintype.card τ < 2 ^ 30)
    (hpc : s.tasks t = .releaseLock ∨ s.tasks t = .releaseCount ∨ s.tasks t = .releaseUnlock) :
    Refines kmalloc mode q (s.taskStep kmalloc mode t answer) := by
  unfold taskStep
  rcases hpc with hpc | hpc | hpc
  · simp only [hpc]
    exact h.mutexLock rfl rfl (by rw [hpc]; rfl) (allowed_of_none rfl)
  · have howner : (s.tasks t).holds = true := by
      rw [hpc]
      rfl
    obtain ⟨m', hrun, hcounts, hcases⟩ := h.releaseCount_spec hcard hpc
    simp only [hpc, hrun, ok_bind, pure_eq_ok]
    rcases hcases with ⟨hnull, hzero, hsettled⟩ | ⟨hne, hcount, hsettled⟩
    · rw [if_pos hnull]
      exact ⟨_, _, [], rfl, rfl, h.owner howner rfl ((h.lock t).mpr howner) (allowed_of_none rfl)
        hcounts (fun _ => hzero) (fun hne => absurd hnull hne) hsettled⟩
    · rw [if_neg hne]
      refine ⟨_, _, q, rfl, rfl, h.owner howner rfl ((h.lock t).mpr howner) (allowed_of_none rfl)
        hcounts (fun hnull => absurd hnull hne) (fun _ => ?_) hsettled⟩
      obtain ⟨u, hu⟩ := hcounts.exists_of_ne hcount
      exact ⟨u, Or.inl hu⟩
  · have howner : (s.tasks t).holds = true := by
      rw [hpc]
      rfl
    simp only [hpc, h.mutexUnlock_eq howner, ok_bind, pure_eq_ok]
    exact ⟨_, _, q, rfl, rfl, h.owner_same howner rfl rfl (allowed_of_none rfl) (by rw [hpc]; rfl)
      (by rw [hpc]; exact id) rfl rfl rfl (by
        have hshape := h.shape_of_holds howner
        rw [hpc] at hshape
        exact hshape)⟩

/-- The owner of the mutex releases it, with the memory in order. -/
theorem unlockStep (h : s.Inv kmalloc mode q) (howner : (s.tasks t).holds = true)
    (hphase : (s.tasks t).phase = .settled) (hopening : (s.tasks t).opening = false)
    {pc : PipePc} (hnew : pc.holds = false) (hcounted : pc.counted = (s.tasks t).counted)
    (hop : ∀ op, pc.op? = some op → PipeSystem.allowed (mode t) (.op op) = true) :
    ({ s with lock := none }.goto t pc).Inv kmalloc mode q := by
  have hshape := h.shape_of_holds howner
  rw [hphase] at hshape
  refine h.owner_same howner rfl ?_ hop hcounted ?_ rfl rfl rfl ?_
  · rw [hnew]
    rfl
  · rw [hopening]
    exact fun hno => Bool.noConfusion hno
  · rw [PipePc.phase_of_not_holds hnew]
    exact hshape

/-- The steps of `scull_p_poll`. -/
theorem pollStep (h : s.Inv kmalloc mode q)
    (hpc : s.tasks t = .pollLock ∨ s.tasks t = .pollMask) :
    Refines kmalloc mode q (s.taskStep kmalloc mode t answer) := by
  unfold taskStep
  rcases hpc with hpc | hpc
  · simp only [hpc]
    exact h.mutexLock rfl rfl (by rw [hpc]; rfl) (allowed_of_none rfl)
  · have howner : (s.tasks t).holds = true := by
      rw [hpc]
      rfl
    simp only [hpc, h.mutexUnlock_eq howner, ok_bind, pure_eq_ok]
    exact ⟨_, _, q, rfl, rfl, h.unlockStep howner (by rw [hpc]; rfl) (by rw [hpc]; rfl) rfl
      (by rw [hpc]; rfl) (allowed_of_none rfl)⟩

omit [DecidableEq τ] in
/-- An operation goes on in the same task. -/
theorem allowed_same (h : s.Inv kmalloc mode q) {op : PipeOp} {pc : PipePc}
    (hold : (s.tasks t).op? = some op) (hnew : pc.op? = some op) (op' : PipeOp)
    (hop' : pc.op? = some op') : PipeSystem.allowed (mode t) (.op op') = true := by
  rw [hnew, Option.some.injEq] at hop'
  rw [← hop']
  exact h.allowed t op hold

/-- The steps of a task that waits. -/
theorem waitStep (h : s.Inv kmalloc mode q) {op : PipeOp}
    (hpc : s.tasks t = .peek op ∨ s.tasks t = .prepare op ∨ s.tasks t = .check op ∨
      s.tasks t = .schedule op ∨ s.tasks t = .finish op) :
    Refines kmalloc mode q (s.taskStep kmalloc mode t answer) := by
  have hop : (s.tasks t).op? = some op := by
    rcases hpc with hpc | hpc | hpc | hpc | hpc <;> rw [hpc] <;> rfl
  have hcounted : (s.tasks t).counted = true := by
    rcases hpc with hpc | hpc | hpc | hpc | hpc <;> rw [hpc] <;> rfl
  have hholds : (s.tasks t).holds = false := by
    rcases hpc with hpc | hpc | hpc | hpc | hpc <;> rw [hpc] <;> rfl
  -- The task goes on in the operation, or returns from it.
  have hgoto (s' : PipeSystem τ) (pc : PipePc) (htasks : s'.tasks = s.tasks)
      (hlock : s'.lock = s.lock) (hmem : s'.mem = s.mem) (hnew : pc.holds = false)
      (hnew_counted : pc.counted = true) (hnew_op : pc.op? = some op ∨ pc.op? = none) :
      (s'.goto t pc).Inv kmalloc mode q := by
    refine h.outside ?_ hlock hmem hholds hnew (hnew_counted.trans hcounted.symm) ?_
    · show Function.update s'.tasks t pc = _
      rw [htasks]
    · rcases hnew_op with hsame | hnone
      · exact h.allowed_same hop hsame
      · exact allowed_of_none hnone
  have hset (queue : WaitQueue τ) : (s.setQueue op queue).tasks = s.tasks ∧
      (s.setQueue op queue).lock = s.lock ∧ (s.setQueue op queue).mem = s.mem := by
    cases op <;> exact ⟨rfl, rfl, rfl⟩
  unfold taskStep
  rcases hpc with hpc | hpc | hpc | hpc | hpc
  · simp only [hpc, pure_eq_ok]
    refine ⟨_, _, q, rfl, rfl, hgoto s _ rfl rfl rfl ?_ ?_ ?_⟩ <;> split <;> simp [PipePc.holds,
      PipePc.counted, PipePc.op?]
  · simp only [hpc, pure_eq_ok]
    split
    · split
      · exact ⟨_, _, q, rfl, rfl, hgoto _ _ (hset _).1 (hset _).2.1 (hset _).2.2 rfl rfl
          (Or.inl rfl)⟩
      · exact ⟨_, _, q, rfl, rfl, hgoto _ _ (hset _).1 (hset _).2.1 (hset _).2.2 rfl rfl
          (Or.inr rfl)⟩
    · exact ⟨_, _, q, rfl, rfl, hgoto _ _ (hset _).1 (hset _).2.1 (hset _).2.2 rfl rfl
        (Or.inl rfl)⟩
  · simp only [hpc, pure_eq_ok]
    refine ⟨_, _, q, rfl, rfl, hgoto s _ rfl rfl rfl ?_ ?_ ?_⟩ <;> split <;> simp [PipePc.holds,
      PipePc.counted, PipePc.op?]
  · simp only [hpc, pure_eq_ok]
    split
    · exact h.stay
    · refine ⟨_, _, q, rfl, rfl, hgoto s _ rfl rfl rfl ?_ ?_ ?_⟩ <;> split <;> simp [PipePc.holds,
        PipePc.counted, PipePc.op?]
  · simp only [hpc, pure_eq_ok]
    split
    · exact ⟨_, _, q, rfl, rfl, hgoto _ _ (hset _).1 (hset _).2.1 (hset _).2.2 rfl rfl
        (Or.inr rfl)⟩
    · exact ⟨_, _, q, rfl, rfl, hgoto _ _ (hset _).1 (hset _).2.1 (hset _).2.2 rfl rfl
        (Or.inl rfl)⟩

/-- The steps of a task around its critical sections. -/
theorem lockStep (h : s.Inv kmalloc mode q) {op : PipeOp}
    (hpc : s.tasks t = .lock op ∨ s.tasks t = .test op ∨ s.tasks t = .blocked op ∨
      s.tasks t = .fault op ∨ (∃ count, s.tasks t = .unlock op count) ∨
      ∃ count, s.tasks t = .wake op count) :
    Refines kmalloc mode q (s.taskStep kmalloc mode t answer) := by
  have hop : (s.tasks t).op? = some op := by
    rcases hpc with hpc | hpc | hpc | hpc | ⟨count, hpc⟩ | ⟨count, hpc⟩ <;> rw [hpc] <;> rfl
  have hcounted : (s.tasks t).counted = true := by
    rcases hpc with hpc | hpc | hpc | hpc | ⟨count, hpc⟩ | ⟨count, hpc⟩ <;> rw [hpc] <;> rfl
  have hunlock (howner : (s.tasks t).holds = true) (hphase : (s.tasks t).phase = .settled)
      (hopening : (s.tasks t).opening = false) (pc : PipePc) (hnew : pc.holds = false)
      (hnew_counted : pc.counted = true) (hnew_op : pc.op? = some op ∨ pc.op? = none) :
      ({ s with lock := none }.goto t pc).Inv kmalloc mode q := by
    refine h.unlockStep howner hphase hopening hnew (hnew_counted.trans hcounted.symm) ?_
    rcases hnew_op with hsame | hnone
    · exact h.allowed_same hop hsame
    · exact allowed_of_none hnone
  unfold taskStep
  rcases hpc with hpc | hpc | hpc | hpc | ⟨count, hpc⟩ | ⟨count, hpc⟩
  · simp only [hpc]
    exact h.mutexLockInterruptible (by rw [hpc]; rfl) rfl rfl (by rw [hpc]; rfl)
      (h.allowed_same hop rfl) rfl (by rw [hpc]; rfl) rfl
  · have howner : (s.tasks t).holds = true := by
      rw [hpc]
      rfl
    have hsettled : s.mem.Settled kmalloc q := by
      have hshape := h.shape_of_holds howner
      rw [hpc] at hshape
      exact hshape
    simp only [hpc, pure_eq_ok]
    cases hready : op.ready s.mem.dev with
    | true =>
      exact ⟨_, _, q, rfl, rfl, h.owner_same howner rfl ((h.lock t).mpr howner)
        (h.allowed_same hop rfl) (by rw [hpc]; rfl) (by rw [hpc]; exact id) rfl rfl rfl
        (PipeMem.transfer_of_ready hsettled (h.buffer_ne hop hcounted) hready)⟩
    | false =>
      exact ⟨_, _, q, rfl, rfl, h.owner_same howner rfl ((h.lock t).mpr howner)
        (h.allowed_same hop rfl) (by rw [hpc]; rfl) (by rw [hpc]; exact id) rfl rfl rfl hsettled⟩
  · have howner : (s.tasks t).holds = true := by
      rw [hpc]
      rfl
    have hgo := hunlock howner (by rw [hpc]; rfl) (by rw [hpc]; rfl)
    simp only [hpc, h.mutexUnlock_eq howner, ok_bind, pure_eq_ok]
    split
    · exact ⟨_, _, q, rfl, rfl, hgo _ rfl rfl (Or.inr rfl)⟩
    · cases op.isRead with
      | true => exact ⟨_, _, q, rfl, rfl, hgo _ rfl rfl (Or.inl rfl)⟩
      | false => exact ⟨_, _, q, rfl, rfl, hgo _ rfl rfl (Or.inl rfl)⟩
  · have howner : (s.tasks t).holds = true := by
      rw [hpc]
      rfl
    simp only [hpc, h.mutexUnlock_eq howner, ok_bind, pure_eq_ok]
    exact ⟨_, _, q, rfl, rfl, hunlock howner (by rw [hpc]; rfl) (by rw [hpc]; rfl) _ rfl rfl
      (Or.inr rfl)⟩
  · have howner : (s.tasks t).holds = true := by
      rw [hpc]
      rfl
    simp only [hpc, h.mutexUnlock_eq howner, ok_bind, pure_eq_ok]
    exact ⟨_, _, q, rfl, rfl, hunlock howner (by rw [hpc]; rfl) (by rw [hpc]; rfl) _ rfl rfl
      (Or.inl rfl)⟩
  · have hwoken : (s.wakeOthers op).tasks = s.tasks ∧ (s.wakeOthers op).lock = s.lock ∧
        (s.wakeOthers op).mem = s.mem := by
      cases op <;> exact ⟨rfl, rfl, rfl⟩
    simp only [hpc, pure_eq_ok]
    have htasks : ((s.wakeOthers op).goto t .user).tasks = Function.update s.tasks t .user := by
      show Function.update (s.wakeOthers op).tasks t .user = _
      rw [hwoken.1]
    refine ⟨_, _, q, rfl, rfl, h.outside htasks hwoken.2.1 hwoken.2.2 ?_ rfl ?_
      (allowed_of_none rfl)⟩
    · rw [hpc]
      rfl
    · rw [hpc]
      rfl

/-- The copies and what follows them. -/
theorem dataStep (h : s.Inv kmalloc mode q) {op : PipeOp}
    (hpc : s.tasks t = .transfer op ∨ ∃ count, s.tasks t = .wrap op count) :
    Refines kmalloc mode q (s.taskStep kmalloc mode t answer) := by
  have hop : (s.tasks t).op? = some op := by
    rcases hpc with hpc | ⟨count, hpc⟩ <;> rw [hpc] <;> rfl
  have howner : (s.tasks t).holds = true := by
    rcases hpc with hpc | ⟨count, hpc⟩ <;> rw [hpc] <;> rfl
  have hlock := (h.lock t).mpr howner
  have hshape := h.shape_of_holds howner
  unfold taskStep
  rcases hpc with hpc | ⟨count, hpc⟩
  · rw [hpc] at hshape
    simp only [hpc]
    cases op with
    | read count nonblock =>
      obtain ⟨hne, cells, n, x, y, hx, hy, hring⟩ := hshape
      obtain ⟨k, hk, -, -, hrun | ⟨m', hrun, hreaders, hwriters, hring'⟩⟩ :=
        hring.transferRead_spec hx hy hne count answer.uncopied
      · simp only [transfer, hrun, ok_bind, pure_eq_ok]
        exact ⟨_, _, q, rfl, rfl, h.owner_same howner rfl hlock (h.allowed_same hop rfl)
          (by rw [hpc]; rfl) (by rw [hpc]; exact id) rfl rfl rfl
          (Or.inr ⟨cells, n, x, y, hx, hy, hring⟩)⟩
      · simp only [transfer, hrun, ok_bind, pure_eq_ok]
        have hlen : (q.take k).length = k := by
          rw [List.length_take]
          omega
        have hafter : (PipeEvent.delivered (q.take k) : PipeEvent τ).after q = some (q.drop k) := by
          show (if _ then some _ else none) = _
          rw [if_pos (List.take_prefix k q), hlen]
        have hbuffer : m'.dev.buffer ≠ .null := hring'.buffer_ne
        refine ⟨_, _, q.drop k, rfl, hafter, h.owner howner rfl hlock (h.allowed_same hop rfl)
          (h.counts.congr (by rw [hpc]; rfl) hreaders hwriters)
          (fun hnull => absurd hnull hbuffer) (fun _ => ⟨t, Or.inl ?_⟩)
          ⟨cells, n, x + k, y, hy, hring'⟩⟩
        show (Function.update s.tasks t _ t).counted = true
        rw [Function.update_self]
        rfl
    | write buf nonblock =>
      obtain ⟨cells, n, x, y, hroom, hx, hy, hring⟩ := hshape
      obtain ⟨k, cells', m', hk, -, hreaders, hwriters, ⟨hrun, hring'⟩ | ⟨hrun, hring'⟩⟩ :=
        hring.transferWrite_spec hx hy hroom buf answer.uncopied
      all_goals
        simp only [transfer, hrun, ok_bind, pure_eq_ok]
        have hbuffer : m'.dev.buffer ≠ .null := hring'.buffer_ne
      · refine ⟨_, _, q, rfl, rfl, h.owner howner rfl hlock (h.allowed_same hop rfl)
          (h.counts.congr (by rw [hpc]; rfl) hreaders hwriters)
          (fun hnull => absurd hnull hbuffer) (fun _ => ⟨t, Or.inl ?_⟩)
          (Or.inr ⟨cells', n, x, y, hx, hy, hring'⟩)⟩
        show (Function.update s.tasks t _ t).counted = true
        rw [Function.update_self]
        rfl
      · refine ⟨_, _, q ++ buf.take k, rfl, rfl, h.owner howner rfl hlock (h.allowed_same hop rfl)
          (h.counts.congr (by rw [hpc]; rfl) hreaders hwriters)
          (fun hnull => absurd hnull hbuffer) (fun _ => ⟨t, Or.inl ?_⟩)
          ⟨cells', n, x, y + k, hx, hring'⟩⟩
        show (Function.update s.tasks t _ t).counted = true
        rw [Function.update_self]
        rfl
  · rw [hpc] at hshape
    simp only [hpc, pure_eq_ok]
    cases op with
    | read _ _ =>
      obtain ⟨cells, n, x, y, hy, hring⟩ := hshape
      have hwrap := hring.wrapRead_spec
      have hsame : s.mem.wrapRead.dev.nreaders = s.mem.dev.nreaders ∧
          s.mem.wrapRead.dev.nwriters = s.mem.dev.nwriters ∧
          s.mem.wrapRead.dev.buffer = s.mem.dev.buffer := by
        unfold PipeMem.wrapRead
        split <;> exact ⟨rfl, rfl, rfl⟩
      exact ⟨_, _, q, rfl, rfl, h.owner_same howner rfl hlock (h.allowed_same hop rfl)
        (by rw [hpc]; rfl) (by rw [hpc]; exact id) hsame.2.2 hsame.1 hsame.2.1
        (Or.inr ⟨cells, n, _, y, Nat.mod_lt _ hring.pos, hy, hwrap⟩)⟩
    | write _ _ =>
      obtain ⟨cells, n, x, y, hx, hring⟩ := hshape
      have hwrap := hring.wrapWrite_spec
      have hsame : s.mem.wrapWrite.dev.nreaders = s.mem.dev.nreaders ∧
          s.mem.wrapWrite.dev.nwriters = s.mem.dev.nwriters ∧
          s.mem.wrapWrite.dev.buffer = s.mem.dev.buffer := by
        unfold PipeMem.wrapWrite
        split <;> exact ⟨rfl, rfl, rfl⟩
      exact ⟨_, _, q, rfl, rfl, h.owner_same howner rfl hlock (h.allowed_same hop rfl)
        (by rw [hpc]; rfl) (by rw [hpc]; exact id) hsame.2.2 hsame.1 hsame.2.1
        (Or.inr ⟨cells, n, x, _, hx, Nat.mod_lt _ hring.pos, hwrap⟩)⟩

/-- Every step of a task. -/
theorem taskStep [Fintype τ] (h : s.Inv kmalloc mode q) (hcard : Fintype.card τ < 2 ^ 30)
    (hsafe : s.SafeStep (.step t answer)) :
    Refines kmalloc mode q (s.taskStep kmalloc mode t answer) := by
  cases hpc : s.tasks t with
  | closed | user =>
    unfold PipeSystem.taskStep
    simp only [hpc]
    exact h.stay
  | openLock => exact h.openStep hcard hsafe (Or.inl hpc)
  | openBuffer => exact h.openStep hcard hsafe (Or.inr (Or.inl hpc))
  | openSize | openWp | openRp | openCount =>
    exact h.openStep hcard hsafe (Or.inr (Or.inr (by rw [hpc]; rfl)))
  | releaseLock => exact h.releaseStep hcard (Or.inl hpc)
  | releaseCount => exact h.releaseStep hcard (Or.inr (Or.inl hpc))
  | releaseUnlock => exact h.releaseStep hcard (Or.inr (Or.inr hpc))
  | pollLock => exact h.pollStep (Or.inl hpc)
  | pollMask => exact h.pollStep (Or.inr hpc)
  | lock op => exact h.lockStep (Or.inl hpc)
  | test op => exact h.lockStep (Or.inr (Or.inl hpc))
  | blocked op => exact h.lockStep (Or.inr (Or.inr (Or.inl hpc)))
  | fault op => exact h.lockStep (Or.inr (Or.inr (Or.inr (Or.inl hpc))))
  | unlock op count => exact h.lockStep (Or.inr (Or.inr (Or.inr (Or.inr (Or.inl ⟨count, hpc⟩)))))
  | wake op count => exact h.lockStep (Or.inr (Or.inr (Or.inr (Or.inr (Or.inr ⟨count, hpc⟩)))))
  | peek op => exact h.waitStep (Or.inl hpc)
  | prepare op => exact h.waitStep (Or.inr (Or.inl hpc))
  | check op => exact h.waitStep (Or.inr (Or.inr (Or.inl hpc)))
  | schedule op => exact h.waitStep (Or.inr (Or.inr (Or.inr (Or.inl hpc))))
  | finish op => exact h.waitStep (Or.inr (Or.inr (Or.inr (Or.inr hpc))))
  | transfer op => exact h.dataStep (Or.inl hpc)
  | wrap op count => exact h.dataStep (Or.inr ⟨count, hpc⟩)

/-! ## Runs -/

/-- A task enters a call. -/
theorem enter (h : s.Inv kmalloc mode q) (c : PipeCall) :
    (s.enter mode t c).Inv kmalloc mode q := by
  have hgoto (pc : PipePc) (hold : (s.tasks t).holds = false) (hnew : pc.holds = false)
      (hcounted : pc.counted = (s.tasks t).counted)
      (hop : ∀ op, pc.op? = some op → PipeSystem.allowed (mode t) (.op op) = true) :
      (s.goto t pc).Inv kmalloc mode q :=
    h.outside rfl rfl rfl hold hnew hcounted hop
  unfold PipeSystem.enter
  split
  · rename_i hpc
    exact hgoto _ (by rw [hpc]; rfl) rfl (by rw [hpc]; rfl) (allowed_of_none rfl)
  · rename_i hpc
    exact hgoto _ (by rw [hpc]; rfl) rfl (by rw [hpc]; rfl) (allowed_of_none rfl)
  · rename_i hpc
    exact hgoto _ (by rw [hpc]; rfl) rfl (by rw [hpc]; rfl) (allowed_of_none rfl)
  · rename_i op hpc
    split
    · rename_i hallowed
      refine hgoto _ (by rw [hpc]; rfl) rfl (by rw [hpc]; rfl) fun op' hop => ?_
      have hsame : op = op' := Option.some.inj hop
      rw [← hsame]
      exact hallowed
    · exact h
  · exact h

theorem step [Fintype τ] (h : s.Inv kmalloc mode q) (hcard : Fintype.card τ < 2 ^ 30)
    {act : PipeAct τ} (hsafe : s.SafeStep act) :
    Refines kmalloc mode q (s.step kmalloc mode act) := by
  cases act with
  | call t c => exact ⟨_, _, q, rfl, rfl, h.enter c⟩
  | step t answer => exact h.taskStep hcard hsafe
  | ioctl c =>
    exact ⟨_, _, q, rfl, rfl, h.lock, h.allowed, h.counts, h.unbuffered, h.buffered, h.shape⟩

/-- A safe run is a run of the queue. -/
theorem run [Fintype τ] (h : s.Inv kmalloc mode q) (hcard : Fintype.card τ < 2 ^ 30)
    {acts : List (PipeAct τ)} (hsafe : s.SafeRun kmalloc mode acts) :
    ∃ events s' q', s.run kmalloc mode acts = .ok (events, s') ∧
      PipeEvent.replay q events = some q' ∧ s'.Inv kmalloc mode q' :=
  Trace.run_refines (fun h hsafe => h.step hcard hsafe) h hsafe

/-- What the steps of a run keep, besides the invariant, holds behind it. -/
theorem run_keeps [Fintype τ] {P : PipeSystem τ → List Byte → Prop}
    {Q : PipeSystem τ → PipeAct τ → Prop}
    (hkeep : ∀ {s act e s' q q'}, s.Inv kmalloc mode q → s'.Inv kmalloc mode q' → P s q → Q s act →
      s.step kmalloc mode act = .ok (e, s') → e.after q = some q' → P s' q')
    (h : s.Inv kmalloc mode q) (hcard : Fintype.card τ < 2 ^ 30) (hp : P s q)
    {acts : List (PipeAct τ)} (hsafe : s.SafeRun kmalloc mode acts)
    (hq : s.Along kmalloc mode Q acts) {events : List (PipeEvent τ)}
    (hrun : s.run kmalloc mode acts = .ok (events, s')) :
    ∃ q', s'.Inv kmalloc mode q' ∧ P s' q' :=
  Trace.run_keeps (fun h hsafe => h.step hcard hsafe) hkeep h hp hsafe hq hrun

omit [DecidableEq τ] in
/-- A device that nobody has opened. -/
theorem init (kmalloc : Kmalloc) (mode : τ → FMode) (params : ScullParams) :
    (PipeSystem.init params : PipeSystem τ).Inv kmalloc mode [] where
  lock := Guards.free fun _ => rfl
  allowed _ := allowed_of_none rfl
  counts := ⟨Counting.zero fun _ => rfl, Counting.zero fun _ => rfl⟩
  unbuffered _ := rfl
  buffered hne := absurd rfl hne
  shape := Or.inl ⟨⟨rfl, Heap.Owns.empty⟩, rfl⟩

end PipeSystem.Inv

end Steps

end AesdChar.Scull
