import AesdChar.Scull.Pipe.Stream

/-!
# What a pipe tells its callers

A call that must not wait returns `EAGAIN`, `poll` returns a mask, and a read or a
write returns how many bytes it moved.  `pipe_run_answers` says that all of this is
true at the moment it is said, whatever the other tasks do: nothing can be read when a
read gives up, and a mask shows exactly what is there.

`PipeSystem.taskStep_frame` says what a step of a task leaves alone.
-/

namespace AesdChar.Scull

open CodeLib CodeLib.CInt CodeLib.Ring

section Answers

variable {τ : Type} [DecidableEq τ] {kmalloc : Kmalloc} {mode : τ → FMode} {s s' : PipeSystem τ}
  {q : List Byte} {t : τ} {e : PipeEvent τ} {answer : PipeAnswer}

/-! ## Frames -/

/-- What every step of a task does: it moves this task alone, it leaves the memory alone
unless the task has the mutex, and it turns to `blocked` or says `EAGAIN` at one place. -/
structure PipeSystem.Frame (s : PipeSystem τ) (t : τ) (e : PipeEvent τ) (s' : PipeSystem τ) :
    Prop where
  others : ∀ u, u ≠ t → s'.tasks u = s.tasks u
  mem : (s.tasks t).holds = false → s'.mem = s.mem
  blocked : ∀ op, s'.tasks t = .blocked op →
    s.tasks t = .test op ∧ op.ready s.mem.dev = false ∧ s'.mem = s.mem
  again : e = .returned t (-EAGAIN) → ∃ op, s.tasks t = .blocked op ∧ s'.lock = none ∧
    s'.mem = s.mem

theorem mutexUnlock_eq_ok (h : s.mutexUnlock t = .ok s') :
    s.lock = some t ∧ s' = { s with lock := none } := by
  unfold PipeSystem.mutexUnlock at h
  split at h
  · rename_i hlock
    exact ⟨hlock, (Except.ok.inj h).symm⟩
  · cases h

/-- A step that goes on at another place, and does not say `EAGAIN`. -/
theorem PipeSystem.Frame.goto {pc : PipePc} (htasks : s'.tasks = Function.update s.tasks t pc)
    (hmem : (s.tasks t).holds = false → s'.mem = s.mem) (hpc : ∀ op, pc ≠ .blocked op)
    (he : e ≠ .returned t (-EAGAIN)) : s.Frame t e s' where
  others u hu := by rw [htasks, Function.update_of_ne hu]
  mem := hmem
  blocked op hblocked := by
    rw [htasks, Function.update_self] at hblocked
    exact absurd hblocked (hpc op)
  again heq := absurd heq he

/-- A step that changes the queue of its operation only. -/
theorem PipeSystem.Frame.requeue (op : PipeOp) {queue : WaitQueue τ} {pc : PipePc}
    (hpc : ∀ op, pc ≠ .blocked op) (he : e ≠ .returned t (-EAGAIN)) :
    s.Frame t e ((s.setQueue op queue).goto t pc) := by
  cases op <;> exact .goto rfl (fun _ => rfl) hpc he

omit [DecidableEq τ] in
theorem PipeSystem.Frame.stay (hpc : ∀ op, s.tasks t ≠ .blocked op) : s.Frame t .silent s where
  others _ _ := rfl
  mem _ := rfl
  blocked op hblocked := absurd hblocked (hpc op)
  again heq := by cases heq

/-- A task takes the mutex, or waits for it. -/
theorem PipeSystem.Frame.mutexLock {pc : PipePc} (hold : ∀ op, s.tasks t ≠ .blocked op)
    (hpc : ∀ op, pc ≠ .blocked op) (hstep : s.mutexLock t pc = (e, s')) : s.Frame t e s' := by
  unfold PipeSystem.mutexLock at hstep
  split at hstep
  · obtain ⟨rfl, rfl⟩ := Prod.mk.inj hstep
    exact .goto rfl (fun _ => rfl) hpc (by simp)
  · obtain ⟨rfl, rfl⟩ := Prod.mk.inj hstep
    exact .stay hold

/-- The same, and a signal may end the wait. -/
theorem PipeSystem.Frame.mutexLockInterruptible {fail pc : PipePc}
    (hold : ∀ op, s.tasks t ≠ .blocked op) (hfail : ∀ op, fail ≠ .blocked op)
    (hpc : ∀ op, pc ≠ .blocked op)
    (hstep : s.mutexLockInterruptible t answer fail pc = (e, s')) : s.Frame t e s' := by
  unfold PipeSystem.mutexLockInterruptible at hstep
  split at hstep
  · obtain ⟨rfl, rfl⟩ := Prod.mk.inj hstep
    exact .goto rfl (fun _ => rfl) hpc (by simp)
  · split at hstep
    · obtain ⟨rfl, rfl⟩ := Prod.mk.inj hstep
      exact .goto rfl (fun _ => rfl) hfail (by simp [ERESTARTSYS, EAGAIN])
    · obtain ⟨rfl, rfl⟩ := Prod.mk.inj hstep
      exact .stay hold

/-- A task releases the mutex and goes on. -/
theorem PipeSystem.Frame.unlock {s₁ : PipeSystem τ} {mem : PipeMem} {pc : PipePc}
    (howner : (s.tasks t).holds = true) (hpc : ∀ op, pc ≠ .blocked op)
    (he : e ≠ .returned t (-EAGAIN))
    (hunlock : { s with mem := mem }.mutexUnlock t = .ok s₁) : s.Frame t e (s₁.goto t pc) := by
  obtain ⟨-, rfl⟩ := mutexUnlock_eq_ok hunlock
  refine .goto rfl (fun hno => ?_) hpc he
  rw [howner] at hno
  cases hno

/-- The steps of `scull_p_open`. -/
theorem PipeSystem.openStep_frame
    (hpc : s.tasks t = .openLock ∨ s.tasks t = .openBuffer ∨ (s.tasks t).opening = true)
    (hstep : s.taskStep kmalloc mode t answer = .ok (e, s')) : s.Frame t e s' := by
  unfold PipeSystem.taskStep at hstep
  cases htask : s.tasks t with
  | openLock =>
    simp only [htask, pure_eq_ok] at hstep
    exact .mutexLockInterruptible (by simp [htask]) (by simp) (by simp) (Except.ok.inj hstep)
  | openBuffer =>
    simp only [htask, pure_eq_ok] at hstep
    split at hstep
    · obtain ⟨s₁, hunlock, hrest⟩ := bind_eq_ok hstep
      obtain ⟨rfl, rfl⟩ := Prod.mk.inj (Except.ok.inj hrest)
      exact .unlock (by rw [htask]; rfl) (by simp) (by simp [ENOMEM, EAGAIN]) hunlock
    · obtain ⟨rfl, rfl⟩ := Prod.mk.inj (Except.ok.inj hstep)
      exact .goto rfl (by simp [htask, PipePc.holds]) (by simp) (by simp)
  | openSize | openWp | openRp =>
    simp only [htask, pure_eq_ok] at hstep
    obtain ⟨rfl, rfl⟩ := Prod.mk.inj (Except.ok.inj hstep)
    exact .goto rfl (by simp [htask, PipePc.holds]) (by simp) (by simp)
  | openCount =>
    simp only [htask] at hstep
    obtain ⟨s₁, hunlock, hrest⟩ := bind_eq_ok hstep
    obtain ⟨rfl, rfl⟩ := Prod.mk.inj (Except.ok.inj hrest)
    exact .unlock (by rw [htask]; rfl) (by simp) (by simp [EAGAIN]) hunlock
  | _ =>
    rw [htask] at hpc
    rcases hpc with hpc | hpc | hpc <;> cases hpc

/-- The steps of `scull_p_release`. -/
theorem PipeSystem.releaseStep_frame
    (hpc : s.tasks t = .releaseLock ∨ s.tasks t = .releaseCount ∨ s.tasks t = .releaseUnlock)
    (hstep : s.taskStep kmalloc mode t answer = .ok (e, s')) : s.Frame t e s' := by
  unfold PipeSystem.taskStep at hstep
  rcases hpc with hpc | hpc | hpc
  · simp only [hpc, pure_eq_ok] at hstep
    exact .mutexLock (by simp [hpc]) (by simp) (Except.ok.inj hstep)
  · simp only [hpc] at hstep
    obtain ⟨mem, -, hrest⟩ := bind_eq_ok hstep
    obtain ⟨rfl, rfl⟩ := Prod.mk.inj (Except.ok.inj hrest)
    refine .goto rfl (by simp [hpc, PipePc.holds]) (by simp) ?_
    split <;> simp
  · simp only [hpc] at hstep
    obtain ⟨s₁, hunlock, hrest⟩ := bind_eq_ok hstep
    obtain ⟨rfl, rfl⟩ := Prod.mk.inj (Except.ok.inj hrest)
    exact .unlock (by rw [hpc]; rfl) (by simp) (by simp [EAGAIN]) hunlock

/-- The steps of `scull_p_poll`. -/
theorem PipeSystem.pollStep_frame (hpc : s.tasks t = .pollLock ∨ s.tasks t = .pollMask)
    (hstep : s.taskStep kmalloc mode t answer = .ok (e, s')) : s.Frame t e s' := by
  unfold PipeSystem.taskStep at hstep
  rcases hpc with hpc | hpc
  · simp only [hpc, pure_eq_ok] at hstep
    exact .mutexLock (by simp [hpc]) (by simp) (Except.ok.inj hstep)
  · simp only [hpc] at hstep
    obtain ⟨s₁, hunlock, hrest⟩ := bind_eq_ok hstep
    obtain ⟨rfl, rfl⟩ := Prod.mk.inj (Except.ok.inj hrest)
    exact .unlock (by rw [hpc]; rfl) (by simp) (by simp [EAGAIN]) hunlock

/-- The steps of a task that waits for data or for room. -/
theorem PipeSystem.waitStep_frame {op : PipeOp}
    (hpc : s.tasks t = .peek op ∨ s.tasks t = .prepare op ∨ s.tasks t = .check op ∨
      s.tasks t = .schedule op ∨ s.tasks t = .finish op)
    (hstep : s.taskStep kmalloc mode t answer = .ok (e, s')) : s.Frame t e s' := by
  unfold PipeSystem.taskStep at hstep
  rcases hpc with hpc | hpc | hpc | hpc | hpc
  · simp only [hpc, pure_eq_ok] at hstep
    obtain ⟨rfl, rfl⟩ := Prod.mk.inj (Except.ok.inj hstep)
    refine .goto rfl (fun _ => rfl) ?_ (by simp)
    split <;> simp
  · simp only [hpc, pure_eq_ok] at hstep
    split at hstep
    · split at hstep
      · obtain ⟨rfl, rfl⟩ := Prod.mk.inj (Except.ok.inj hstep)
        exact .requeue op (by simp) (by simp)
      · obtain ⟨rfl, rfl⟩ := Prod.mk.inj (Except.ok.inj hstep)
        exact .requeue op (by simp) (by simp [ERESTARTSYS, EAGAIN])
    · obtain ⟨rfl, rfl⟩ := Prod.mk.inj (Except.ok.inj hstep)
      exact .requeue op (by simp) (by simp)
  · simp only [hpc, pure_eq_ok] at hstep
    obtain ⟨rfl, rfl⟩ := Prod.mk.inj (Except.ok.inj hstep)
    refine .goto rfl (fun _ => rfl) ?_ (by simp)
    split <;> simp
  · simp only [hpc, pure_eq_ok] at hstep
    split at hstep
    · obtain ⟨rfl, rfl⟩ := Prod.mk.inj (Except.ok.inj hstep)
      exact .stay (by simp [hpc])
    · obtain ⟨rfl, rfl⟩ := Prod.mk.inj (Except.ok.inj hstep)
      refine .goto rfl (fun _ => rfl) ?_ (by simp)
      split <;> simp
  · simp only [hpc, pure_eq_ok] at hstep
    split at hstep
    · obtain ⟨rfl, rfl⟩ := Prod.mk.inj (Except.ok.inj hstep)
      exact .requeue op (by simp) (by simp [ERESTARTSYS, EAGAIN])
    · obtain ⟨rfl, rfl⟩ := Prod.mk.inj (Except.ok.inj hstep)
      exact .requeue op (by simp) (by simp)

/-- An operation finds out whether it must wait. -/
theorem PipeSystem.testStep_frame {op : PipeOp} (hpc : s.tasks t = .test op)
    (hstep : s.taskStep kmalloc mode t answer = .ok (e, s')) : s.Frame t e s' := by
  unfold PipeSystem.taskStep at hstep
  simp only [hpc, pure_eq_ok] at hstep
  obtain ⟨rfl, rfl⟩ := Prod.mk.inj (Except.ok.inj hstep)
  refine ⟨fun u hu => Function.update_of_ne hu _ _, fun _ => rfl, fun op' hblocked => ?_, by simp⟩
  have hself : (if op.ready s.mem.dev then PipePc.transfer op else .blocked op) = .blocked op' :=
    (Function.update_self t _ s.tasks).symm.trans hblocked
  cases hready : op.ready s.mem.dev with
  | true =>
    rw [hready] at hself
    cases hself
  | false =>
    rw [hready] at hself
    cases hself
    exact ⟨hpc, hready, rfl⟩

/-- An operation that must wait says so, or waits. -/
theorem PipeSystem.blockedStep_frame {op : PipeOp} (hpc : s.tasks t = .blocked op)
    (hstep : s.taskStep kmalloc mode t answer = .ok (e, s')) : s.Frame t e s' := by
  unfold PipeSystem.taskStep at hstep
  simp only [hpc] at hstep
  obtain ⟨s₁, hunlock, hrest⟩ := bind_eq_ok hstep
  obtain ⟨-, rfl⟩ := mutexUnlock_eq_ok hunlock
  split at hrest
  · obtain ⟨rfl, rfl⟩ := Prod.mk.inj (Except.ok.inj hrest)
    refine ⟨fun u hu => Function.update_of_ne hu _ _, fun _ => rfl, fun op' hblocked => ?_,
      fun _ => ⟨op, hpc, rfl, rfl⟩⟩
    cases (Function.update_self t _ s.tasks).symm.trans hblocked
  · obtain ⟨rfl, rfl⟩ := Prod.mk.inj (Except.ok.inj hrest)
    refine .goto rfl (fun _ => rfl) ?_ (by simp)
    split <;> simp

/-- The steps of an operation around its critical sections. -/
theorem PipeSystem.lockStep_frame {op : PipeOp}
    (hpc : s.tasks t = .lock op ∨ s.tasks t = .fault op ∨ (∃ count, s.tasks t = .unlock op count) ∨
      ∃ count, s.tasks t = .wake op count)
    (hstep : s.taskStep kmalloc mode t answer = .ok (e, s')) : s.Frame t e s' := by
  unfold PipeSystem.taskStep at hstep
  rcases hpc with hpc | hpc | ⟨count, hpc⟩ | ⟨count, hpc⟩
  · simp only [hpc, pure_eq_ok] at hstep
    exact .mutexLockInterruptible (by simp [hpc]) (by simp) (by simp) (Except.ok.inj hstep)
  · simp only [hpc] at hstep
    obtain ⟨s₁, hunlock, hrest⟩ := bind_eq_ok hstep
    obtain ⟨rfl, rfl⟩ := Prod.mk.inj (Except.ok.inj hrest)
    exact .unlock (by rw [hpc]; rfl) (by simp) (by simp [EFAULT, EAGAIN]) hunlock
  · simp only [hpc] at hstep
    obtain ⟨s₁, hunlock, hrest⟩ := bind_eq_ok hstep
    obtain ⟨rfl, rfl⟩ := Prod.mk.inj (Except.ok.inj hrest)
    exact .unlock (by rw [hpc]; rfl) (by simp) (by simp) hunlock
  · simp only [hpc, pure_eq_ok] at hstep
    obtain ⟨rfl, rfl⟩ := Prod.mk.inj (Except.ok.inj hstep)
    have hwoken : (s.wakeOthers op).tasks = s.tasks ∧ (s.wakeOthers op).mem = s.mem := by
      cases op <;> exact ⟨rfl, rfl⟩
    have htasks : ((s.wakeOthers op).goto t .user).tasks = Function.update s.tasks t .user := by
      show Function.update (s.wakeOthers op).tasks t .user = _
      rw [hwoken.1]
    refine .goto htasks (fun _ => hwoken.2) (by simp) ?_
    simp only [EAGAIN, ne_eq, PipeEvent.returned.injEq, true_and]
    omega

/-- The copies and what follows them. -/
theorem PipeSystem.dataStep_frame {op : PipeOp}
    (hpc : s.tasks t = .transfer op ∨ ∃ count, s.tasks t = .wrap op count)
    (hstep : s.taskStep kmalloc mode t answer = .ok (e, s')) : s.Frame t e s' := by
  have howner : (s.tasks t).holds = true := by
    rcases hpc with hpc | ⟨count, hpc⟩ <;> rw [hpc] <;> rfl
  have hmoved {mem : PipeMem} {pc : PipePc} (hnew : ∀ op, pc ≠ .blocked op)
      (he : e ≠ .returned t (-EAGAIN)) : s.Frame t e ({ s with mem := mem }.goto t pc) :=
    .goto rfl (fun hno => by rw [howner] at hno; cases hno) hnew he
  unfold PipeSystem.taskStep at hstep
  rcases hpc with hpc | ⟨count, hpc⟩
  · simp only [hpc] at hstep
    cases op with
    | read count nonblock =>
      obtain ⟨⟨bytes, mem⟩, -, hrest⟩ := bind_eq_ok hstep
      cases bytes with
      | none | some bytes =>
        obtain ⟨rfl, rfl⟩ := Prod.mk.inj (Except.ok.inj hrest)
        exact hmoved (by simp) (by simp)
    | write buf nonblock =>
      obtain ⟨⟨bytes, mem⟩, -, hrest⟩ := bind_eq_ok hstep
      cases bytes with
      | none | some bytes =>
        obtain ⟨rfl, rfl⟩ := Prod.mk.inj (Except.ok.inj hrest)
        exact hmoved (by simp) (by simp)
  · simp only [hpc, pure_eq_ok] at hstep
    obtain ⟨rfl, rfl⟩ := Prod.mk.inj (Except.ok.inj hstep)
    exact hmoved (by simp) (by simp)

/-- Every step of a task. -/
theorem PipeSystem.taskStep_frame (hstep : s.taskStep kmalloc mode t answer = .ok (e, s')) :
    s.Frame t e s' := by
  cases hpc : s.tasks t with
  | closed | user =>
    unfold PipeSystem.taskStep at hstep
    simp only [hpc, pure_eq_ok] at hstep
    obtain ⟨rfl, rfl⟩ := Prod.mk.inj (Except.ok.inj hstep)
    exact .stay (by simp [hpc])
  | openLock => exact openStep_frame (Or.inl hpc) hstep
  | openBuffer => exact openStep_frame (Or.inr (Or.inl hpc)) hstep
  | openSize | openWp | openRp | openCount =>
    exact openStep_frame (Or.inr (Or.inr (by rw [hpc]; rfl))) hstep
  | releaseLock => exact releaseStep_frame (Or.inl hpc) hstep
  | releaseCount => exact releaseStep_frame (Or.inr (Or.inl hpc)) hstep
  | releaseUnlock => exact releaseStep_frame (Or.inr (Or.inr hpc)) hstep
  | pollLock => exact pollStep_frame (Or.inl hpc) hstep
  | pollMask => exact pollStep_frame (Or.inr hpc) hstep
  | lock op => exact lockStep_frame (Or.inl hpc) hstep
  | fault op => exact lockStep_frame (Or.inr (Or.inl hpc)) hstep
  | unlock op count => exact lockStep_frame (Or.inr (Or.inr (Or.inl ⟨count, hpc⟩))) hstep
  | wake op count => exact lockStep_frame (Or.inr (Or.inr (Or.inr ⟨count, hpc⟩))) hstep
  | test op => exact testStep_frame hpc hstep
  | blocked op => exact blockedStep_frame hpc hstep
  | peek op => exact waitStep_frame (Or.inl hpc) hstep
  | prepare op => exact waitStep_frame (Or.inr (Or.inl hpc)) hstep
  | check op => exact waitStep_frame (Or.inr (Or.inr (Or.inl hpc))) hstep
  | schedule op => exact waitStep_frame (Or.inr (Or.inr (Or.inr (Or.inl hpc)))) hstep
  | finish op => exact waitStep_frame (Or.inr (Or.inr (Or.inr (Or.inr hpc)))) hstep
  | transfer op => exact dataStep_frame (Or.inl hpc) hstep
  | wrap op count => exact dataStep_frame (Or.inr ⟨count, hpc⟩) hstep

/-! ## Truth -/

/-- Who gives up has nothing to do. -/
def PipeSystem.GivesUp (s : PipeSystem τ) (_ : List Byte) : Prop :=
  ∀ t op, s.tasks t = .blocked op → op.ready s.mem.dev = false

theorem PipeSystem.GivesUp.step (hinv : s.Inv kmalloc mode q) (h : s.GivesUp q) {act : PipeAct τ}
    (hstep : s.step kmalloc mode act = .ok (e, s')) (q' : List Byte) : s'.GivesUp q' := by
  intro u op hu
  cases act with
  | call t c =>
    obtain ⟨-, rfl⟩ := Prod.mk.inj (Except.ok.inj hstep)
    have hgoto (pc : PipePc) (hnot : pc ≠ .blocked op)
        (hu : (s.goto t pc).tasks u = .blocked op) : s.tasks u = .blocked op := by
      by_cases hut : u = t
      · rw [hut, PipeSystem.goto_self] at hu
        exact absurd hu hnot
      · rwa [PipeSystem.goto_of_ne s hut] at hu
    rw [PipeSystem.enter_mem]
    apply h u op
    unfold PipeSystem.enter at hu
    split at hu
    · exact hgoto _ (by simp) hu
    · exact hgoto _ (by simp) hu
    · exact hgoto _ (by simp) hu
    · split at hu
      · exact hgoto _ (by simp) hu
      · exact hu
    · exact hu
  | step t answer =>
    have hframe := PipeSystem.taskStep_frame hstep
    by_cases hut : u = t
    · rw [hut] at hu
      obtain ⟨-, hready, hmem⟩ := hframe.blocked op hu
      rw [hmem]
      exact hready
    · rw [hframe.others u hut] at hu
      -- The task that gives up has the mutex, so `t` does not have it.
      have hfree : (s.tasks t).holds = false := by
        by_contra hholds
        exact hut (hinv.owner_unique (Bool.of_not_eq_false hholds) (by rw [hu]; rfl))
      rw [hframe.mem hfree]
      exact h u op hu
  | ioctl c =>
    obtain ⟨-, rfl⟩ := Prod.mk.inj (Except.ok.inj hstep)
    exact h u op hu

omit [DecidableEq τ] in
/-- Between two critical sections the tests of the operations say what is there. -/
theorem PipeSystem.Inv.ready_iff (h : s.Inv kmalloc mode q) (howner : (s.tasks t).holds = true)
    (hphase : (s.tasks t).phase = .settled) (hbuffer : s.mem.dev.buffer ≠ .null) :
    (s.mem.dev.rp ≠ s.mem.dev.wp ↔ q ≠ []) ∧
      (s.mem.dev.spacefree ≠ 0 ↔ (q.length : Int) + 1 < s.mem.dev.buffersize) ∧
      (q.length : Int) < s.mem.dev.buffersize := by
  have hshape := h.shape_of_holds howner
  rw [hphase] at hshape
  rcases hshape with ⟨hm, -⟩ | ⟨cells, n, x, y, hx, hy, hring⟩
  · exact absurd hm.buffer_eq hbuffer
  · have hlen := hring.length_lt
    refine ⟨not_congr (hring.rp_eq_wp_iff hx hy), ?_, ?_⟩
    · rw [hring.spacefree_eq hx hy, hring.buffersize_eq]
      omega
    · rw [hring.buffersize_eq]
      omega

theorem ScullPipe.pollMask_and (dev : ScullPipe) :
    (dev.pollMask &&& POLLIN ≠ 0 ↔ dev.rp ≠ dev.wp) ∧
      (dev.pollMask &&& POLLOUT ≠ 0 ↔ dev.spacefree ≠ 0) := by
  unfold pollMask
  by_cases hdata : dev.rp = dev.wp <;> by_cases hroom : dev.spacefree = 0 <;>
    simp [hdata, hroom, POLLIN, POLLOUT, POLLRDNORM, POLLWRNORM]

/-- `EAGAIN` is said of an empty pipe or of a full one. -/
theorem PipeSystem.Inv.again_spec (h : s.Inv kmalloc mode q) (h' : s'.Inv kmalloc mode q')
    (hgives : s.GivesUp q) (hafter : e.after q = some q')
    (hstep : s.taskStep kmalloc mode t answer = .ok (e, s')) (he : e = .returned t (-EAGAIN)) :
    ∃ op, s.tasks t = .blocked op ∧ (op.isRead = true → s'.mem.content = []) ∧
      (op.isRead = false → (s'.mem.content.length : Int) + 1 = s'.mem.dev.buffersize) := by
  obtain ⟨op, hpc, hfree, hmem⟩ := (PipeSystem.taskStep_frame hstep).again he
  rw [he] at hafter
  obtain rfl : q = q' := Option.some.inj hafter
  have hready := hgives t op hpc
  have hbuffer := h.buffer_ne (show (s.tasks t).op? = some op by rw [hpc]; rfl)
    (by rw [hpc]; rfl)
  obtain ⟨hdata, hroom, hlen⟩ :=
    h.ready_iff (t := t) (by rw [hpc]; rfl) (by rw [hpc]; rfl) hbuffer
  rw [(h'.content_eq hfree).1, hmem, List.length_map]
  refine ⟨op, hpc, ?_, ?_⟩
  · intro hread
    cases op with
    | read count nonblock =>
      have hnot : ¬ s.mem.dev.rp ≠ s.mem.dev.wp := of_decide_eq_false hready
      rw [hdata] at hnot
      rw [not_not.mp hnot]
      rfl
    | write buf nonblock => cases hread
  · intro hwrite
    cases op with
    | read count nonblock => cases hwrite
    | write buf nonblock =>
      have hnot : ¬ s.mem.dev.spacefree ≠ 0 := of_decide_eq_false hready
      rw [hroom] at hnot
      omega

/-- The mask of `poll` shows what is there. -/
theorem PipeSystem.Inv.poll_spec (h : s.Inv kmalloc mode q) (h' : s'.Inv kmalloc mode q')
    (hafter : e.after q = some q') (hstep : s.taskStep kmalloc mode t answer = .ok (e, s'))
    (hpc : s.tasks t = .pollMask) (hmode : (mode t).read = true ∨ (mode t).write = true) :
    ∃ mask : Nat, e = .returned t mask ∧ (mask &&& POLLIN ≠ 0 ↔ s'.mem.content ≠ []) ∧
      (mask &&& POLLOUT ≠ 0 ↔ (s'.mem.content.length : Int) + 1 < s'.mem.dev.buffersize) := by
  have howner : (s.tasks t).holds = true := by
    rw [hpc]
    rfl
  have hbuffer : s.mem.dev.buffer ≠ .null := fun hnull =>
    h.counts.pos (show (s.tasks t).counted = true by rw [hpc]; rfl) hmode (h.unbuffered hnull)
  obtain ⟨hdata, hroom, -⟩ := h.ready_iff howner (by rw [hpc]; rfl) hbuffer
  unfold PipeSystem.taskStep at hstep
  simp only [hpc, h.mutexUnlock_eq howner, ok_bind, pure_eq_ok] at hstep
  obtain ⟨rfl, rfl⟩ := Prod.mk.inj (Except.ok.inj hstep)
  obtain rfl : q = q' := Option.some.inj hafter
  obtain ⟨hin, hout⟩ := s.mem.dev.pollMask_and
  refine ⟨s.mem.dev.pollMask, rfl, ?_, ?_⟩
  · rw [hin, hdata, (h'.content_eq rfl).1, ne_eq, ne_eq, List.map_eq_nil_iff]
  · rw [hout, hroom, (h'.content_eq rfl).1, List.length_map]
    rfl

/-- A copy out of the ring delivers something. -/
theorem PipeSystem.Inv.read_spec (h : s.Inv kmalloc mode q) {count : Nat}
    {nonblock : Bool} {bytes : List Byte}
    (hpc : s.tasks t = .transfer (.read count nonblock))
    (hstep : s.taskStep kmalloc mode t answer = .ok (.delivered bytes, s')) :
    bytes.length ≤ count ∧ (0 < count → bytes ≠ []) := by
  have hshape := h.shape_of_holds (show (s.tasks t).holds = true by rw [hpc]; rfl)
  rw [hpc] at hshape
  obtain ⟨hne, cells, n, x, y, hx, hy, hring⟩ := hshape
  obtain ⟨k, hk, hle, hpos, hrun⟩ := hring.transferRead_spec hx hy hne count answer.uncopied
  unfold PipeSystem.taskStep at hstep
  rcases hrun with hrun | ⟨m', hrun, -⟩
  · simp only [hpc, PipeSystem.transfer, hrun, ok_bind, pure_eq_ok] at hstep
    cases (Prod.mk.inj (Except.ok.inj hstep)).1
  · simp only [hpc, PipeSystem.transfer, hrun, ok_bind, pure_eq_ok] at hstep
    obtain rfl := PipeEvent.delivered.inj (Prod.mk.inj (Except.ok.inj hstep)).1
    rw [← List.length_pos_iff, List.length_take]
    omega

/-- A copy into the ring takes the front of the buffer. -/
theorem PipeSystem.Inv.write_spec (h : s.Inv kmalloc mode q) {buf bytes : List Byte}
    {nonblock : Bool} (hpc : s.tasks t = .transfer (.write buf nonblock))
    (hstep : s.taskStep kmalloc mode t answer = .ok (.accepted bytes, s')) :
    bytes <+: buf ∧ (buf ≠ [] → bytes ≠ []) := by
  have hshape := h.shape_of_holds (show (s.tasks t).holds = true by rw [hpc]; rfl)
  rw [hpc] at hshape
  obtain ⟨cells, n, x, y, hroom, hx, hy, hring⟩ := hshape
  obtain ⟨k, cells', m', hk, hpos, -, -, ⟨hrun, -⟩ | ⟨hrun, -⟩⟩ :=
    hring.transferWrite_spec hx hy hroom buf answer.uncopied
  all_goals
    unfold PipeSystem.taskStep at hstep
    simp only [hpc, PipeSystem.transfer, hrun, ok_bind, pure_eq_ok] at hstep
  · cases (Prod.mk.inj (Except.ok.inj hstep)).1
  · obtain rfl := PipeEvent.accepted.inj (Prod.mk.inj (Except.ok.inj hstep)).1
    refine ⟨List.take_prefix k buf, fun hne => ?_⟩
    have hposk := hpos hne
    rw [← List.length_pos_iff, List.length_take]
    omega

/-! ## Runs -/

/-- What a pipe tells its callers is true when it says it, in every order of steps of a
safe run of fewer than 2^30 tasks: a call gives up with `EAGAIN` only if there is nothing to
do, the mask of `poll` shows a file that is open for reading or writing exactly what is
there, and a transfer moves at least one byte unless none was asked for. -/
theorem pipe_run_answers [Fintype τ] (hcard : Fintype.card τ < 2 ^ 30) {params : ScullParams}
    {acts : List (PipeAct τ)} {events : List (PipeEvent τ)}
    (hsafe : (PipeSystem.init params).SafeRun kmalloc mode acts)
    (hrun : (PipeSystem.init params).run kmalloc mode acts = .ok (events, s))
    (hnext : s.SafeStep (.step t answer))
    (hstep : s.taskStep kmalloc mode t answer = .ok (e, s')) :
    (e = .returned t (-EAGAIN) → ∃ op, s.tasks t = .blocked op ∧
      (op.isRead = true → s'.mem.content = []) ∧
      (op.isRead = false → (s'.mem.content.length : Int) + 1 = s'.mem.dev.buffersize)) ∧
    (s.tasks t = .pollMask → (mode t).read = true ∨ (mode t).write = true →
      ∃ mask : Nat, e = .returned t mask ∧
        (mask &&& POLLIN ≠ 0 ↔ s'.mem.content ≠ []) ∧
        (mask &&& POLLOUT ≠ 0 ↔ (s'.mem.content.length : Int) + 1 < s'.mem.dev.buffersize)) ∧
    (∀ count nonblock bytes, s.tasks t = .transfer (.read count nonblock) →
      e = .delivered bytes → bytes.length ≤ count ∧ (0 < count → bytes ≠ [])) ∧
    ∀ buf nonblock bytes, s.tasks t = .transfer (.write buf nonblock) →
      e = .accepted bytes → bytes <+: buf ∧ (buf ≠ [] → bytes ≠ []) := by
  obtain ⟨q, hinv, hgives⟩ := PipeSystem.Inv.run_keeps
    (fun hinv _ h _ hstep _ => PipeSystem.GivesUp.step hinv h hstep _)
    (PipeSystem.Inv.init kmalloc mode params) hcard (fun _ _ hno => by cases hno) hsafe hsafe hrun
  obtain ⟨e', s₁, q', hstep', hafter, hinv'⟩ := hinv.taskStep hcard hnext
  rw [hstep] at hstep'
  obtain ⟨rfl, rfl⟩ := Prod.mk.inj (Except.ok.inj hstep')
  refine ⟨hinv.again_spec hinv' hgives hafter hstep, hinv.poll_spec hinv' hafter hstep,
    fun count nonblock bytes hpc heq => ?_, fun buf nonblock bytes hpc heq => ?_⟩
  · rw [heq] at hstep
    exact hinv.read_spec hpc hstep
  · rw [heq] at hstep
    exact hinv.write_spec hpc hstep

/-- The run of `openWriteRead`, up to the answer of a `poll`. -/
def openWriteReadPoll : List (PipeAct Unit) :=
  openWriteRead ++ [.call () .poll, .step () ⟨false, true, 0⟩]

theorem pipe_run_answers_openWriteReadPoll :
    ∃ events s e s', ∃ mask : Nat,
      (PipeSystem.init smallPipe).run Kmalloc.onePage readWrite openWriteReadPoll =
        .ok (events, s) ∧
      s.taskStep Kmalloc.onePage readWrite () ⟨false, true, 0⟩ = .ok (e, s') ∧
      e = .returned () mask ∧ (mask &&& POLLIN ≠ 0 ↔ s'.mem.content ≠ []) := by
  have hsafe : (PipeSystem.init smallPipe).SafeRun Kmalloc.onePage readWrite openWriteReadPoll := by
    decide +kernel
  let both : Except Fault (PipeSystem Unit × PipeEvent Unit × PipeSystem Unit) := do
    let (_, s) ← (PipeSystem.init smallPipe).run Kmalloc.onePage readWrite openWriteReadPoll
    let (e, s') ← s.taskStep Kmalloc.onePage readWrite () ⟨false, true, 0⟩
    return (s, e, s')
  have hview : both.toOption.map (fun r => r.1.tasks ()) = some .pollMask := by
    decide +kernel
  obtain ⟨r, hboth, hpc⟩ := exists_of_view hview
  obtain ⟨⟨events, s⟩, hrun, hrest⟩ := bind_eq_ok hboth
  obtain ⟨⟨e, s'⟩, hstep, hend⟩ := bind_eq_ok hrest
  obtain rfl := Except.ok.inj hend
  have hpc : s.tasks () = .pollMask := hpc
  have hnext : s.SafeStep (.step () ⟨false, true, 0⟩) := by
    intro hno
    rw [hpc] at hno
    cases hno
  obtain ⟨mask, he, hin, -⟩ :=
    (pipe_run_answers (by decide) hsafe hrun hnext hstep).2.1 hpc (Or.inl rfl)
  exact ⟨events, s, e, s', mask, hrun, hstep, he, hin⟩

end Answers

end AesdChar.Scull
