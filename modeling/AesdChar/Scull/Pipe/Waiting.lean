import AesdChar.Scull.Pipe.Stream

/-!
# Tasks that wait at a pipe

A reader that finds no data sleeps, and so does a writer that finds no room.  Who
moves bytes wakes the tasks at the other end, after it has released the mutex.
`PipeSystem.Waits` says that no wake-up is lost: a task that sleeps, and that nobody
has woken, finds nothing to do, or somebody is about to wake it.

There is one gap.  `scull_p_open` empties the pipe and wakes nobody, so a writer that
waits for room sleeps on.  A run is quiet if no task opens the device while a
writer waits.  `pipe_run_stuck` says when the tasks of a quiet run get stuck.
-/

namespace AesdChar.Scull

open CodeLib CodeLib.CInt CodeLib.Ring

/-! ## Tasks -/

/-- A reader sleeps. -/
def PipePc.sleepsForData : PipePc → Bool
  | .schedule (.read _ _) => true
  | _ => false

/-- A writer sleeps. -/
def PipePc.sleepsForRoom : PipePc → Bool
  | .schedule (.write _ _) => true
  | _ => false

/-- A writer is in the loop of `scull_getwritespace`, without the mutex. -/
def PipePc.waitsForRoom : PipePc → Bool
  | .peek (.write _ _) | .prepare (.write _ _) | .check (.write _ _) | .schedule (.write _ _)
  | .finish (.write _ _) => true
  | _ => false

/-- A writer has moved bytes and is about to wake the readers. -/
def PipePc.wakesReaders : PipePc → Bool
  | .wrap (.write _ _) _ | .unlock (.write _ _) _ | .wake (.write _ _) _ => true
  | _ => false

/-- A reader has moved bytes and is about to wake the writers. -/
def PipePc.wakesWriters : PipePc → Bool
  | .wrap (.read _ _) _ | .unlock (.read _ _) _ | .wake (.read _ _) _ => true
  | _ => false

/-- The task is in `scull_p_open` and has the mutex. -/
def PipePc.inOpen : PipePc → Bool
  | .openBuffer | .openSize | .openWp | .openRp | .openCount => true
  | _ => false

theorem PipePc.holds_of_inOpen {pc : PipePc} (h : pc.inOpen = true) : pc.holds = true := by
  cases pc with
  | openBuffer | openSize | openWp | openRp | openCount => rfl
  | _ => cases h

theorem PipePc.awake_of_inOpen {pc : PipePc} (h : pc.inOpen = true) :
    pc.sleepsForData = false ∧ pc.sleepsForRoom = false ∧ pc.waitsForRoom = false ∧
      pc.wakesReaders = false ∧ pc.wakesWriters = false := by
  cases pc with
  | openBuffer | openSize | openWp | openRp | openCount => exact ⟨rfl, rfl, rfl, rfl, rfl⟩
  | _ => cases h

theorem PipePc.waitsForRoom_of_sleeps {pc : PipePc} (h : pc.sleepsForRoom = true) :
    pc.waitsForRoom = true := by
  cases pc with
  | schedule op => cases op with
    | read _ _ => cases h
    | write _ _ => rfl
  | _ => cases h

/-- The phases in which `spacefree` tells a writer the truth. -/
def PipePhase.truthful : PipePhase → Bool
  | .settled | .readable | .writable | .writeMoved => true
  | _ => false

/-- In the other phases the device is being opened, or a reader is about to wake the
writers. -/
theorem PipePc.phase_truthful (pc : PipePc) :
    pc.phase.truthful = true ∨ pc.inOpen = true ∨ pc.wakesWriters = true := by
  cases pc with
  | transfer op => cases op <;> exact Or.inl rfl
  | wrap op count => cases op with
    | read _ _ => exact Or.inr (Or.inr rfl)
    | write _ _ => exact Or.inl rfl
  | openSize | openWp | openRp | openCount => exact Or.inr (Or.inl rfl)
  | _ => exact Or.inl rfl

/-! ## What a task sees that looks -/

section Look

variable {kmalloc : Kmalloc} {m : PipeMem} {q : List Byte} {phase : PipePhase}

/-- The pointers do not meet by accident, whatever the owner of the mutex is doing. -/
theorem PipeMem.Shape.nil_of_rp_eq_wp (h : m.Shape kmalloc q phase)
    (heq : m.dev.rp = m.dev.wp) : q = [] := by
  cases phase with
  | settled =>
    rcases h with ⟨-, hq⟩ | ⟨cells, n, x, y, hx, -, hring⟩
    · exact hq
    · exact hring.nil_of_rp_eq_wp hx heq
  | readable =>
    obtain ⟨-, cells, n, x, y, hx, -, hring⟩ := h
    exact hring.nil_of_rp_eq_wp hx heq
  | writable =>
    obtain ⟨cells, n, x, y, -, hx, -, hring⟩ := h
    exact hring.nil_of_rp_eq_wp hx heq
  | allocated =>
    rcases h.2 with hq | ⟨cells, n, x, y, hx, -, hring⟩
    · exact hq
    · exact hring.nil_of_rp_eq_wp hx heq
  | sized => exact h.1
  | wpReset => exact h.1
  | opened =>
    obtain ⟨cells, n, x, y, hx, -, hring⟩ := h
    exact hring.nil_of_rp_eq_wp hx heq
  | readMoved =>
    obtain ⟨cells, n, x, y, hy, hring⟩ := h
    -- A read pointer that has not wrapped is apart from the write pointer.
    rcases Nat.lt_or_eq_of_le hring.rp_le with hx | hx
    · exact hring.nil_of_rp_eq_wp hx heq
    · exact absurd heq (hring.ne_of_rp_eq hx hy)
  | writeMoved =>
    obtain ⟨cells, n, x, y, hx, hring⟩ := h
    exact hring.nil_of_rp_eq_wp hx heq

theorem PipeMem.Shape.full_of_spacefree (h : m.Shape kmalloc q phase)
    (hphase : phase.truthful = true) (hbuffer : m.dev.buffer ≠ .null)
    (hfull : m.dev.spacefree = 0) : (q.length : Int) + 1 = m.dev.buffersize := by
  have hring {cells : List (Option Byte)} {n x y : Nat} (hx : x < n)
      (hring : m.Ring kmalloc cells n x y q) : (q.length : Int) + 1 = m.dev.buffersize := by
    have hlen := hring.full_of_spacefree hx hfull
    rw [hring.buffersize_eq]
    omega
  cases phase with
  | settled =>
    rcases h with ⟨hm, -⟩ | ⟨cells, n, x, y, hx, -, h⟩
    · exact absurd hm.buffer_eq hbuffer
    · exact hring hx h
  | readable =>
    obtain ⟨-, cells, n, x, y, hx, -, h⟩ := h
    exact hring hx h
  | writable =>
    obtain ⟨cells, n, x, y, -, hx, -, h⟩ := h
    exact hring hx h
  | writeMoved =>
    obtain ⟨cells, n, x, y, hx, h⟩ := h
    exact hring hx h
  | _ => cases hphase

end Look

/-! ## The invariant -/

section Waits

variable {τ : Type} {kmalloc : Kmalloc} {mode : τ → FMode} {s s' : PipeSystem τ}
  {q q' : List Byte} {t : τ} {pc' : PipePc} {e : PipeEvent τ} {answer : PipeAnswer}

/-- There is room for one more byte. -/
def PipeSystem.HasRoom (s : PipeSystem τ) (q : List Byte) : Prop :=
  (q.length : Int) + 1 < s.mem.dev.buffersize

/-- No wake-up is lost. -/
structure PipeSystem.Waits (s : PipeSystem τ) (q : List Byte) : Prop where
  readers : WaitQueue.Covered s.inq (fun t => (s.tasks t).sleepsForData = true) (q ≠ [])
    (∃ u, (s.tasks u).wakesReaders = true)
  writers : WaitQueue.Covered s.outq (fun t => (s.tasks t).sleepsForRoom = true) (s.HasRoom q)
    (∃ u, (s.tasks u).wakesWriters = true)
  quiet : ∀ t u, (s.tasks t).inOpen = true → (s.tasks u).waitsForRoom = false

/-- Nobody opens the device while a writer waits for room. -/
def PipeSystem.QuietStep (s : PipeSystem τ) : PipeAct τ → Prop
  | .step t _ => s.tasks t = .openLock → s.lock = none → ∀ u, (s.tasks u).waitsForRoom = false
  | _ => True

/-- A writer that sleeps keeps the buffer. -/
theorem PipeSystem.Inv.buffer_of_sleeps (h : s.Inv kmalloc mode q)
    (hsleeps : (s.tasks t).sleepsForRoom = true) : s.mem.dev.buffer ≠ .null := by
  cases hpc : s.tasks t with
  | schedule op =>
    exact h.buffer_ne (show (s.tasks t).op? = some op by rw [hpc]; rfl) (by rw [hpc]; rfl)
  | _ =>
    rw [hpc] at hsleeps
    cases hsleeps

variable [DecidableEq τ]

/-! ## Who does what behind a step -/

theorem update_of_awake {p : PipePc → Bool} (hself : p pc' = false) {u : τ}
    (hu : p (Function.update s.tasks t pc' u) = true) : u ≠ t ∧ p (s.tasks u) = true := by
  by_cases hut : u = t
  · rw [hut, Function.update_self, hself] at hu
    cases hu
  · rw [Function.update_of_ne hut] at hu
    exact ⟨hut, hu⟩

/-- What `t` was about to do it is still about to do. -/
theorem exists_update {p : PipePc → Bool} (hself : p (s.tasks t) = true → p pc' = true)
    (hex : ∃ u, p (s.tasks u) = true) : ∃ u, p (Function.update s.tasks t pc' u) = true := by
  obtain ⟨u, hu⟩ := hex
  refine ⟨u, ?_⟩
  by_cases hut : u = t
  · rw [hut] at hu ⊢
    rw [Function.update_self]
    exact hself hu
  · rwa [Function.update_of_ne hut]

namespace PipeSystem.Waits

/-- Nobody waits for room while the device is opened. -/
theorem quiet_update (h : s.Waits q)
    (hopen : pc'.inOpen = true → pc'.waitsForRoom = false ∧
      ((s.tasks t).inOpen = true ∨ ∀ u, (s.tasks u).waitsForRoom = false))
    (hwait : pc'.waitsForRoom = true →
      (s.tasks t).waitsForRoom = true ∨ ∀ u, (s.tasks u).inOpen = false) (a b : τ)
    (ha : (Function.update s.tasks t pc' a).inOpen = true) :
    (Function.update s.tasks t pc' b).waitsForRoom = false := by
  by_contra hb
  rw [Bool.not_eq_false] at hb
  by_cases hat : a = t
  · rw [hat, Function.update_self] at ha
    obtain ⟨hnot, hold⟩ := hopen ha
    obtain ⟨-, hb⟩ := update_of_awake hnot hb
    rcases hold with hold | hold
    · rw [h.quiet t b hold] at hb
      cases hb
    · rw [hold b] at hb
      cases hb
  · rw [Function.update_of_ne hat] at ha
    by_cases hbt : b = t
    · rw [hbt, Function.update_self] at hb
      rcases hwait hb with hold | hold
      · rw [h.quiet a t ha] at hold
        cases hold
      · rw [hold a] at ha
        cases ha
    · rw [Function.update_of_ne hbt, h.quiet a b ha] at hb
      cases hb

/-- A step that leaves the queues alone, and behind which the task is awake. -/
theorem move (h : s.Waits q) (pc' : PipePc) (htasks : s'.tasks = Function.update s.tasks t pc')
    (hinq : s'.inq = s.inq) (houtq : s'.outq = s.outq)
    (hdata_awake : pc'.sleepsForData = false) (hroom_awake : pc'.sleepsForRoom = false)
    (hdata : q' ≠ [] → q ≠ [] ∨ pc'.wakesReaders = true)
    (hroom : s'.HasRoom q' → s.HasRoom q ∨ pc'.wakesWriters = true ∨
      ∀ u, (s.tasks u).sleepsForRoom = false)
    (hreaders : (s.tasks t).wakesReaders = true → pc'.wakesReaders = true)
    (hwriters : (s.tasks t).wakesWriters = true → pc'.wakesWriters = true)
    (hopen : pc'.inOpen = true → pc'.waitsForRoom = false ∧
      ((s.tasks t).inOpen = true ∨ ∀ u, (s.tasks u).waitsForRoom = false))
    (hwait : pc'.waitsForRoom = true →
      (s.tasks t).waitsForRoom = true ∨ ∀ u, (s.tasks u).inOpen = false) : s'.Waits q' := by
  have hself (p : PipePc → Bool) (hp : p pc' = true) :
      ∃ u, p (Function.update s.tasks t pc' u) = true := by
    refine ⟨t, ?_⟩
    rw [Function.update_self]
    exact hp
  constructor
  · rw [hinq, htasks]
    exact h.readers.mono (fun u hu => (update_of_awake hdata_awake hu).2)
      (fun hne => (hdata hne).imp_right (hself _)) (exists_update hreaders)
  · rw [houtq, htasks]
    intro u hu hunwoken hr
    have hasleep := (update_of_awake hroom_awake hu).2
    rcases hroom hr with hr | hwakes | hnone
    · exact exists_update hwriters (h.writers u hasleep hunwoken hr)
    · exact hself _ hwakes
    · rw [hnone u] at hasleep
      cases hasleep
  · rw [htasks]
    exact h.quiet_update hopen hwait

/-- A step behind which the task neither waits nor is about to wake anybody. -/
theorem plain (h : s.Waits q) (htasks : s'.tasks = Function.update s.tasks t pc')
    (hinq : s'.inq = s.inq) (houtq : s'.outq = s.outq)
    (hsize : s'.mem.dev.buffersize = s.mem.dev.buffersize)
    (hdata_awake : pc'.sleepsForData = false) (hwaits : pc'.waitsForRoom = false)
    (hopen : pc'.inOpen = false) (hreaders : (s.tasks t).wakesReaders = false)
    (hwriters : (s.tasks t).wakesWriters = false) : s'.Waits q := by
  have hroom_awake : pc'.sleepsForRoom = false := by
    by_contra hsleeps
    rw [PipePc.waitsForRoom_of_sleeps (Bool.of_not_eq_false hsleeps)] at hwaits
    cases hwaits
  refine h.move pc' htasks hinq houtq hdata_awake hroom_awake Or.inl ?_ ?_ ?_ ?_ ?_
  · unfold HasRoom
    rw [hsize]
    exact Or.inl
  · rw [hreaders]
    exact fun hno => Bool.noConfusion hno
  · rw [hwriters]
    exact fun hno => Bool.noConfusion hno
  · rw [hopen]
    exact fun hno => Bool.noConfusion hno
  · rw [hwaits]
    exact fun hno => Bool.noConfusion hno

/-- A task goes on a queue or leaves it. -/
theorem requeue_covered {queue queue' : WaitQueue τ} {p : PipePc → Bool} {ready waker : Prop}
    (h : queue.Covered (fun u => p (s.tasks u) = true) ready waker) (hawake : p pc' = false)
    (hqueue : queue' = queue ∨ queue' = queue.prepare t ∨ queue' = queue.finish t) :
    queue'.Covered (fun u => p (Function.update s.tasks t pc' u) = true) ready waker := by
  rcases hqueue with rfl | rfl | rfl
  · exact h.mono (fun u hu => (update_of_awake hawake hu).2) Or.inl id
  · exact h.prepare fun u hu => update_of_awake hawake hu
  · exact h.finish fun u hu _ => (update_of_awake hawake hu).2

/-- A step of a task that waits, behind which it does not sleep. -/
theorem requeue (h : s.Waits q) (pc' : PipePc)
    (htasks : s'.tasks = Function.update s.tasks t pc')
    (hmem : s'.mem = s.mem)
    (hinq : s'.inq = s.inq ∨ s'.inq = s.inq.prepare t ∨ s'.inq = s.inq.finish t)
    (houtq : s'.outq = s.outq ∨ s'.outq = s.outq.prepare t ∨ s'.outq = s.outq.finish t)
    (hdata_awake : pc'.sleepsForData = false) (hroom_awake : pc'.sleepsForRoom = false)
    (hreaders : (s.tasks t).wakesReaders = false) (hwriters : (s.tasks t).wakesWriters = false)
    (hopen : pc'.inOpen = false)
    (hwait : pc'.waitsForRoom = true → (s.tasks t).waitsForRoom = true) : s'.Waits q := by
  have hroom : s'.HasRoom q = s.HasRoom q := by
    unfold HasRoom
    rw [hmem]
  constructor
  · rw [htasks]
    refine (requeue_covered h.readers hdata_awake hinq).mono (fun u hu => hu) Or.inl ?_
    apply exists_update
    rw [hreaders]
    exact fun hno => Bool.noConfusion hno
  · rw [htasks, hroom]
    refine (requeue_covered h.writers hroom_awake houtq).mono (fun u hu => hu) Or.inl ?_
    apply exists_update
    rw [hwriters]
    exact fun hno => Bool.noConfusion hno
  · rw [htasks]
    refine h.quiet_update ?_ fun hw => Or.inl (hwait hw)
    rw [hopen]
    exact fun hno => Bool.noConfusion hno

/-- A reader that has found no data goes to sleep. -/
theorem sleep_read (h : s.Waits q) {count : Nat} {nonblock : Bool}
    (hpc : s.tasks t = .check (.read count nonblock)) (hempty : q = []) :
    (s.goto t (.schedule (.read count nonblock))).Waits q := by
  have hawake : (s.tasks t).sleepsForRoom = false ∧ (s.tasks t).wakesReaders = false ∧
      (s.tasks t).wakesWriters = false := by
    rw [hpc]
    exact ⟨rfl, rfl, rfl⟩
  refine ⟨?_, ?_, h.quiet_update (fun hno => Bool.noConfusion hno)
    (fun hno => Bool.noConfusion hno)⟩
  · intro u _ _ hne
    exact absurd hempty hne
  · refine h.writers.mono (fun u hu => (update_of_awake rfl hu).2) Or.inl ?_
    apply exists_update
    rw [hawake.2.2]
    exact fun hno => Bool.noConfusion hno

/-- A writer that has found no room goes to sleep. -/
theorem sleep_write (h : s.Waits q) {buf : List Byte} {nonblock : Bool}
    (hpc : s.tasks t = .check (.write buf nonblock))
    (hfull : s.HasRoom q → ∃ u, (s.tasks u).wakesWriters = true) :
    (s.goto t (.schedule (.write buf nonblock))).Waits q := by
  have hold : (s.tasks t).waitsForRoom = true ∧ (s.tasks t).wakesReaders = false ∧
      (s.tasks t).wakesWriters = false := by
    rw [hpc]
    exact ⟨rfl, rfl, rfl⟩
  have hwaker : (∃ u, (s.tasks u).wakesWriters = true) →
      ∃ u, ((s.goto t (.schedule (.write buf nonblock))).tasks u).wakesWriters = true := by
    apply exists_update
    rw [hold.2.2]
    exact fun hno => Bool.noConfusion hno
  refine ⟨?_, ?_, h.quiet_update (fun hno => Bool.noConfusion hno) fun _ => Or.inl hold.1⟩
  · refine h.readers.mono (fun u hu => (update_of_awake rfl hu).2) Or.inl ?_
    apply exists_update
    rw [hold.2.1]
    exact fun hno => Bool.noConfusion hno
  · have hasleep (u : τ) (hu : ((s.goto t (.schedule (.write buf nonblock))).tasks u).sleepsForRoom)
        (hut : u ≠ t) : (s.tasks u).sleepsForRoom = true := by
      have hsame : (s.goto t (.schedule (.write buf nonblock))).tasks u = s.tasks u :=
        Function.update_of_ne hut _ _
      rwa [hsame] at hu
    exact (h.writers.sleep hasleep hfull).mono (fun u hu => hu) Or.inl hwaker

/-- A task wakes the others, and is done. -/
theorem wake (h : s.Waits q) {op : PipeOp} {count : Nat} (hpc : s.tasks t = .wake op count) :
    ((s.wakeOthers op).goto t .user).Waits q := by
  cases op with
  | read n nonblock =>
    refine ⟨?_, WaitQueue.Covered.wakeUp, h.quiet_update (fun hno => Bool.noConfusion hno)
      (fun hno => Bool.noConfusion hno)⟩
    refine h.readers.mono (fun u hu => (update_of_awake rfl hu).2) Or.inl ?_
    apply exists_update
    rw [hpc]
    exact fun hno => Bool.noConfusion hno
  | write buf nonblock =>
    refine ⟨WaitQueue.Covered.wakeUp, ?_, h.quiet_update (fun hno => Bool.noConfusion hno)
      (fun hno => Bool.noConfusion hno)⟩
    refine h.writers.mono (fun u hu => (update_of_awake rfl hu).2) Or.inl ?_
    apply exists_update
    rw [hpc]
    exact fun hno => Bool.noConfusion hno

/-! ## Steps -/

/-- A task takes the mutex, or waits for it. -/
theorem mutexLock (h : s.Waits q) {pc : PipePc}
    (hwakes : (s.tasks t).wakesReaders = false ∧ (s.tasks t).wakesWriters = false)
    (hnew : pc.sleepsForData = false ∧ pc.waitsForRoom = false ∧ pc.inOpen = false)
    (hafter : e.after q = some q') (hstep : s.mutexLock t pc = (e, s')) : s'.Waits q' := by
  unfold PipeSystem.mutexLock at hstep
  split at hstep
  all_goals
    obtain ⟨rfl, rfl⟩ := Prod.mk.inj hstep
    obtain rfl : q = q' := Option.some.inj hafter
  · exact h.plain rfl rfl rfl rfl hnew.1 hnew.2.1 hnew.2.2 hwakes.1 hwakes.2
  · exact h

/-- A task takes the mutex, or waits for it, or gives up. -/
theorem mutexLockInterruptible (h : s.Waits q) {fail pc : PipePc}
    (hwakes : (s.tasks t).wakesReaders = false ∧ (s.tasks t).wakesWriters = false)
    (hfail : fail.sleepsForData = false ∧ fail.waitsForRoom = false ∧ fail.inOpen = false)
    (hacquire : s.lock = none → ({ s with lock := some t }.goto t pc).Waits q)
    (hafter : e.after q = some q')
    (hstep : s.mutexLockInterruptible t answer fail pc = (e, s')) : s'.Waits q' := by
  unfold PipeSystem.mutexLockInterruptible at hstep
  split at hstep
  · rename_i hfree
    obtain ⟨rfl, rfl⟩ := Prod.mk.inj hstep
    obtain rfl : q = q' := Option.some.inj hafter
    exact hacquire hfree
  · split at hstep
    all_goals
      obtain ⟨rfl, rfl⟩ := Prod.mk.inj hstep
      obtain rfl : q = q' := Option.some.inj hafter
    · exact h.plain rfl rfl rfl rfl hfail.1 hfail.2.1 hfail.2.2 hwakes.1 hwakes.2
    · exact h

/-- The steps of `scull_p_open`. -/
theorem openStep (h : s.Waits q) (hinv : s.Inv kmalloc mode q)
    (hquiet : s.QuietStep (.step t answer)) (hafter : e.after q = some q')
    (hstep : s.taskStep kmalloc mode t answer = .ok (e, s'))
    (hpc : s.tasks t = .openLock ∨ (s.tasks t).inOpen = true) : s'.Waits q' := by
  -- The task goes on in `open`.
  have hmove {s' : PipeSystem τ} {q' : List Byte} {pc : PipePc}
      (hopen : (s.tasks t).inOpen = true)
      (htasks : s'.tasks = Function.update s.tasks t pc) (hinq : s'.inq = s.inq)
      (houtq : s'.outq = s.outq) (hnew : pc.inOpen = true) (hq : q' = q ∨ q' = []) :
      s'.Waits q' := by
    have hnone (u : τ) : (s.tasks u).waitsForRoom = false := h.quiet t u hopen
    obtain ⟨-, -, -, hreaders, hwriters⟩ := PipePc.awake_of_inOpen hopen
    have hasleep := PipePc.awake_of_inOpen hnew
    refine h.move pc htasks hinq houtq hasleep.1 hasleep.2.1 ?_ ?_ ?_ ?_ ?_ ?_
    · rcases hq with rfl | rfl
      · exact Or.inl
      · exact fun hne => absurd rfl hne
    · refine fun _ => Or.inr (Or.inr fun u => ?_)
      by_contra hsleeps
      have hwaits := PipePc.waitsForRoom_of_sleeps (Bool.of_not_eq_false hsleeps)
      rw [hnone u] at hwaits
      cases hwaits
    · rw [hreaders]
      exact fun hno => Bool.noConfusion hno
    · rw [hwriters]
      exact fun hno => Bool.noConfusion hno
    · exact fun _ => ⟨hasleep.2.2.1, Or.inl hopen⟩
    · rw [hasleep.2.2.1]
      exact fun hno => Bool.noConfusion hno
  unfold taskStep at hstep
  cases htask : s.tasks t with
  | openLock =>
    simp only [htask] at hstep
    refine h.mutexLockInterruptible ?_ ⟨rfl, rfl, rfl⟩ ?_ hafter (Except.ok.inj hstep)
    · rw [htask]
      exact ⟨rfl, rfl⟩
    · intro hfree
      refine h.move .openBuffer rfl rfl rfl rfl rfl Or.inl Or.inl ?_ ?_ ?_
        (fun hno => Bool.noConfusion hno)
      · rw [htask]
        exact fun hno => Bool.noConfusion hno
      · rw [htask]
        exact fun hno => Bool.noConfusion hno
      · exact fun _ => ⟨rfl, Or.inr (hquiet htask hfree)⟩
  | openBuffer =>
    have howner : s.lock = some t := (hinv.lock t).mpr (by rw [htask]; rfl)
    simp only [htask, mutexUnlock, howner, if_true, ok_bind, pure_eq_ok] at hstep
    split at hstep
    all_goals
      obtain ⟨rfl, rfl⟩ := Prod.mk.inj (Except.ok.inj hstep)
      obtain rfl : q = q' := Option.some.inj hafter
    · refine h.plain rfl rfl rfl ?_ rfl rfl rfl (by rw [htask]; rfl) (by rw [htask]; rfl)
      show (s.mem.openBuffer kmalloc answer.allocOk s.params.scullPBuffer).dev.buffersize = _
      unfold PipeMem.openBuffer
      split <;> rfl
    · exact hmove (by rw [htask]; rfl) rfl rfl rfl rfl (Or.inl rfl)
  | openSize =>
    simp only [htask, pure_eq_ok] at hstep
    obtain ⟨rfl, rfl⟩ := Prod.mk.inj (Except.ok.inj hstep)
    obtain rfl : [] = q' := Option.some.inj hafter
    exact hmove (by rw [htask]; rfl) rfl rfl rfl rfl (Or.inr rfl)
  | openWp | openRp =>
    simp only [htask, pure_eq_ok] at hstep
    obtain ⟨rfl, rfl⟩ := Prod.mk.inj (Except.ok.inj hstep)
    obtain rfl : q = q' := Option.some.inj hafter
    exact hmove (by rw [htask]; rfl) rfl rfl rfl rfl (Or.inl rfl)
  | openCount =>
    have howner : s.lock = some t := (hinv.lock t).mpr (by rw [htask]; rfl)
    simp only [htask, mutexUnlock, howner, if_true, ok_bind, pure_eq_ok] at hstep
    obtain ⟨rfl, rfl⟩ := Prod.mk.inj (Except.ok.inj hstep)
    obtain rfl : q = q' := Option.some.inj hafter
    exact h.plain rfl rfl rfl rfl rfl rfl rfl (by rw [htask]; rfl) (by rw [htask]; rfl)
  | _ =>
    rw [htask] at hpc
    rcases hpc with hpc | hpc <;> cases hpc

/-- The steps of `scull_p_release`. -/
theorem releaseStep [Fintype τ] (h : s.Waits q) (hinv : s.Inv kmalloc mode q)
    (hcard : Fintype.card τ < 2 ^ 30) (hinv' : s'.Inv kmalloc mode q')
    (hafter : e.after q = some q') (hstep : s.taskStep kmalloc mode t answer = .ok (e, s'))
    (hpc : s.tasks t = .releaseLock ∨ s.tasks t = .releaseCount ∨ s.tasks t = .releaseUnlock) :
    s'.Waits q' := by
  have hwakes : (s.tasks t).wakesReaders = false ∧ (s.tasks t).wakesWriters = false := by
    rcases hpc with hpc | hpc | hpc <;> rw [hpc] <;> exact ⟨rfl, rfl⟩
  unfold taskStep at hstep
  rcases hpc with hpc | hpc | hpc
  · simp only [hpc] at hstep
    exact h.mutexLock hwakes ⟨rfl, rfl, rfl⟩ hafter (Except.ok.inj hstep)
  · obtain ⟨m', hrun, -, hcases⟩ := hinv.releaseCount_spec hcard hpc
    have hsize : m'.dev.buffersize = s.mem.dev.buffersize := by
      unfold PipeMem.releaseCount at hrun
      simp only [] at hrun
      split at hrun
      · obtain ⟨heap, -, hrest⟩ := bind_eq_ok hrun
        obtain rfl := Except.ok.inj hrest
        rfl
      · obtain rfl := Except.ok.inj hrun
        rfl
    simp only [hpc, hrun, ok_bind, pure_eq_ok] at hstep
    obtain ⟨rfl, rfl⟩ := Prod.mk.inj (Except.ok.inj hstep)
    rcases hcases with ⟨hnull, hzero, -⟩ | ⟨hne, -, -⟩
    · rw [if_pos hnull] at hafter
      obtain rfl : [] = q' := Option.some.inj hafter
      -- Nobody is left that could wait.
      have hnone (u : τ) : (s.tasks u).sleepsForRoom = false := by
        by_contra hsleeps
        rw [Bool.not_eq_false] at hsleeps
        have hut : u ≠ t := by
          intro hut
          rw [hut, hpc] at hsleeps
          cases hsleeps
        have hsame : (Function.update s.tasks t .releaseUnlock) u = s.tasks u :=
          Function.update_of_ne hut _ _
        exact hinv'.buffer_of_sleeps (t := u)
          (by rw [← hsleeps]; exact congrArg PipePc.sleepsForRoom hsame) hnull
      refine h.move .releaseUnlock rfl rfl rfl rfl rfl (fun hne => absurd rfl hne)
        (fun _ => Or.inr (Or.inr hnone)) ?_ ?_ (fun hno => Bool.noConfusion hno)
        (fun hno => Bool.noConfusion hno)
      · rw [hwakes.1]
        exact fun hno => Bool.noConfusion hno
      · rw [hwakes.2]
        exact fun hno => Bool.noConfusion hno
    · rw [if_neg hne] at hafter
      obtain rfl : q = q' := Option.some.inj hafter
      exact h.plain rfl rfl rfl hsize rfl rfl rfl hwakes.1 hwakes.2
  · have howner : s.lock = some t := (hinv.lock t).mpr (by rw [hpc]; rfl)
    simp only [hpc, mutexUnlock, howner, if_true, ok_bind, pure_eq_ok] at hstep
    obtain ⟨rfl, rfl⟩ := Prod.mk.inj (Except.ok.inj hstep)
    obtain rfl : q = q' := Option.some.inj hafter
    exact h.plain rfl rfl rfl rfl rfl rfl rfl hwakes.1 hwakes.2

/-- The steps of `scull_p_poll`, and the rest of an operation that does not wait. -/
theorem plainStep (h : s.Waits q) (hinv : s.Inv kmalloc mode q) (op : PipeOp)
    (hafter : e.after q = some q') (hstep : s.taskStep kmalloc mode t answer = .ok (e, s'))
    (hpc : s.tasks t = .pollLock ∨ s.tasks t = .pollMask ∨ s.tasks t = .lock op ∨
      s.tasks t = .test op ∨ s.tasks t = .fault op) : s'.Waits q' := by
  have hwakes : (s.tasks t).wakesReaders = false ∧ (s.tasks t).wakesWriters = false := by
    rcases hpc with hpc | hpc | hpc | hpc | hpc <;> rw [hpc] <;> exact ⟨rfl, rfl⟩
  have howner (hholds : (s.tasks t).holds = true) := hinv.mutexUnlock_eq hholds
  unfold taskStep at hstep
  rcases hpc with hpc | hpc | hpc | hpc | hpc
  · simp only [hpc] at hstep
    exact h.mutexLock hwakes ⟨rfl, rfl, rfl⟩ hafter (Except.ok.inj hstep)
  · simp only [hpc, howner (by rw [hpc]; rfl), ok_bind, pure_eq_ok] at hstep
    obtain ⟨rfl, rfl⟩ := Prod.mk.inj (Except.ok.inj hstep)
    obtain rfl : q = q' := Option.some.inj hafter
    exact h.plain rfl rfl rfl rfl rfl rfl rfl hwakes.1 hwakes.2
  · simp only [hpc] at hstep
    exact h.mutexLockInterruptible hwakes ⟨rfl, rfl, rfl⟩
      (fun _ => h.plain rfl rfl rfl rfl rfl rfl rfl hwakes.1 hwakes.2) hafter
      (Except.ok.inj hstep)
  · simp only [hpc, pure_eq_ok] at hstep
    obtain ⟨rfl, rfl⟩ := Prod.mk.inj (Except.ok.inj hstep)
    obtain rfl : q = q' := Option.some.inj hafter
    split
    · exact h.plain rfl rfl rfl rfl rfl rfl rfl hwakes.1 hwakes.2
    · exact h.plain rfl rfl rfl rfl rfl rfl rfl hwakes.1 hwakes.2
  · simp only [hpc, howner (by rw [hpc]; rfl), ok_bind, pure_eq_ok] at hstep
    obtain ⟨rfl, rfl⟩ := Prod.mk.inj (Except.ok.inj hstep)
    obtain rfl : q = q' := Option.some.inj hafter
    exact h.plain rfl rfl rfl rfl rfl rfl rfl hwakes.1 hwakes.2

omit [DecidableEq τ] in
/-- What a waiting task sees is no lie, unless somebody is about to wake the writers. -/
theorem looks_full (h : s.Waits q) (hinv : s.Inv kmalloc mode q)
    (hwaits : (s.tasks t).waitsForRoom = true) (hbuffer : s.mem.dev.buffer ≠ .null)
    (hfull : s.mem.dev.spacefree = 0) (hroom : s.HasRoom q) :
    ∃ u, (s.tasks u).wakesWriters = true := by
  have hlen (htrue : s.phase.truthful = true) : (q.length : Int) + 1 = s.mem.dev.buffersize :=
    hinv.shape.full_of_spacefree htrue hbuffer hfull
  have hnot : s.phase.truthful ≠ true := by
    intro htrue
    have hlen := hlen htrue
    unfold HasRoom at hroom
    omega
  cases hlock : s.lock with
  | none =>
    rw [PipeSystem.phase, hlock] at hnot
    exact absurd rfl hnot
  | some u =>
    rw [PipeSystem.phase, hlock] at hnot
    rcases (s.tasks u).phase_truthful with htrue | hopen | hwakes
    · exact absurd htrue hnot
    · rw [h.quiet u t hopen] at hwaits
      cases hwaits
    · exact ⟨u, hwakes⟩

/-- The steps of a task that waits. -/
theorem waitStep (h : s.Waits q) (hinv : s.Inv kmalloc mode q) {op : PipeOp}
    (hafter : e.after q = some q') (hstep : s.taskStep kmalloc mode t answer = .ok (e, s'))
    (hpc : s.tasks t = .blocked op ∨ s.tasks t = .peek op ∨ s.tasks t = .prepare op ∨
      s.tasks t = .check op ∨ s.tasks t = .schedule op ∨ s.tasks t = .finish op) :
    s'.Waits q' := by
  have hwakes : (s.tasks t).wakesReaders = false ∧ (s.tasks t).wakesWriters = false := by
    rcases hpc with hpc | hpc | hpc | hpc | hpc | hpc <;> rw [hpc] <;> exact ⟨rfl, rfl⟩
  have hbuffer : s.mem.dev.buffer ≠ .null := by
    rcases hpc with hpc | hpc | hpc | hpc | hpc | hpc <;>
      exact hinv.buffer_ne (show (s.tasks t).op? = some op by rw [hpc]; rfl) (by rw [hpc]; rfl)
  -- The queue of the operation changes, or no queue does.
  have hgo {s' : PipeSystem τ} {pc : PipePc}
      (hqueue : s' = s ∨ s' = s.setQueue op ((s.queue op).prepare t) ∨
        s' = s.setQueue op ((s.queue op).finish t))
      (hdata_awake : pc.sleepsForData = false) (hroom_awake : pc.sleepsForRoom = false)
      (hopen : pc.inOpen = false)
      (hwait : pc.waitsForRoom = true → (s.tasks t).waitsForRoom = true) :
      (s'.goto t pc).Waits q := by
    refine h.requeue pc ?_ ?_ ?_ ?_ hdata_awake hroom_awake hwakes.1 hwakes.2 hopen hwait
    · show Function.update s'.tasks t pc = _
      rcases hqueue with rfl | rfl | rfl <;> cases op <;> rfl
    · show s'.mem = _
      rcases hqueue with rfl | rfl | rfl <;> cases op <;> rfl
    · show s'.inq = _ ∨ s'.inq = _ ∨ s'.inq = _
      rcases hqueue with rfl | rfl | rfl
      · exact Or.inl rfl
      · cases op with
        | read _ _ => exact Or.inr (Or.inl rfl)
        | write _ _ => exact Or.inl rfl
      · cases op with
        | read _ _ => exact Or.inr (Or.inr rfl)
        | write _ _ => exact Or.inl rfl
    · show s'.outq = _ ∨ s'.outq = _ ∨ s'.outq = _
      rcases hqueue with rfl | rfl | rfl
      · exact Or.inl rfl
      · cases op with
        | read _ _ => exact Or.inl rfl
        | write _ _ => exact Or.inr (Or.inl rfl)
      · cases op with
        | read _ _ => exact Or.inl rfl
        | write _ _ => exact Or.inr (Or.inr rfl)
  unfold taskStep at hstep
  rcases hpc with hpc | hpc | hpc | hpc | hpc | hpc
  · simp only [hpc, hinv.mutexUnlock_eq (t := t) (by rw [hpc]; rfl), ok_bind, pure_eq_ok] at hstep
    split at hstep
    all_goals
      obtain ⟨rfl, rfl⟩ := Prod.mk.inj (Except.ok.inj hstep)
      obtain rfl : q = q' := Option.some.inj hafter
    · exact h.plain rfl rfl rfl rfl rfl rfl rfl hwakes.1 hwakes.2
    · cases op with
      | read _ _ => exact h.plain rfl rfl rfl rfl rfl rfl rfl hwakes.1 hwakes.2
      | write _ _ =>
        refine h.move (.prepare _) rfl rfl rfl rfl rfl Or.inl Or.inl ?_ ?_
          (fun hno => Bool.noConfusion hno) (fun _ => Or.inr fun u => ?_)
        · rw [hwakes.1]
          exact fun hno => Bool.noConfusion hno
        · rw [hwakes.2]
          exact fun hno => Bool.noConfusion hno
        · -- The owner of the mutex is `t`.
          by_contra hopen
          rw [Bool.not_eq_false] at hopen
          have hut := hinv.owner_unique (t := t) (u := u) (by rw [hpc]; rfl)
            (PipePc.holds_of_inOpen hopen)
          rw [hut, hpc] at hopen
          cases hopen
  · simp only [hpc, pure_eq_ok] at hstep
    obtain ⟨rfl, rfl⟩ := Prod.mk.inj (Except.ok.inj hstep)
    obtain rfl : q = q' := Option.some.inj hafter
    cases hready : op.ready s.mem.dev with
    | true => exact hgo (Or.inl rfl) rfl rfl rfl fun hno => Bool.noConfusion hno
    | false =>
      apply hgo (Or.inl rfl) rfl rfl rfl
      rw [hpc]
      cases op <;> exact id
  · simp only [hpc, pure_eq_ok] at hstep
    split at hstep
    · split at hstep
      all_goals
        obtain ⟨rfl, rfl⟩ := Prod.mk.inj (Except.ok.inj hstep)
        obtain rfl : q = q' := Option.some.inj hafter
      · exact hgo (Or.inr (Or.inr rfl)) rfl rfl rfl fun hno => Bool.noConfusion hno
      · exact hgo (Or.inr (Or.inr rfl)) rfl rfl rfl fun hno => Bool.noConfusion hno
    · obtain ⟨rfl, rfl⟩ := Prod.mk.inj (Except.ok.inj hstep)
      obtain rfl : q = q' := Option.some.inj hafter
      apply hgo (Or.inr (Or.inl rfl)) rfl rfl rfl
      rw [hpc]
      cases op <;> exact id
  · simp only [hpc, pure_eq_ok] at hstep
    obtain ⟨rfl, rfl⟩ := Prod.mk.inj (Except.ok.inj hstep)
    obtain rfl : q = q' := Option.some.inj hafter
    cases hready : op.ready s.mem.dev with
    | true =>
      apply hgo (Or.inl rfl) rfl rfl rfl
      rw [hpc]
      cases op <;> exact id
    | false =>
      cases op with
      | read count nonblock =>
        have heq : s.mem.dev.rp = s.mem.dev.wp := not_not.mp (of_decide_eq_false hready)
        exact h.sleep_read hpc (hinv.shape.nil_of_rp_eq_wp heq)
      | write buf nonblock =>
        have hfull : s.mem.dev.spacefree = 0 := not_not.mp (of_decide_eq_false hready)
        exact h.sleep_write hpc (h.looks_full hinv (by rw [hpc]; rfl) hbuffer hfull)
  · simp only [hpc, pure_eq_ok] at hstep
    split at hstep
    all_goals
      obtain ⟨rfl, rfl⟩ := Prod.mk.inj (Except.ok.inj hstep)
      obtain rfl : q = q' := Option.some.inj hafter
    · exact h
    · cases op with
      | read _ _ => exact hgo (Or.inl rfl) rfl rfl rfl fun hno => Bool.noConfusion hno
      | write _ _ =>
        apply hgo (Or.inl rfl) rfl rfl rfl
        rw [hpc]
        exact id
  · simp only [hpc, pure_eq_ok] at hstep
    split at hstep
    all_goals
      obtain ⟨rfl, rfl⟩ := Prod.mk.inj (Except.ok.inj hstep)
      obtain rfl : q = q' := Option.some.inj hafter
    · exact hgo (Or.inr (Or.inr rfl)) rfl rfl rfl fun hno => Bool.noConfusion hno
    · exact hgo (Or.inr (Or.inr rfl)) rfl rfl rfl fun hno => Bool.noConfusion hno

/-- The copies, and what follows them. -/
theorem dataStep (h : s.Waits q) (hinv : s.Inv kmalloc mode q) {op : PipeOp}
    (hafter : e.after q = some q') (hstep : s.taskStep kmalloc mode t answer = .ok (e, s'))
    (hpc : s.tasks t = .transfer op ∨ (∃ count, s.tasks t = .wrap op count) ∨
      (∃ count, s.tasks t = .unlock op count) ∨ ∃ count, s.tasks t = .wake op count) :
    s'.Waits q' := by
  unfold taskStep at hstep
  rcases hpc with hpc | ⟨count, hpc⟩ | ⟨count, hpc⟩ | ⟨count, hpc⟩
  · have hwakes : (s.tasks t).wakesReaders = false ∧ (s.tasks t).wakesWriters = false := by
      rw [hpc]
      exact ⟨rfl, rfl⟩
    simp only [hpc] at hstep
    cases op with
    | read n nonblock =>
      obtain ⟨⟨bytes, mem⟩, hrun, hrest⟩ := bind_eq_ok hstep
      have hsize : mem.dev.buffersize = s.mem.dev.buffersize := by
        obtain ⟨loaded, -, hmem⟩ := bind_eq_ok hrun
        split at hmem <;> obtain ⟨-, rfl⟩ := Prod.mk.inj (Except.ok.inj hmem) <;> rfl
      cases bytes with
      | none =>
        obtain ⟨rfl, rfl⟩ := Prod.mk.inj (Except.ok.inj hrest)
        obtain rfl : q = q' := Option.some.inj hafter
        exact h.plain rfl rfl rfl hsize rfl rfl rfl hwakes.1 hwakes.2
      | some bytes =>
        obtain ⟨rfl, rfl⟩ := Prod.mk.inj (Except.ok.inj hrest)
        have hq := PipeEvent.after_delivered hafter
        refine h.move (.wrap _ _) rfl rfl rfl rfl rfl (fun hne => ?_)
          (fun _ => Or.inr (Or.inl rfl)) ?_ (fun _ => rfl) (fun hno => Bool.noConfusion hno)
          (fun hno => Bool.noConfusion hno)
        · refine Or.inl fun hnil => hne ?_
          rw [hnil] at hq
          exact (List.append_eq_nil_iff.mp hq.symm).2
        · rw [hwakes.1]
          exact fun hno => Bool.noConfusion hno
    | write buf nonblock =>
      obtain ⟨⟨bytes, mem⟩, hrun, hrest⟩ := bind_eq_ok hstep
      have hsize : mem.dev.buffersize = s.mem.dev.buffersize := by
        obtain ⟨heap, -, hmem⟩ := bind_eq_ok hrun
        split at hmem <;> obtain ⟨-, rfl⟩ := Prod.mk.inj (Except.ok.inj hmem) <;> rfl
      cases bytes with
      | none =>
        obtain ⟨rfl, rfl⟩ := Prod.mk.inj (Except.ok.inj hrest)
        obtain rfl : q = q' := Option.some.inj hafter
        exact h.plain rfl rfl rfl hsize rfl rfl rfl hwakes.1 hwakes.2
      | some bytes =>
        obtain ⟨rfl, rfl⟩ := Prod.mk.inj (Except.ok.inj hrest)
        obtain rfl : q ++ bytes = q' := Option.some.inj hafter
        refine h.move (.wrap _ _) rfl rfl rfl rfl rfl (fun _ => Or.inr rfl)
          (fun hroom => Or.inl ?_) (fun _ => rfl) ?_ (fun hno => Bool.noConfusion hno)
          (fun hno => Bool.noConfusion hno)
        · have hroom' : ((q ++ bytes).length : Int) + 1 < mem.dev.buffersize := hroom
          rw [hsize, List.length_append] at hroom'
          unfold HasRoom
          omega
        · rw [hwakes.2]
          exact fun hno => Bool.noConfusion hno
  · simp only [hpc, pure_eq_ok] at hstep
    obtain ⟨rfl, rfl⟩ := Prod.mk.inj (Except.ok.inj hstep)
    obtain rfl : q = q' := Option.some.inj hafter
    have hsize : (wrapPointer s.mem op).dev.buffersize = s.mem.dev.buffersize := by
      cases op with
      | read _ _ =>
        show s.mem.wrapRead.dev.buffersize = _
        unfold PipeMem.wrapRead
        split <;> rfl
      | write _ _ =>
        show s.mem.wrapWrite.dev.buffersize = _
        unfold PipeMem.wrapWrite
        split <;> rfl
    refine h.move (.unlock op count) rfl rfl rfl rfl rfl Or.inl
      (fun hroom => Or.inl ?_) ?_ ?_ (fun hno => Bool.noConfusion hno)
      (fun hno => Bool.noConfusion hno)
    · unfold HasRoom at hroom ⊢
      rw [← hsize]
      exact hroom
    · rw [hpc]
      cases op <;> exact id
    · rw [hpc]
      cases op <;> exact id
  · simp only [hpc, hinv.mutexUnlock_eq (t := t) (by rw [hpc]; rfl), ok_bind, pure_eq_ok] at hstep
    obtain ⟨rfl, rfl⟩ := Prod.mk.inj (Except.ok.inj hstep)
    obtain rfl : q = q' := Option.some.inj hafter
    refine h.move (.wake op count) rfl rfl rfl rfl rfl Or.inl Or.inl ?_ ?_
      (fun hno => Bool.noConfusion hno) (fun hno => Bool.noConfusion hno)
    · rw [hpc]
      cases op <;> exact id
    · rw [hpc]
      cases op <;> exact id
  · simp only [hpc, pure_eq_ok] at hstep
    obtain ⟨rfl, rfl⟩ := Prod.mk.inj (Except.ok.inj hstep)
    obtain rfl : q = q' := Option.some.inj hafter
    exact h.wake hpc

/-- Every step of a task. -/
theorem taskStep [Fintype τ] (h : s.Waits q) (hinv : s.Inv kmalloc mode q)
    (hcard : Fintype.card τ < 2 ^ 30) (hinv' : s'.Inv kmalloc mode q')
    (hquiet : s.QuietStep (.step t answer)) (hafter : e.after q = some q')
    (hstep : s.taskStep kmalloc mode t answer = .ok (e, s')) : s'.Waits q' := by
  cases hpc : s.tasks t with
  | closed | user =>
    unfold PipeSystem.taskStep at hstep
    simp only [hpc, pure_eq_ok] at hstep
    obtain ⟨rfl, rfl⟩ := Prod.mk.inj (Except.ok.inj hstep)
    obtain rfl : q = q' := Option.some.inj hafter
    exact h
  | openLock => exact h.openStep hinv hquiet hafter hstep (Or.inl hpc)
  | openBuffer | openSize | openWp | openRp | openCount =>
    exact h.openStep hinv hquiet hafter hstep (Or.inr (by rw [hpc]; rfl))
  | releaseLock => exact h.releaseStep hinv hcard hinv' hafter hstep (Or.inl hpc)
  | releaseCount => exact h.releaseStep hinv hcard hinv' hafter hstep (Or.inr (Or.inl hpc))
  | releaseUnlock => exact h.releaseStep hinv hcard hinv' hafter hstep (Or.inr (Or.inr hpc))
  | pollLock => exact h.plainStep hinv (.read 0 false) hafter hstep (Or.inl hpc)
  | pollMask => exact h.plainStep hinv (.read 0 false) hafter hstep (Or.inr (Or.inl hpc))
  | lock op => exact h.plainStep hinv op hafter hstep (Or.inr (Or.inr (Or.inl hpc)))
  | test op => exact h.plainStep hinv op hafter hstep (Or.inr (Or.inr (Or.inr (Or.inl hpc))))
  | fault op => exact h.plainStep hinv op hafter hstep (Or.inr (Or.inr (Or.inr (Or.inr hpc))))
  | blocked op => exact h.waitStep hinv hafter hstep (Or.inl hpc)
  | peek op => exact h.waitStep hinv hafter hstep (Or.inr (Or.inl hpc))
  | prepare op => exact h.waitStep hinv hafter hstep (Or.inr (Or.inr (Or.inl hpc)))
  | check op => exact h.waitStep hinv hafter hstep (Or.inr (Or.inr (Or.inr (Or.inl hpc))))
  | schedule op =>
    exact h.waitStep hinv hafter hstep (Or.inr (Or.inr (Or.inr (Or.inr (Or.inl hpc)))))
  | finish op =>
    exact h.waitStep hinv hafter hstep (Or.inr (Or.inr (Or.inr (Or.inr (Or.inr hpc)))))
  | transfer op => exact h.dataStep hinv hafter hstep (Or.inl hpc)
  | wrap op count => exact h.dataStep hinv hafter hstep (Or.inr (Or.inl ⟨count, hpc⟩))
  | unlock op count =>
    exact h.dataStep hinv hafter hstep (Or.inr (Or.inr (Or.inl ⟨count, hpc⟩)))
  | wake op count => exact h.dataStep hinv hafter hstep (Or.inr (Or.inr (Or.inr ⟨count, hpc⟩)))

/-- A task enters a call. -/
theorem enter (h : s.Waits q) (c : PipeCall) : (s.enter mode t c).Waits q := by
  unfold PipeSystem.enter
  split
  · rename_i hpc
    exact h.plain rfl rfl rfl rfl rfl rfl rfl (by rw [hpc]; rfl) (by rw [hpc]; rfl)
  · rename_i hpc
    exact h.plain rfl rfl rfl rfl rfl rfl rfl (by rw [hpc]; rfl) (by rw [hpc]; rfl)
  · rename_i hpc
    exact h.plain rfl rfl rfl rfl rfl rfl rfl (by rw [hpc]; rfl) (by rw [hpc]; rfl)
  · rename_i hpc
    split
    · exact h.plain rfl rfl rfl rfl rfl rfl rfl (by rw [hpc]; rfl) (by rw [hpc]; rfl)
    · exact h
  · exact h

/-- Every step of a quiet run. -/
theorem step [Fintype τ] (h : s.Waits q) (hinv : s.Inv kmalloc mode q)
    (hcard : Fintype.card τ < 2 ^ 30) (hinv' : s'.Inv kmalloc mode q') {act : PipeAct τ}
    (hquiet : s.QuietStep act)
    (hstep : s.step kmalloc mode act = .ok (e, s')) (hafter : e.after q = some q') :
    s'.Waits q' := by
  cases act with
  | call t c =>
    obtain ⟨rfl, rfl⟩ := Prod.mk.inj (Except.ok.inj hstep)
    obtain rfl : q = q' := Option.some.inj hafter
    exact h.enter c
  | step t answer => exact h.taskStep hinv hcard hinv' hquiet hafter hstep
  | ioctl c =>
    obtain ⟨rfl, rfl⟩ := Prod.mk.inj (Except.ok.inj hstep)
    obtain rfl : q = q' := Option.some.inj hafter
    exact ⟨h.readers, h.writers, h.quiet⟩

omit [DecidableEq τ] in
/-- A device that nobody has opened. -/
theorem init (params : ScullParams) : (PipeSystem.init params : PipeSystem τ).Waits [] where
  readers := WaitQueue.Covered.empty
  writers := WaitQueue.Covered.empty
  quiet _ _ hopen := Bool.noConfusion hopen

end PipeSystem.Waits

/-! ## Runs -/

/-- Where a task stands that has no step to take. -/
theorem PipeSystem.still
    (hstep : s.taskStep kmalloc mode t answer = .ok (.silent, s)) :
    s.tasks t = .closed ∨ s.tasks t = .user ∨
      (∃ op, s.tasks t = .schedule op ∧ (s.queue op).Unwoken t) ∨
      (s.lock ≠ none ∧ (s.tasks t).holds = false) := by
  have hmoved {old pc : PipePc} {s' : PipeSystem τ} {e : PipeEvent τ} (hpc : s.tasks t = old)
      (heq : (.ok (e, s'.goto t pc) : Except Fault _) = .ok (.silent, s)) : old = pc := by
    have hs := congrArg PipeSystem.tasks (Prod.mk.inj (Except.ok.inj heq)).2
    rw [← hpc, ← hs]
    exact Function.update_self _ _ _
  unfold PipeSystem.taskStep at hstep
  cases hpc : s.tasks t with
  | closed => exact Or.inl rfl
  | user => exact Or.inr (Or.inl rfl)
  | openLock | lock _ =>
    right; right; right
    simp only [hpc, PipeSystem.mutexLockInterruptible, pure_eq_ok] at hstep
    split at hstep
    · cases hmoved hpc hstep
    · rename_i hheld
      exact ⟨hheld, rfl⟩
  | releaseLock | pollLock =>
    right; right; right
    simp only [hpc, PipeSystem.mutexLock, pure_eq_ok] at hstep
    split at hstep
    · cases hmoved hpc hstep
    · rename_i hheld
      exact ⟨hheld, rfl⟩
  | schedule op =>
    simp only [hpc, pure_eq_ok] at hstep
    split at hstep
    · rename_i hasleep
      exact Or.inr (Or.inr (Or.inl ⟨op, rfl, hasleep.1⟩))
    · have hno := hmoved hpc hstep
      cases op <;> cases hno
  | openSize | openWp | openRp | wrap _ _ | wake _ _ =>
    simp only [hpc, pure_eq_ok] at hstep
    cases hmoved hpc hstep
  | openBuffer =>
    simp only [hpc, pure_eq_ok] at hstep
    split at hstep
    · obtain ⟨s₁, -, hrest⟩ := bind_eq_ok hstep
      cases hmoved hpc hrest
    · cases hmoved hpc hstep
  | openCount | releaseCount | releaseUnlock | pollMask | fault _ | unlock _ _ =>
    simp only [hpc] at hstep
    obtain ⟨x, -, hrest⟩ := bind_eq_ok hstep
    cases hmoved hpc hrest
  | test op | peek op | check op =>
    simp only [hpc, pure_eq_ok] at hstep
    have hno := hmoved hpc hstep
    split at hno <;> cases hno
  | blocked op =>
    simp only [hpc] at hstep
    obtain ⟨s₁, -, hrest⟩ := bind_eq_ok hstep
    split at hrest
    · cases hmoved hpc hrest
    · have hno := hmoved hpc hrest
      split at hno <;> cases hno
  | prepare op =>
    simp only [hpc, pure_eq_ok] at hstep
    split at hstep
    · split at hstep
      · cases hmoved hpc hstep
      · cases hmoved hpc hstep
    · cases hmoved hpc hstep
  | finish op =>
    simp only [hpc, pure_eq_ok] at hstep
    split at hstep
    · cases hmoved hpc hstep
    · cases hmoved hpc hstep
  | transfer op =>
    simp only [hpc] at hstep
    cases op with
    | read count nonblock =>
      obtain ⟨⟨bytes, mem⟩, -, hrest⟩ := bind_eq_ok hstep
      cases bytes with
      | none => cases hmoved hpc hrest
      | some bytes => cases hmoved hpc hrest
    | write buf nonblock =>
      obtain ⟨⟨bytes, mem⟩, -, hrest⟩ := bind_eq_ok hstep
      cases bytes with
      | none => cases hmoved hpc hrest
      | some bytes => cases hmoved hpc hrest

/-- If no task of a quiet run has a step to take, then every task that is in a call is a
reader that sleeps at an empty pipe or a writer that sleeps at a full one.  There are fewer
than 2^30 tasks, and every size that is stored is positive and fits the buffer. -/
theorem pipe_run_stuck [Fintype τ] (hcard : Fintype.card τ < 2 ^ 30) {params : ScullParams}
    {acts : List (PipeAct τ)} {events : List (PipeEvent τ)}
    (hsafe : (PipeSystem.init params).SafeRun kmalloc mode acts)
    (hquiet : (PipeSystem.init params).Along kmalloc mode PipeSystem.QuietStep acts)
    (hrun : (PipeSystem.init params).run kmalloc mode acts = .ok (events, s))
    (hstuck : ∀ t answer, answer.signal = false →
      s.taskStep kmalloc mode t answer = .ok (.silent, s)) :
    s.lock = none ∧ ∀ t, s.tasks t = .closed ∨ s.tasks t = .user ∨
      (∃ count nonblock, s.tasks t = .schedule (.read count nonblock) ∧ s.mem.content = []) ∨
      ∃ buf nonblock, s.tasks t = .schedule (.write buf nonblock) ∧
        (s.mem.content.length : Int) + 1 = s.mem.dev.buffersize := by
  obtain ⟨q, hinv, hwaits⟩ :=
    PipeSystem.Inv.run_keeps (fun hinv hinv' h hquiet hstep hafter =>
      PipeSystem.Waits.step h hinv hcard hinv' hquiet hstep hafter)
      (PipeSystem.Inv.init kmalloc mode params) hcard (PipeSystem.Waits.init params) hsafe hquiet
      hrun
  have hstill (t : τ) := PipeSystem.still (hstuck t ⟨false, true, 0⟩ rfl)
  -- The owner of the mutex would have a step to take.
  have hfree : s.lock = none := by
    by_contra hheld
    obtain ⟨u, hu⟩ := Option.ne_none_iff_exists'.mp hheld
    have hholds := (hinv.lock u).mp hu
    rcases hstill u with hpc | hpc | ⟨op, hpc, -⟩ | ⟨-, hno⟩
    · rw [hpc] at hholds
      cases hholds
    · rw [hpc] at hholds
      cases hholds
    · rw [hpc] at hholds
      cases hholds
    · rw [hno] at hholds
      cases hholds
  have hplace (t : τ) : s.tasks t = .closed ∨ s.tasks t = .user ∨
      ∃ op, s.tasks t = .schedule op ∧ (s.queue op).Unwoken t := by
    rcases hstill t with hpc | hpc | hpc | ⟨hheld, -⟩
    · exact Or.inl hpc
    · exact Or.inr (Or.inl hpc)
    · exact Or.inr (Or.inr hpc)
    · exact absurd hfree hheld
  -- So nobody is about to wake anybody.
  have hnowaker (p : PipePc → Bool) (hclosed : p .closed = false) (huser : p .user = false)
      (hasleep : ∀ op, p (.schedule op) = false) : ¬ ∃ u, p (s.tasks u) = true := by
    intro hex
    obtain ⟨u, hu⟩ := hex
    rcases hplace u with hpc | hpc | ⟨op, hpc, -⟩
    · rw [hpc, hclosed] at hu
      cases hu
    · rw [hpc, huser] at hu
      cases hu
    · rw [hpc, hasleep] at hu
      cases hu
  obtain ⟨hcontent, hbound⟩ := hinv.content_eq hfree
  refine ⟨hfree, fun t => ?_⟩
  rcases hplace t with hpc | hpc | ⟨op, hpc, hunwoken⟩
  · exact Or.inl hpc
  · exact Or.inr (Or.inl hpc)
  · right; right
    cases op with
    | read count nonblock =>
      left
      refine ⟨count, nonblock, hpc, ?_⟩
      have hempty : q = [] := by
        by_contra hne
        exact hnowaker PipePc.wakesReaders rfl rfl (fun _ => rfl)
          (hwaits.readers t (congrArg PipePc.sleepsForData hpc) hunwoken hne)
      rw [hcontent, hempty]
      rfl
    | write buf nonblock =>
      right
      refine ⟨buf, nonblock, hpc, ?_⟩
      have hfull : ¬ s.HasRoom q := fun hroom =>
        hnowaker PipePc.wakesWriters rfl rfl (fun _ => rfl)
          (hwaits.writers t (congrArg PipePc.sleepsForRoom hpc) hunwoken hroom)
      unfold PipeSystem.HasRoom at hfull
      have hlen := hinv.length_lt hfree (hinv.buffer_of_sleeps (t := t) (by rw [hpc]; rfl))
      rw [hcontent, List.length_map]
      omega

instance PipeSystem.decidableQuietStep [Fintype τ] (s : PipeSystem τ) :
    (act : PipeAct τ) → Decidable (s.QuietStep act)
  | .call _ _ => inferInstanceAs (Decidable True)
  | .step t _ => inferInstanceAs (Decidable
      (s.tasks t = .openLock → s.lock = none → ∀ u, (s.tasks u).waitsForRoom = false))
  | .ioctl _ => inferInstanceAs (Decidable True)

/-- A task fills a pipe that takes two bytes, and waits for room. -/
def openFill : List (PipeAct Bool) :=
  let steps (n : Nat) := List.replicate n (PipeAct.step true ⟨false, true, 0⟩)
  .call true .open :: steps 6 ++ .call true (.op (.write [97, 98, 99] false)) :: steps 6 ++
    .call true (.op (.write [99] false)) :: steps 5

theorem pipe_run_stuck_openFill :
    ∃ events s, (PipeSystem.init smallPipe).run Kmalloc.onePage (fun _ => ⟨true, true⟩) openFill =
        .ok (events, s) ∧
      s.tasks true = .schedule (.write [99] false) ∧
      (s.mem.content.length : Int) + 1 = s.mem.dev.buffersize := by
  have hview : ((PipeSystem.init smallPipe).run Kmalloc.onePage (fun _ => ⟨true, true⟩)
      openFill).toOption.map (fun r => (r.2.tasks true, r.2.tasks false, r.2.outq true)) =
        some (.schedule (.write [99] false), .closed, some false) := by
    decide +kernel
  obtain ⟨⟨events, s⟩, hrun, hend⟩ := exists_of_view hview
  obtain ⟨hpc, hother⟩ := Prod.mk.inj hend
  obtain ⟨hclosed, hqueue⟩ := Prod.mk.inj hother
  have hpc : s.tasks true = .schedule (.write [99] false) := hpc
  have hclosed : s.tasks false = .closed := hclosed
  have hasleep : (s.queue (.write [99] false)).Unwoken true := hqueue
  have hstuck (t : Bool) (answer : PipeAnswer) (hsignal : answer.signal = false) :
      s.taskStep Kmalloc.onePage (fun _ => ⟨true, true⟩) t answer = .ok (.silent, s) := by
    cases t with
    | false => simp [PipeSystem.taskStep, hclosed]
    | true => simp [PipeSystem.taskStep, hpc, hasleep, hsignal]
  refine ⟨events, s, hrun, hpc, ?_⟩
  rcases (pipe_run_stuck (by decide) (by decide +kernel) (by decide +kernel) hrun hstuck).2 true
    with hno | hno | ⟨count, nonblock, hno, -⟩ | ⟨buf, nonblock, -, hlen⟩
  · rw [hpc] at hno
    cases hno
  · rw [hpc] at hno
    cases hno
  · rw [hpc] at hno
    cases hno
  · exact hlen

-- The run is not quiet when somebody opens the device now: the writer sleeps at an empty pipe.
example :
    let acts := openFill ++ .call false .open ::
      List.replicate 6 (PipeAct.step false ⟨false, true, 0⟩)
    ((PipeSystem.init smallPipe).run Kmalloc.onePage (fun _ => ⟨true, true⟩) acts).toOption.map
      (fun r => (r.2.tasks true, r.2.tasks false, r.2.outq true, r.2.mem.content)) =
        some (.schedule (.write [99] false), .user, some false, []) := by
  decide +kernel

end Waits

end AesdChar.Scull
