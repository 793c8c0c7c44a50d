import AesdChar.CodeLib.Counting
import AesdChar.CodeLib.Mutex
import AesdChar.CodeLib.Trace
import AesdChar.Scull.Pipe.Ring

/-!
# The invariant of a pipe

What holds of a pipe and its tasks between two steps.  The task that has the
mutex may have left the memory in an intermediate state, and `PipePc.phase` says in
which one.  `PipeSystem.Inv` says the rest: who has the mutex, who is counted, and
that the buffer is there as long as somebody is.

There are three rules for the steps of a task, one for steps outside of the
critical sections, one for taking the mutex and one for a step of its owner.
-/

namespace AesdChar.Scull

open CodeLib CodeLib.CInt CodeLib.Mutex CodeLib.Ring

/-! ## The queue that a pipe stands for -/

/-- A pipe is a queue of bytes.  A reader gets the oldest ones. -/
def PipeEvent.after {τ : Type} : PipeEvent τ → (q : List Byte) → Option (List Byte)
  | .accepted bytes, q => some (q ++ bytes)
  | .delivered bytes, q => if bytes <+: q then some (q.drop bytes.length) else none
  | .cleared, _ => some []
  | .silent, q | .returned _ _, q => some q

/-- The queue after a row of events, if they are events of a queue. -/
def PipeEvent.replay {τ : Type} (q : List Byte) (events : List (PipeEvent τ)) :
    Option (List Byte) :=
  Trace.replay PipeEvent.after q events

/-! ## Tasks -/

/-- The task has the mutex. -/
def PipePc.holds : PipePc → Bool
  | .openBuffer | .openSize | .openWp | .openRp | .openCount | .releaseCount | .releaseUnlock
  | .pollMask | .test _ | .blocked _ | .transfer _ | .fault _ | .wrap _ _ | .unlock _ _ => true
  | _ => false

/-- The file of the task is among those that the device counts. -/
def PipePc.counted : PipePc → Bool
  | .closed | .openLock | .openBuffer | .openSize | .openWp | .openRp | .openCount
  | .releaseUnlock => false
  | _ => true

/-- The task is in `scull_p_open`, and there is a buffer. -/
def PipePc.opening : PipePc → Bool
  | .openSize | .openWp | .openRp | .openCount => true
  | _ => false

/-- The operation that the task is in. -/
def PipePc.op? : PipePc → Option PipeOp
  | .lock op | .test op | .blocked op | .peek op | .prepare op | .check op | .schedule op
  | .finish op | .transfer op | .fault op | .wrap op _ | .unlock op _ | .wake op _ => some op
  | _ => none

/-- What the owner of the mutex has done to the memory. -/
inductive PipePhase
  | settled
  | readable
  | writable
  | allocated
  | sized
  | wpReset
  | opened
  | readMoved
  | writeMoved
deriving DecidableEq, Repr

def PipePc.phase : PipePc → PipePhase
  | .openSize => .allocated
  | .openWp => .sized
  | .openRp => .wpReset
  | .openCount => .opened
  | .transfer (.read _ _) => .readable
  | .transfer (.write _ _) => .writable
  | .wrap (.read _ _) _ => .readMoved
  | .wrap (.write _ _) _ => .writeMoved
  | _ => .settled

/-- Only the owner of the mutex leaves something behind. -/
theorem PipePc.phase_of_not_holds {pc : PipePc} (h : pc.holds = false) : pc.phase = .settled := by
  cases pc with
  | transfer op => cases h
  | wrap op count => cases h
  | openSize | openWp | openRp | openCount => cases h
  | _ => rfl

theorem PipePc.holds_of_opening {pc : PipePc} (h : pc.opening = true) : pc.holds = true := by
  cases pc with
  | openSize | openWp | openRp | openCount => rfl
  | _ => cases h

/-! ## Memory -/

/-- The memory between two critical sections, with the bytes `q` in it. -/
def PipeMem.Settled (kmalloc : Kmalloc) (m : PipeMem) (q : List Byte) : Prop :=
  m.Unbuffered ∧ q = [] ∨ ∃ cells n x y, x < n ∧ y < n ∧ m.Ring kmalloc cells n x y q

/-- The memory in each phase. -/
def PipeMem.Shape (kmalloc : Kmalloc) (m : PipeMem) (q : List Byte) : PipePhase → Prop
  | .settled => m.Settled kmalloc q
  | .readable => q ≠ [] ∧ ∃ cells n x y, x < n ∧ y < n ∧ m.Ring kmalloc cells n x y q
  | .writable => ∃ cells n x y, q.length + 1 < n ∧ x < n ∧ y < n ∧ m.Ring kmalloc cells n x y q
  | .allocated => (∃ cells, m.Buffered kmalloc cells) ∧
      (q = [] ∨ ∃ cells n x y, x < n ∧ y < n ∧ m.Ring kmalloc cells n x y q)
  | .sized => q = [] ∧ ∃ cells n, m.Sized kmalloc cells n
  | .wpReset => q = [] ∧ m.dev.wp = 0 ∧ ∃ cells n, m.Sized kmalloc cells n
  | .opened => ∃ cells n x y, x < n ∧ y < n ∧ m.Ring kmalloc cells n x y q
  | .readMoved => ∃ cells n x y, y < n ∧ m.Ring kmalloc cells n x y q
  | .writeMoved => ∃ cells n x y, x < n ∧ m.Ring kmalloc cells n x y q

/-! ## The invariant -/

section Invariant

variable {τ : Type} {kmalloc : Kmalloc} {mode : τ → FMode} {s s' : PipeSystem τ}
  {q q' : List Byte} {t : τ} {pc' : PipePc} {tasks : τ → PipePc} {dev dev' : ScullPipe}

/-- The device counts the files that are open for reading and for writing. -/
structure Counts (mode : τ → FMode) (tasks : τ → PipePc) (dev : ScullPipe) : Prop where
  readers : Counting (fun t pc => pc.counted && (mode t).read) tasks dev.nreaders
  writers : Counting (fun t pc => pc.counted && (mode t).write) tasks dev.nwriters

/-- The phase of the task that has the mutex. -/
def PipeSystem.phase (s : PipeSystem τ) : PipePhase :=
  ownerPhase .settled PipePc.phase s.lock s.tasks

/-- The pipe holds the bytes `q`. -/
structure PipeSystem.Inv (kmalloc : Kmalloc) (mode : τ → FMode) (s : PipeSystem τ)
    (q : List Byte) : Prop where
  lock : Guards PipePc.holds s.lock s.tasks
  allowed : ∀ t op, (s.tasks t).op? = some op → PipeSystem.allowed (mode t) (.op op) = true
  counts : Counts mode s.tasks s.mem.dev
  unbuffered : s.mem.dev.buffer = .null → s.mem.dev.nreaders + s.mem.dev.nwriters = 0
  buffered : s.mem.dev.buffer ≠ .null →
    ∃ t, (s.tasks t).counted = true ∨ (s.tasks t).opening = true
  shape : s.mem.Shape kmalloc q s.phase

/-! ## Counting -/

/-- Who may read or write is counted as such. -/
theorem Counts.pos (h : Counts mode tasks dev) (hcounted : (tasks t).counted = true)
    (hmode : (mode t).read = true ∨ (mode t).write = true) : dev.nreaders + dev.nwriters ≠ 0 := by
  have hr := h.readers.nonneg
  have hw := h.writers.nonneg
  rcases hmode with hread | hwrite
  · have hpos := h.readers.pos (t := t) (by rw [hcounted, hread]; rfl)
    omega
  · have hpos := h.writers.pos (t := t) (by rw [hcounted, hwrite]; rfl)
    omega

/-- Behind a file that was counted out, other files are left or the counts are zero. -/
theorem Counts.exists_of_ne (h : Counts mode tasks dev)
    (hne : dev.nreaders + dev.nwriters ≠ 0) : ∃ u, (tasks u).counted = true := by
  by_cases hr : dev.nreaders = 0
  · obtain ⟨u, hu⟩ := h.writers.exists_of_ne_zero (by omega)
    exact ⟨u, (Bool.and_eq_true_iff.mp hu).1⟩
  · obtain ⟨u, hu⟩ := h.readers.exists_of_ne_zero hr
    exact ⟨u, (Bool.and_eq_true_iff.mp hu).1⟩

/-- A task is counted twice at most, so the sum of the counters is an `int`. -/
theorem Counts.range [Fintype τ] (h : Counts mode tasks dev)
    (hcard : Fintype.card τ < 2 ^ 30) :
    0 ≤ dev.nreaders ∧ 0 ≤ dev.nwriters ∧ dev.nreaders < 2 ^ 30 ∧ dev.nwriters < 2 ^ 30 := by
  have hr := h.readers.le_card
  have hw := h.writers.le_card
  exact ⟨h.readers.nonneg, h.writers.nonneg, by omega, by omega⟩

/-! ## The mutex -/

namespace PipeSystem.Inv

theorem owner_unique (h : s.Inv kmalloc mode q) {u : τ} (ht : (s.tasks t).holds = true)
    (hu : (s.tasks u).holds = true) : u = t :=
  h.lock.owner_unique ht hu

theorem phase_eq (h : s.Inv kmalloc mode q) (ht : (s.tasks t).holds = true) :
    s.phase = (s.tasks t).phase :=
  h.lock.ownerPhase_eq ht

theorem shape_of_holds (h : s.Inv kmalloc mode q) (ht : (s.tasks t).holds = true) :
    s.mem.Shape kmalloc q (s.tasks t).phase := by
  rw [← h.phase_eq ht]
  exact h.shape

/-- A task in an operation finds a buffer. -/
theorem buffer_ne (h : s.Inv kmalloc mode q) {op : PipeOp} (hop : (s.tasks t).op? = some op)
    (hcounted : (s.tasks t).counted = true) : s.mem.dev.buffer ≠ .null := by
  intro hnull
  apply h.counts.pos hcounted _ (h.unbuffered hnull)
  have hallowed := h.allowed t op hop
  cases op with
  | read count nonblock => exact Or.inl hallowed
  | write buf nonblock => exact Or.inr hallowed

end PipeSystem.Inv

variable [DecidableEq τ]

/-! ## Counting in and out -/

theorem Counts.congr (h : Counts mode tasks dev) (hcounted : pc'.counted = (tasks t).counted)
    (hreaders : dev'.nreaders = dev.nreaders) (hwriters : dev'.nwriters = dev.nwriters) :
    Counts mode (Function.update tasks t pc') dev' where
  readers := by
    rw [hreaders]
    exact h.readers.stay (by rw [hcounted])
  writers := by
    rw [hwriters]
    exact h.writers.stay (by rw [hcounted])

theorem Counts.enter (h : Counts mode tasks dev) (hold : (tasks t).counted = false)
    (hnew : pc'.counted = true)
    (hreaders : dev'.nreaders = if (mode t).read then dev.nreaders + 1 else dev.nreaders)
    (hwriters : dev'.nwriters = if (mode t).write then dev.nwriters + 1 else dev.nwriters) :
    Counts mode (Function.update tasks t pc') dev' where
  readers := by
    rw [hreaders]
    split
    · rename_i hread
      exact h.readers.enter (by rw [hold]; rfl) (by rw [hnew, hread]; rfl)
    · rename_i hread
      exact h.readers.stay (by rw [hold, hnew, Bool.of_not_eq_true hread]; rfl)
  writers := by
    rw [hwriters]
    split
    · rename_i hwrite
      exact h.writers.enter (by rw [hold]; rfl) (by rw [hnew, hwrite]; rfl)
    · rename_i hwrite
      exact h.writers.stay (by rw [hold, hnew, Bool.of_not_eq_true hwrite]; rfl)

theorem Counts.leave (h : Counts mode tasks dev) (hold : (tasks t).counted = true)
    (hnew : pc'.counted = false)
    (hreaders : dev'.nreaders = if (mode t).read then dev.nreaders - 1 else dev.nreaders)
    (hwriters : dev'.nwriters = if (mode t).write then dev.nwriters - 1 else dev.nwriters) :
    Counts mode (Function.update tasks t pc') dev' where
  readers := by
    rw [hreaders]
    split
    · rename_i hread
      exact h.readers.leave (by rw [hold, hread]; rfl) (by rw [hnew]; rfl)
    · rename_i hread
      exact h.readers.stay (by rw [hold, hnew, Bool.of_not_eq_true hread]; rfl)
  writers := by
    rw [hwriters]
    split
    · rename_i hwrite
      exact h.writers.leave (by rw [hold, hwrite]; rfl) (by rw [hnew]; rfl)
    · rename_i hwrite
      exact h.writers.stay (by rw [hold, hnew, Bool.of_not_eq_true hwrite]; rfl)

/-- `scull_p_open` counts without an overflow. -/
theorem Counts.openCount [Fintype τ] {m : PipeMem} (h : Counts mode tasks m.dev)
    (hcard : Fintype.card τ < 2 ^ 30) (hold : (tasks t).counted = false)
    (hnew : pc'.counted = true) :
    Counts mode (Function.update tasks t pc') (m.openCount (mode t)).dev := by
  have hrange := h.range hcard
  apply h.enter hold hnew
  · rw [← int32_of_range (x := m.dev.nreaders + 1) (by omega) (by omega)]
    rfl
  · rw [← int32_of_range (x := m.dev.nwriters + 1) (by omega) (by omega)]
    rfl

/-- `scull_p_release` counts without an overflow. -/
theorem Counts.countOut [Fintype τ] {m : PipeMem} (h : Counts mode tasks m.dev)
    (hcard : Fintype.card τ < 2 ^ 30) (hold : (tasks t).counted = true)
    (hnew : pc'.counted = false) :
    Counts mode (Function.update tasks t pc') (m.countOut (mode t)).dev := by
  have hrange := h.range hcard
  apply h.leave hold hnew
  · rw [← int32_of_range (x := m.dev.nreaders - 1) (by omega) (by omega)]
    rfl
  · rw [← int32_of_range (x := m.dev.nwriters - 1) (by omega) (by omega)]
    rfl

/-! ## Steps -/

namespace PipeSystem.Inv

/-- The operations that the tasks may be in after a step of `t`. -/
theorem allowed_update (h : s.Inv kmalloc mode q)
    (hop : ∀ op, pc'.op? = some op → PipeSystem.allowed (mode t) (.op op) = true) (u : τ)
    (op : PipeOp) (hu : (Function.update s.tasks t pc' u).op? = some op) :
    PipeSystem.allowed (mode u) (.op op) = true := by
  by_cases hut : u = t
  · rw [hut, Function.update_self] at hu
    rw [hut]
    exact hop op hu
  · rw [Function.update_of_ne hut] at hu
    exact h.allowed u op hu

/-- A task that is counted as before keeps the buffer as before. -/
theorem buffered_update (h : s.Inv kmalloc mode q) (hbuffer : s.mem.dev.buffer ≠ .null)
    (hcounted : pc'.counted = (s.tasks t).counted)
    (hopening : (s.tasks t).opening = true → pc'.opening = true) :
    ∃ u, (Function.update s.tasks t pc' u).counted = true ∨
      (Function.update s.tasks t pc' u).opening = true := by
  obtain ⟨u, hu⟩ := h.buffered hbuffer
  refine ⟨u, ?_⟩
  by_cases hut : u = t
  · rw [hut] at hu ⊢
    rw [Function.update_self, hcounted]
    exact hu.imp_right hopening
  · rw [Function.update_of_ne hut]
    exact hu

/-- A step of a task outside of its critical sections. -/
theorem outside (h : s.Inv kmalloc mode q) (htasks : s'.tasks = Function.update s.tasks t pc')
    (hlock : s'.lock = s.lock) (hmem : s'.mem = s.mem) (hold : (s.tasks t).holds = false)
    (hnew : pc'.holds = false) (hcounted : pc'.counted = (s.tasks t).counted)
    (hop : ∀ op, pc'.op? = some op → PipeSystem.allowed (mode t) (.op op) = true) :
    s'.Inv kmalloc mode q where
  lock := by
    rw [hlock, htasks]
    exact h.lock.stay (hnew.trans hold.symm)
  allowed := by
    rw [htasks]
    exact h.allowed_update hop
  counts := by
    rw [htasks, hmem]
    exact h.counts.congr hcounted rfl rfl
  unbuffered := by
    rw [hmem]
    exact h.unbuffered
  buffered hbuffer := by
    rw [hmem] at hbuffer
    rw [htasks]
    apply h.buffered_update hbuffer hcounted
    intro hopening
    rw [PipePc.holds_of_opening hopening] at hold
    cases hold
  shape := by
    have hphase : s'.phase = s.phase := by
      unfold phase
      rw [hlock, htasks]
      exact h.lock.ownerPhase_outside hold
    rw [hmem, hphase]
    exact h.shape

/-- A task takes the mutex. -/
theorem acquire (h : s.Inv kmalloc mode q) (hfree : s.lock = none)
    (htasks : s'.tasks = Function.update s.tasks t pc') (hlock : s'.lock = some t)
    (hmem : s'.mem = s.mem) (hnew : pc'.holds = true) (hphase : pc'.phase = .settled)
    (hcounted : pc'.counted = (s.tasks t).counted)
    (hop : ∀ op, pc'.op? = some op → PipeSystem.allowed (mode t) (.op op) = true) :
    s'.Inv kmalloc mode q where
  lock := by
    rw [hlock, htasks]
    exact h.lock.acquire hfree hnew
  allowed := by
    rw [htasks]
    exact h.allowed_update hop
  counts := by
    rw [htasks, hmem]
    exact h.counts.congr hcounted rfl rfl
  unbuffered := by
    rw [hmem]
    exact h.unbuffered
  buffered hbuffer := by
    rw [hmem] at hbuffer
    rw [htasks]
    apply h.buffered_update hbuffer hcounted
    intro hopening
    have howner := (h.lock t).mpr (PipePc.holds_of_opening hopening)
    rw [hfree] at howner
    cases howner
  shape := by
    have hshape := h.shape
    rw [phase, hfree] at hshape
    rw [hmem, phase, hlock, htasks]
    show s.mem.Shape kmalloc q (Function.update s.tasks t pc' t).phase
    rw [Function.update_self, hphase]
    exact hshape

/-- A step of the owner of the mutex, which may release it. -/
theorem owner (h : s.Inv kmalloc mode q) (hold : (s.tasks t).holds = true)
    (htasks : s'.tasks = Function.update s.tasks t pc')
    (hlock : s'.lock = if pc'.holds then some t else none)
    (hop : ∀ op, pc'.op? = some op → PipeSystem.allowed (mode t) (.op op) = true)
    (hcounts : Counts mode s'.tasks s'.mem.dev)
    (hunbuffered : s'.mem.dev.buffer = .null → s'.mem.dev.nreaders + s'.mem.dev.nwriters = 0)
    (hbuffered : s'.mem.dev.buffer ≠ .null →
      ∃ u, (s'.tasks u).counted = true ∨ (s'.tasks u).opening = true)
    (hshape : s'.mem.Shape kmalloc q' pc'.phase) : s'.Inv kmalloc mode q' where
  lock := by
    rw [hlock, htasks]
    exact h.lock.owner hold
  allowed := by
    rw [htasks]
    exact h.allowed_update hop
  counts := hcounts
  unbuffered := hunbuffered
  buffered := hbuffered
  shape := by
    rw [phase, hlock, htasks, ownerPhase_owner fun _ hnew => PipePc.phase_of_not_holds hnew]
    exact hshape

/-- A step of the owner that leaves the counts and the buffer alone. -/
theorem owner_same (h : s.Inv kmalloc mode q) (hold : (s.tasks t).holds = true)
    (htasks : s'.tasks = Function.update s.tasks t pc')
    (hlock : s'.lock = if pc'.holds then some t else none)
    (hop : ∀ op, pc'.op? = some op → PipeSystem.allowed (mode t) (.op op) = true)
    (hcounted : pc'.counted = (s.tasks t).counted)
    (hopening : (s.tasks t).opening = true → pc'.opening = true)
    (hbuffer : s'.mem.dev.buffer = s.mem.dev.buffer)
    (hreaders : s'.mem.dev.nreaders = s.mem.dev.nreaders)
    (hwriters : s'.mem.dev.nwriters = s.mem.dev.nwriters)
    (hshape : s'.mem.Shape kmalloc q' pc'.phase) : s'.Inv kmalloc mode q' := by
  apply h.owner hold htasks hlock hop _ _ _ hshape
  · rw [htasks]
    exact h.counts.congr hcounted hreaders hwriters
  · rw [hbuffer, hreaders, hwriters]
    exact h.unbuffered
  · rw [hbuffer, htasks]
    exact fun hne => h.buffered_update hne hcounted hopening

end PipeSystem.Inv

end Invariant

end AesdChar.Scull
