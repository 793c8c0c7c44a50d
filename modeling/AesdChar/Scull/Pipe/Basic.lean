import AesdChar.CodeLib.Mealy
import AesdChar.CodeLib.WaitQueue
import AesdChar.Scull.Ioctl

/-!
# The pipe device

`scull/pipe.c`: a device that is read and written like a pipe by any number of
tasks.  A task stands for an open file and the process that works on it, so its
calls come one after the other.

A step of a task is a stretch of code that touches what the tasks share at one
point: the mutex, one of the two wait queues, or the fields of the device.  Most
fields are used under the mutex.  Tasks that wait for data or for space look at
`rp`, `wp` and `buffersize` without it, so every store to one of these is a step of
its own.

The pointers `rp`, `wp` and `end` are offsets from `buffer`.
-/

namespace AesdChar.Scull

open CodeLib CodeLib.CInt

def POLLIN : Nat := 0x1
def POLLOUT : Nat := 0x4
def POLLRDNORM : Nat := 0x40
def POLLWRNORM : Nat := 0x100

/-! ## The device -/

/-- `struct scull_pipe`, without the mutex, the queues and the `cdev`.  The two
counters are `int`. -/
structure ScullPipe where
  buffer : Ptr
  bufEnd : Int
  buffersize : Int
  rp : Int
  wp : Int
  nreaders : Int
  nwriters : Int
deriving DecidableEq, Repr

/-- The device that `scull_p_init` has cleared. -/
def ScullPipe.zeroed : ScullPipe := ⟨.null, 0, 0, 0, 0, 0, 0⟩

/-- The device and its memory. -/
structure PipeMem where
  heap : Heap Byte
  dev : ScullPipe
deriving DecidableEq, Repr

/-- `spacefree`: how much space is free. -/
def ScullPipe.spacefree (dev : ScullPipe) : Int :=
  if dev.rp = dev.wp then dev.buffersize - 1
  else (dev.rp + dev.buffersize - dev.wp).tmod dev.buffersize - 1

/-- How much `scull_p_read` takes of what is there. -/
def ScullPipe.readCount (dev : ScullPipe) (count : Nat) : Nat :=
  if dev.wp > dev.rp then min count (sizeT (dev.wp - dev.rp))
  -- The write pointer has wrapped.
  else min count (sizeT (dev.bufEnd - dev.rp))

/-- How much `scull_p_write` accepts. -/
def ScullPipe.writeCount (dev : ScullPipe) (count : Nat) : Nat :=
  let count := min count (sizeT dev.spacefree)
  if dev.wp ≥ dev.rp then min count (sizeT (dev.bufEnd - dev.wp))
  -- The write pointer has wrapped, fill up to `rp - 1`.
  else min count (sizeT (dev.rp - dev.wp - 1))

/-- The bits that `scull_p_poll` sets. -/
def ScullPipe.pollMask (dev : ScullPipe) : Nat :=
  (if dev.rp ≠ dev.wp then POLLIN ||| POLLRDNORM else 0) |||
    (if dev.spacefree ≠ 0 then POLLOUT ||| POLLWRNORM else 0)

namespace PipeMem

/-- Read `n` bytes at a pointer. -/
def load (m : PipeMem) (at_ : Int) (n : Nat) : Except Fault (List Byte) :=
  if at_ < 0 ∧ n ≠ 0 then .error .badAccess else m.heap.load m.dev.buffer at_.toNat n

/-- Write bytes at a pointer. -/
def store (m : PipeMem) (at_ : Int) (xs : List Byte) : Except Fault (Heap Byte) :=
  if at_ < 0 ∧ xs ≠ [] then .error .badAccess else m.heap.store m.dev.buffer at_.toNat xs

/-- `scull_p_open` allocates the buffer if there is none. -/
def openBuffer (kmalloc : Kmalloc) (ok : Bool) (size : Int) (m : PipeMem) : PipeMem :=
  if m.dev.buffer = .null then
    let (p, heap) := m.heap.alloc kmalloc.maxSize ok (sizeT size)
    ⟨heap, { m.dev with buffer := p }⟩
  else m

/-- The bounds of the buffer, as `scull_p_open` sets them. -/
def openSize (size : Int) (m : PipeMem) : PipeMem :=
  { m with dev := { m.dev with buffersize := size, bufEnd := size } }

def openWp (m : PipeMem) : PipeMem := { m with dev := { m.dev with wp := 0 } }

def openRp (m : PipeMem) : PipeMem := { m with dev := { m.dev with rp := 0 } }

/-- `scull_p_open` counts the file. -/
def openCount (mode : FMode) (m : PipeMem) : PipeMem :=
  { m with dev := { m.dev with
    nreaders := if mode.read then int32 (m.dev.nreaders + 1) else m.dev.nreaders
    nwriters := if mode.write then int32 (m.dev.nwriters + 1) else m.dev.nwriters } }

/-- `scull_p_release` counts the file out. -/
def countOut (mode : FMode) (m : PipeMem) : PipeMem :=
  { m with dev := { m.dev with
    nreaders := if mode.read then int32 (m.dev.nreaders - 1) else m.dev.nreaders
    nwriters := if mode.write then int32 (m.dev.nwriters - 1) else m.dev.nwriters } }

/-- `scull_p_release` frees the buffer behind the last reader and writer. -/
def releaseCount (mode : FMode) (m : PipeMem) : Except Fault PipeMem :=
  let m := m.countOut mode
  if int32 (m.dev.nreaders + m.dev.nwriters) = 0 then do
    let heap ← m.heap.free m.dev.buffer
    return ⟨heap, { m.dev with buffer := .null }⟩
  else return m

/-- The copy of `scull_p_read`, with what the caller gets.  It gets nothing when
`copy_to_user` leaves some bytes behind. -/
def transferRead (count uncopied : Nat) (m : PipeMem) :
    Except Fault (Option (List Byte) × PipeMem) := do
  let count := m.dev.readCount count
  let bytes ← m.load m.dev.rp count
  if min uncopied count ≠ 0 then return (none, m)
  else return (some bytes, { m with dev := { m.dev with rp := m.dev.rp + count } })

/-- The copy of `scull_p_write`, with what it accepted. -/
def transferWrite (buf : List Byte) (uncopied : Nat) (m : PipeMem) :
    Except Fault (Option (List Byte) × PipeMem) := do
  let count := m.dev.writeCount buf.length
  let (left, bytes) := copyFromUser (buf.take count) uncopied
  let heap ← m.store m.dev.wp bytes
  if left ≠ 0 then return (none, { m with heap := heap })
  else return (some (buf.take count), ⟨heap, { m.dev with wp := m.dev.wp + count }⟩)

/-- The read pointer wraps. -/
def wrapRead (m : PipeMem) : PipeMem :=
  if m.dev.rp = m.dev.bufEnd then { m with dev := { m.dev with rp := 0 } } else m

/-- The write pointer wraps. -/
def wrapWrite (m : PipeMem) : PipeMem :=
  if m.dev.wp = m.dev.bufEnd then { m with dev := { m.dev with wp := 0 } } else m

/-- `scull_p_cleanup`, for one device. -/
def cleanup (m : PipeMem) : Except Fault PipeMem := do
  let heap ← m.heap.free m.dev.buffer
  return { m with heap := heap }

end PipeMem

/-! ## Tasks -/

/-- A `read` or a `write`, and whether the file is in non-blocking mode. -/
inductive PipeOp
  | read (count : Nat) (nonblock : Bool)
  | write (buf : List Byte) (nonblock : Bool)
deriving DecidableEq, Repr

def PipeOp.nonblock : PipeOp → Bool
  | .read _ nonblock => nonblock
  | .write _ nonblock => nonblock

def PipeOp.isRead : PipeOp → Bool
  | .read _ _ => true
  | .write _ _ => false

/-- What the operation waits for. -/
def PipeOp.ready : PipeOp → ScullPipe → Bool
  | .read _ _, dev => decide (dev.rp ≠ dev.wp)
  | .write _ _, dev => decide (dev.spacefree ≠ 0)

/-- Where a task stands.  A task at `user` has the file open and is in no call.
From `peek` to `finish` it waits: these are `wait_event_interruptible` for a reader and
the loop of `scull_getwritespace` for a writer. -/
inductive PipePc
  | closed
  | user
  | openLock
  | openBuffer
  | openSize
  | openWp
  | openRp
  | openCount
  | releaseLock
  | releaseCount
  | releaseUnlock
  | pollLock
  | pollMask
  | lock (op : PipeOp)
  | test (op : PipeOp)
  | blocked (op : PipeOp)
  | peek (op : PipeOp)
  | prepare (op : PipeOp)
  | check (op : PipeOp)
  | schedule (op : PipeOp)
  | finish (op : PipeOp)
  | transfer (op : PipeOp)
  | fault (op : PipeOp)
  | wrap (op : PipeOp) (count : Nat)
  | unlock (op : PipeOp) (count : Nat)
  | wake (op : PipeOp) (count : Nat)
deriving DecidableEq, Repr

/-- A pipe and the tasks on it. -/
structure PipeSystem (τ : Type) where
  mem : PipeMem
  lock : Option τ
  inq : WaitQueue τ
  outq : WaitQueue τ
  params : ScullParams
  tasks : τ → PipePc

/-- What a step does to the data, or what a call returns. -/
inductive PipeEvent (τ : Type)
  | silent
  | accepted (bytes : List Byte)
  | delivered (bytes : List Byte)
  | cleared
  | returned (t : τ) (ret : Int)
deriving DecidableEq, Repr

/-- What the kernel answers in a step: whether a signal is pending, whether
`kmalloc` succeeds and how many bytes a copy leaves behind. -/
structure PipeAnswer where
  signal : Bool
  allocOk : Bool
  uncopied : Nat

/-- The calls of user space. -/
inductive PipeCall
  | «open»
  | release
  | poll
  | op (op : PipeOp)
deriving DecidableEq, Repr

/-- What happens next: a task enters a call or takes its next step in one, or
somebody changes the parameters. -/
inductive PipeAct (τ : Type)
  | call (t : τ) (c : PipeCall)
  | step (t : τ) (answer : PipeAnswer)
  | ioctl (c : IoctlCall)

namespace PipeSystem

variable {τ : Type} [DecidableEq τ]

/-- `t` goes on at `pc`. -/
def goto (s : PipeSystem τ) (t : τ) (pc : PipePc) : PipeSystem τ :=
  { s with tasks := Function.update s.tasks t pc }

theorem goto_self (s : PipeSystem τ) (t : τ) (pc : PipePc) : (s.goto t pc).tasks t = pc := by
  show Function.update s.tasks t pc t = pc
  rw [Function.update_self]

theorem goto_of_ne (s : PipeSystem τ) {t u : τ} (h : u ≠ t) (pc : PipePc) :
    (s.goto t pc).tasks u = s.tasks u := by
  show Function.update s.tasks t pc u = s.tasks u
  rw [Function.update_of_ne h]

/-- `mutex_lock`: the task waits until the mutex is free. -/
def mutexLock (s : PipeSystem τ) (t : τ) (pc : PipePc) : PipeEvent τ × PipeSystem τ :=
  if s.lock = none then (.silent, { s with lock := some t }.goto t pc) else (.silent, s)

/-- `mutex_lock_interruptible`: a signal ends the wait, and the call. -/
def mutexLockInterruptible (s : PipeSystem τ) (t : τ) (answer : PipeAnswer) (fail pc : PipePc) :
    PipeEvent τ × PipeSystem τ :=
  if s.lock = none then (.silent, { s with lock := some t }.goto t pc)
  else if answer.signal then (.returned t (-ERESTARTSYS), s.goto t fail)
  else (.silent, s)

/-- `mutex_unlock`. -/
def mutexUnlock (s : PipeSystem τ) (t : τ) : Except Fault (PipeSystem τ) :=
  if s.lock = some t then .ok { s with lock := none } else .error .lock

/-- The queue on which the operation waits. -/
def queue (s : PipeSystem τ) : PipeOp → WaitQueue τ
  | .read _ _ => s.inq
  | .write _ _ => s.outq

def setQueue (s : PipeSystem τ) (op : PipeOp) (queue : WaitQueue τ) : PipeSystem τ :=
  match op with
  | .read _ _ => { s with inq := queue }
  | .write _ _ => { s with outq := queue }

/-- The queue that the operation wakes. -/
def wakeOthers (s : PipeSystem τ) : PipeOp → PipeSystem τ
  | .read _ _ => { s with outq := s.outq.wakeUp }
  | .write _ _ => { s with inq := s.inq.wakeUp }

/-- The copy of `scull_p_read` or `scull_p_write`. -/
def transfer (s : PipeSystem τ) (t : τ) (answer : PipeAnswer) (op : PipeOp) :
    Except Fault (PipeEvent τ × PipeSystem τ) :=
  match op with
  | .read count _ => do
    let (bytes, mem) ← s.mem.transferRead count answer.uncopied
    match bytes with
    | none => return (.silent, { s with mem := mem }.goto t (.fault op))
    | some bytes => return (.delivered bytes, { s with mem := mem }.goto t (.wrap op bytes.length))
  | .write buf _ => do
    let (bytes, mem) ← s.mem.transferWrite buf answer.uncopied
    match bytes with
    | none => return (.silent, { s with mem := mem }.goto t (.fault op))
    | some bytes => return (.accepted bytes, { s with mem := mem }.goto t (.wrap op bytes.length))

/-- The pointer of the operation wraps. -/
def wrapPointer (m : PipeMem) : PipeOp → PipeMem
  | .read _ _ => m.wrapRead
  | .write _ _ => m.wrapWrite

/-- The next step of a task. -/
def taskStep (kmalloc : Kmalloc) (mode : τ → FMode) (t : τ) (answer : PipeAnswer)
    (s : PipeSystem τ) : Except Fault (PipeEvent τ × PipeSystem τ) :=
  match s.tasks t with
  | .closed => return (.silent, s)
  | .user => return (.silent, s)
  | .openLock => return s.mutexLockInterruptible t answer .closed .openBuffer
  | .openBuffer => do
    let s := { s with mem := s.mem.openBuffer kmalloc answer.allocOk s.params.scullPBuffer }
    if s.mem.dev.buffer = .null then
      let s ← s.mutexUnlock t
      return (.returned t (-ENOMEM), s.goto t .closed)
    else return (.silent, s.goto t .openSize)
  | .openSize =>
    return (.cleared, { s with mem := s.mem.openSize s.params.scullPBuffer }.goto t .openWp)
  | .openWp => return (.silent, { s with mem := s.mem.openWp }.goto t .openRp)
  | .openRp => return (.silent, { s with mem := s.mem.openRp }.goto t .openCount)
  | .openCount => do
    let s ← { s with mem := s.mem.openCount (mode t) }.mutexUnlock t
    return (.returned t 0, s.goto t .user)
  | .releaseLock => return s.mutexLock t .releaseCount
  | .releaseCount => do
    let mem ← s.mem.releaseCount (mode t)
    return (if mem.dev.buffer = .null then .cleared else .silent,
      { s with mem := mem }.goto t .releaseUnlock)
  | .releaseUnlock => do
    let s ← s.mutexUnlock t
    return (.returned t 0, s.goto t .closed)
  | .pollLock => return s.mutexLock t .pollMask
  | .pollMask => do
    let s ← s.mutexUnlock t
    return (.returned t s.mem.dev.pollMask, s.goto t .user)
  | .lock op => return s.mutexLockInterruptible t answer .user (.test op)
  | .test op =>
    return (.silent, s.goto t (if op.ready s.mem.dev then .transfer op else .blocked op))
  | .blocked op => do
    let s ← s.mutexUnlock t
    if op.nonblock then return (.returned t (-EAGAIN), s.goto t .user)
    else return (.silent, s.goto t (if op.isRead then .peek op else .prepare op))
  | .peek op => return (.silent, s.goto t (if op.ready s.mem.dev then .lock op else .prepare op))
  | .prepare op =>
    -- `prepare_to_wait_event` of a reader looks for a signal, `prepare_to_wait` does not.
    -- Behind a signal the reader is off the queue, and looks at the condition all the same.
    if op.isRead ∧ answer.signal then
      let s := s.setQueue op ((s.queue op).finish t)
      if op.ready s.mem.dev then return (.silent, s.goto t (.lock op))
      else return (.returned t (-ERESTARTSYS), s.goto t .user)
    else return (.silent, (s.setQueue op ((s.queue op).prepare t)).goto t (.check op))
  | .check op =>
    return (.silent, s.goto t (if op.ready s.mem.dev then .finish op else .schedule op))
  | .schedule op =>
    if (s.queue op).Unwoken t ∧ answer.signal = false then return (.silent, s)
    else return (.silent, s.goto t (if op.isRead then .prepare op else .finish op))
  | .finish op =>
    let s := s.setQueue op ((s.queue op).finish t)
    if op.isRead = false ∧ answer.signal then return (.returned t (-ERESTARTSYS), s.goto t .user)
    else return (.silent, s.goto t (.lock op))
  | .transfer op => s.transfer t answer op
  | .fault _ => do
    let s ← s.mutexUnlock t
    return (.returned t (-EFAULT), s.goto t .user)
  | .wrap op count =>
    return (.silent, { s with mem := wrapPointer s.mem op }.goto t (.unlock op count))
  | .unlock op count => do
    let s ← s.mutexUnlock t
    return (.silent, s.goto t (.wake op count))
  | .wake op count => return (.returned t count, (s.wakeOthers op).goto t .user)

/-- The access mode allows the call. -/
def allowed (mode : FMode) : PipeCall → Bool
  | .op (.read _ _) => mode.read
  | .op (.write _ _) => mode.write
  | _ => true

/-- A task that is in no call enters one.  User space cannot do it otherwise. -/
def enter (mode : τ → FMode) (t : τ) (c : PipeCall) (s : PipeSystem τ) : PipeSystem τ :=
  match s.tasks t, c with
  | .closed, .open => s.goto t .openLock
  | .user, .release => s.goto t .releaseLock
  | .user, .poll => s.goto t .pollLock
  | .user, .op op => if allowed (mode t) c then s.goto t (.lock op) else s
  | _, _ => s

theorem enter_mem (mode : τ → FMode) (t : τ) (c : PipeCall) (s : PipeSystem τ) :
    (s.enter mode t c).mem = s.mem := by
  unfold enter
  split <;> try rfl
  split <;> rfl

/-- One step. -/
def step (kmalloc : Kmalloc) (mode : τ → FMode) (s : PipeSystem τ) :
    PipeAct τ → Except Fault (PipeEvent τ × PipeSystem τ)
  | .call t c => return (.silent, s.enter mode t c)
  | .step t answer => s.taskStep kmalloc mode t answer
  | .ioctl c =>
    return (.silent, { s with params := (scullIoctl c.env c.cmd c.arg s.params).params })

/-- The device after `scull_p_init`. -/
def init (params : ScullParams) : PipeSystem τ where
  mem := ⟨⟨[]⟩, .zeroed⟩
  lock := none
  inq := .empty
  outq := .empty
  params := params
  tasks _ := .closed

/-- A run, with what happened in it. -/
def run (kmalloc : Kmalloc) (mode : τ → FMode) (s : PipeSystem τ) (acts : List (PipeAct τ)) :
    Except Fault (List (PipeEvent τ) × PipeSystem τ) :=
  Mealy.runExcept (fun s act => s.step kmalloc mode act) s acts

end PipeSystem

end AesdChar.Scull
