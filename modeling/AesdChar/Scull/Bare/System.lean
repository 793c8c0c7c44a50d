import AesdChar.CodeLib.Mealy
import AesdChar.Scull.Bare.Basic

/-!
# Tasks on a bare device

Any number of tasks have the device open.  A task stands for an open file and the
process that works on it, so its calls come one after the other.

A step of a task is a stretch of code that touches what the tasks share at one
point.  `scull_read` and `scull_write` load the two fields of the geometry before they
take the mutex, and `scull_llseek` loads the size without it.  So `scull_trim` is cut
where it stores these fields, and what a read or a write does under the mutex is one
step.
-/

namespace AesdChar.Scull

open CodeLib CodeLib.CInt

/-! ## Tasks -/

/-- A call that moves data. -/
inductive ScullOp
  | read (count : Nat)
  | write (buf : List Byte)
deriving DecidableEq, Repr

/-- The kernel hands no more to the driver than `MAX_RW_COUNT`. -/
def ScullOp.clip : ScullOp → ScullOp
  | .read count => .read (min count MAX_RW_COUNT)
  | .write buf => .write (buf.take MAX_RW_COUNT)

/-- Where a task stands.  A task at `user` has the file open and is in no call. -/
inductive ScullPc
  | closed
  | openLock
  | trimList
  | trimQuantum
  | trimQset
  | trimData
  | user
  | quantum (op : ScullOp)
  | qset (op : ScullOp) (quantum : Int)
  | lock (op : ScullOp) (quantum qset : Int)
  | body (op : ScullOp) (quantum qset : Int)
deriving DecidableEq, Repr

/-- A device and the tasks on it. -/
structure ScullSystem (τ : Type) where
  mem : ScullMem
  lock : Option τ
  params : ScullParams
  tasks : τ → ScullPc
  fpos : τ → Int

/-- What a step does to the data, or what a call returns. -/
inductive ScullEvent (τ : Type)
  | silent
  | opened (t : τ)
  | trimmed
  | shaped (quantum : Int)
  | sought (t : τ) (off whence ret : Int)
  | read (t : τ) (pos : Int) (count : Nat) (bytes : List (Option Byte)) (ret : Int)
  | written (t : τ) (pos : Int) (buf : List Byte) (stored : Option (List Byte)) (ret : Int)
  | returned (t : τ) (ret : Int)
deriving DecidableEq, Repr

/-- The calls of user space. -/
inductive ScullCall
  | «open»
  | release
  | llseek (off : Int64) (whence : Int)
  | op (op : ScullOp)

/-- What happens next: a task enters a call or takes its next step in one, or
somebody changes the parameters. -/
inductive ScullAct (τ : Type)
  | call (t : τ) (c : ScullCall)
  | step (t : τ) (answer : ScullAnswer)
  | ioctl (c : IoctlCall)

namespace ScullSystem

variable {τ : Type} [DecidableEq τ]

/-- `t` goes on at `pc`. -/
def goto (s : ScullSystem τ) (t : τ) (pc : ScullPc) : ScullSystem τ :=
  { s with tasks := Function.update s.tasks t pc }

/-- The file of `t` stands at `pos`. -/
def setPos (s : ScullSystem τ) (t : τ) (pos : Int) : ScullSystem τ :=
  { s with fpos := Function.update s.fpos t pos }

/-- `mutex_lock_interruptible`: a signal ends the wait, and the call. -/
def mutexLockInterruptible (s : ScullSystem τ) (t : τ) (answer : ScullAnswer) (fail pc : ScullPc) :
    ScullEvent τ × ScullSystem τ :=
  if s.lock = none then (.silent, { s with lock := some t }.goto t pc)
  else if answer.signal then (.returned t (-ERESTARTSYS), s.goto t fail)
  else (.silent, s)

/-- `mutex_unlock`. -/
def mutexUnlock (s : ScullSystem τ) (t : τ) : Except Fault (ScullSystem τ) :=
  if s.lock = some t then .ok { s with lock := none } else .error .lock

/-- What `scull_read` or `scull_write` does under the mutex. -/
def body (kmalloc : Kmalloc) (t : τ) (answer : ScullAnswer) (quantum qset : Int)
    (s : ScullSystem τ) : ScullOp → Except Fault (ScullEvent τ × ScullSystem τ)
  | .read count => do
    let r ← s.mem.read kmalloc answer quantum qset count (s.fpos t)
    return (.read t (s.fpos t) count r.bytes r.ret, { s with mem := r.mem }.setPos t r.pos)
  | .write buf => do
    let r ← s.mem.write kmalloc answer quantum qset buf (s.fpos t)
    return (.written t (s.fpos t) buf r.stored r.ret, { s with mem := r.mem }.setPos t r.pos)

/-- The next step of a task. -/
def taskStep (kmalloc : Kmalloc) (t : τ) (answer : ScullAnswer) (s : ScullSystem τ) :
    Except Fault (ScullEvent τ × ScullSystem τ) :=
  match s.tasks t with
  | .closed => return (.silent, s)
  | .openLock => return s.mutexLockInterruptible t answer .closed .trimList
  | .trimList => do
    let mem ← s.mem.trimList
    return (.trimmed, { s with mem := mem }.goto t .trimQuantum)
  | .trimQuantum =>
    return (.silent, { s with mem := s.mem.trimQuantum s.params.scullQuantum }.goto t .trimQset)
  | .trimQset =>
    return (.shaped s.mem.dev.quantum,
      { s with mem := s.mem.trimQset s.params.scullQset }.goto t .trimData)
  | .trimData => do
    let s ← { s with mem := s.mem.trimData }.mutexUnlock t
    return (.opened t, (s.setPos t 0).goto t .user)
  | .user => return (.silent, s)
  | .quantum op => return (.silent, s.goto t (.qset op s.mem.dev.quantum))
  | .qset op quantum => return (.silent, s.goto t (.lock op quantum s.mem.dev.qset))
  | .lock op quantum qset =>
    return s.mutexLockInterruptible t answer .user (.body op quantum qset)
  | .body op quantum qset => do
    let (e, s) ← s.body kmalloc t answer quantum qset op
    let s ← s.mutexUnlock t
    return (e, s.goto t .user)

/-- The next step of a task, where `scull_open` does not take the mutex. -/
def unlockedStep (kmalloc : Kmalloc) (t : τ) (answer : ScullAnswer)
    (s : ScullSystem τ) : Except Fault (ScullEvent τ × ScullSystem τ) :=
  match s.tasks t with
  | .trimData => return (.opened t, ({ s with mem := s.mem.trimData }.setPos t 0).goto t .user)
  | _ => s.taskStep kmalloc t answer

/-- The access mode allows the call. -/
def allowed (mode : FMode) : ScullOp → Bool
  | .read _ => mode.read
  | .write _ => mode.write

/-- A task that is in no call enters one.  User space cannot do it otherwise.  An open
that is not for writing only needs no mutex, and a seek does not take it. -/
def enter (mode : τ → FMode) (t : τ) (c : ScullCall) (s : ScullSystem τ) :
    ScullEvent τ × ScullSystem τ :=
  match s.tasks t, c with
  | .closed, .open =>
    if mode t = ⟨false, true⟩ then (.silent, s.goto t .openLock)
    else (.opened t, (s.setPos t 0).goto t .user)
  | .user, .release => (.returned t 0, s.goto t .closed)
  | .user, .llseek off whence =>
    match scullLlseek s.mem.dev.size (s.fpos t) off.toInt whence with
    | none => (.sought t off.toInt whence (-EINVAL), s)
    | some newpos => (.sought t off.toInt whence newpos, s.setPos t newpos)
  | .user, .op op => (.silent, if allowed (mode t) op then s.goto t (.quantum op.clip) else s)
  | _, _ => (.silent, s)

/-- One step. -/
def step (kmalloc : Kmalloc) (mode : τ → FMode) (s : ScullSystem τ) :
    ScullAct τ → Except Fault (ScullEvent τ × ScullSystem τ)
  | .call t c => return s.enter mode t c
  | .step t answer => s.taskStep kmalloc t answer
  | .ioctl c =>
    return (.silent, { s with params := (scullIoctl c.env c.cmd c.arg s.params).params })

/-- A run, with what happened in it. -/
def run (kmalloc : Kmalloc) (mode : τ → FMode) (s : ScullSystem τ) (acts : List (ScullAct τ)) :
    Except Fault (List (ScullEvent τ) × ScullSystem τ) :=
  Mealy.runExcept (fun s act => s.step kmalloc mode act) s acts

/-- The device as `scull_init_module` leaves it. -/
def init (params : ScullParams) : ScullSystem τ where
  mem := ⟨⟨[]⟩, ⟨[]⟩, ⟨[]⟩, ⟨.null, params.scullQuantum, params.scullQset, 0⟩⟩
  lock := none
  params := params
  tasks _ := .closed
  fpos _ := 0

end ScullSystem

end AesdChar.Scull
