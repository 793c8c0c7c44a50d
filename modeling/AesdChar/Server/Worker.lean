import AesdChar.CodeLib.CString
import AesdChar.Server.Receive

/-!
# The workers of the server

`threadfunc` as a program counter and a step function, and any number of
workers that share one device and `file_mutex`.

A step ends at the next system call or the next operation on the mutex.  A
worker that finds the mutex taken waits: its step changes nothing.  The
receive phase touches nothing that is shared, so it is one step.

The device is a parameter with its file operations, so the same worker runs on
`/dev/aesdchar` and on a regular file.  `WorkerEnv` holds what the operating
system answers to one worker, and what lies in memory behind its buffer.
-/

namespace AesdChar

open CodeLib CodeLib.CInt CodeLib.CString

/-- How the server was built: the copy of the source and
`USE_AESD_CHAR_DEVICE`. -/
structure Build where
  copy : Copy
  charDevice : Bool
deriving DecidableEq, Repr

/-- `IOCTL_PREFIX`. -/
def ioctlPrefix : List Byte := "AESDCHAR_IOCSEEKTO:".toList.map fun c => c.toNat.toUInt8

/-- What one worker meets.  All but the last are answers of the operating system.

* `recv` are the results of `recv` until it returns zero or an error.
* `openOk` and `reopenOk` say whether the calls of `open` succeed.
* `writes` and `reads` are the kernel's part in each `write` and `read`.
* `sends` is the result of each `send`: `none` is an error, and `some left`
  leaves up to `left` bytes unsent, but not all of them.
* `behind` is no answer: these are the bytes behind `full_buf` in memory, which
  `sscanf` reaches if the buffer holds no zero byte.  They depend on how the
  program was compiled. -/
structure WorkerEnv where
  recv : List Chunk
  openOk : Bool
  ioctlUncopied : Nat
  writes : Nat → WriteEnv
  reopenOk : Bool
  reads : Nat → ReadEnv
  sends : Nat → Option Nat
  behind : List Byte

/-- The number of bytes that a `send` of `len` bytes sends. -/
def sendCount (left len : Nat) : Nat := len - min left (len - 1)

/-- Where a worker stands in `threadfunc`. -/
inductive Pc
  | recv
  | lock
  | openDev
  | request
  | write (writtenTotal : Nat)
  | rewind
  | read
  | send (sendBuf : List Byte) (sentTotal : Nat)
  | closeDev
  | unlock
  | closeSocket
  | lockDone
  | complete
  | unlockDone
  | abort
  | abortClose
  | done
deriving DecidableEq, Repr

/-- The places behind the write loop and the way to the reply. -/
def Pc.late : Pc → Bool
  | .recv | .lock | .openDev | .request | .write _ | .rewind => false
  | .read | .send _ _ | .closeDev | .unlock | .closeSocket | .lockDone | .complete | .unlockDone
  | .abort | .abortClose | .done => true

/-- The local state of a worker.  `fPos` is the position of the open file, and
`writes`, `reads` and `sends` count the calls made so far. -/
structure Worker where
  pc : Pc
  fullBuf : List Byte
  totalLen : Nat
  fPos : Int
  writes : Nat
  reads : Nat
  sends : Nat
  reply : List Byte
  socketCloses : Nat
  bThreadCompleted : Bool
deriving DecidableEq, Repr

/-- A worker that was just created. -/
def Worker.start : Worker := ⟨.recv, [], 0, 0, 0, 0, 0, [], 0, false⟩

/-- What the workers share: the device and `file_mutex`. -/
structure Shared (ι σ : Type) where
  dev : σ
  mutex : Option ι

/-- What a step did, as far as others can see it. -/
inductive Action
  | wait
  | acquire
  | wrote (buf : List Byte) (ret : Int)
  | internal
deriving DecidableEq, Repr

section Step

variable {ι σ : Type} [DecidableEq ι] (build : Build) (ops : FileOps σ) (env : WorkerEnv)

/-- `pthread_mutex_unlock(&file_mutex)`. -/
def Shared.release (s : Shared ι σ) (me : ι) : Except Fault (Shared ι σ) :=
  if s.mutex = some me then .ok { s with mutex := none } else .error .lock

/-- The test for a seek request, and the request. -/
def Worker.request (w : Worker) (dev : σ) : Except Fault (Worker × σ) :=
  if strncmp ioctlPrefix.length w.fullBuf ioctlPrefix = 0 then
    match sscanfPair (str (w.fullBuf.drop ioctlPrefix.length ++ env.behind)) with
    | some (cmdIdx, cmdOffset) => do
      let r ← ops.unlockedIoctl env.ioctlUncopied AESDCHAR_IOCSEEKTO ⟨cmdIdx, cmdOffset⟩ w.fPos dev
      return ({ w with pc := .read, fPos := r.fPos }, r.state)
    | none => return ({ w with pc := .read }, dev)
  else return ({ w with pc := .write 0 }, dev)

/-- `full_buf[writtenTotal..total_len)`. -/
def Worker.unwritten (w : Worker) (writtenTotal : Nat) : List Byte :=
  (w.fullBuf.drop writtenTotal).take (w.totalLen - writtenTotal)

/-- One round of the write loop. -/
def Worker.writeRound (w : Worker) (writtenTotal : Nat) (dev : σ) :
    Except Fault (Action × Worker × σ) :=
  if writtenTotal < w.totalLen then do
    let buf := w.unwritten writtenTotal
    let r ← ops.write (env.writes w.writes) buf w.fPos dev
    let w := { w with writes := w.writes + 1, fPos := r.filePos w.fPos }
    if r.ret < 0 then return (.wrote buf r.ret, { w with pc := .rewind }, r.state)
    else return (.wrote buf r.ret, { w with pc := .write (sizeT (writtenTotal + r.ret)) }, r.state)
  else return (.internal, { w with pc := .rewind }, dev)

/-- What comes between the write loop and the reply.  One copy closes the
device and opens it again. -/
def Worker.rewind (w : Worker) (dev : σ) : Except Fault (Worker × σ) :=
  if build.charDevice then
    match build.copy with
    | .server => return ({ w with pc := .read }, dev)
    | .metaAesd =>
      if env.reopenOk then return ({ w with pc := .read, fPos := 0 }, dev)
      else return ({ w with pc := .abort }, dev)
  else do
    let r ← ops.llseek w.fPos 0 SEEK_SET dev
    return ({ w with pc := .read, fPos := r.fPos }, r.state)

/-- The `read` of the reply loop. -/
def Worker.readRound (w : Worker) (dev : σ) : Except Fault (Worker × σ) := do
  let r ← ops.read (env.reads w.reads) [] bufSize w.fPos dev
  let w := { w with reads := w.reads + 1, fPos := r.filePos w.fPos }
  if 0 < r.ret then return ({ w with pc := .send (r.ubuf.take r.ret.toNat) 0 }, r.state)
  else return ({ w with pc := .closeDev }, r.state)

/-- One round of the send loop. -/
def Worker.sendRound (w : Worker) (sendBuf : List Byte) (sentTotal : Nat) : Worker :=
  if sentTotal < sendBuf.length then
    match env.sends w.sends with
    | none => { w with sends := w.sends + 1, pc := .read }
    | some left =>
      let sent := sendCount left (sendBuf.length - sentTotal)
      { w with
        sends := w.sends + 1
        reply := w.reply ++ (sendBuf.drop sentTotal).take sent
        pc := .send sendBuf (sentTotal + sent) }
  else { w with pc := .read }

/-- One step of `threadfunc`. -/
def Worker.step (me : ι) (w : Worker) (s : Shared ι σ) :
    Except Fault (Action × Worker × Shared ι σ) :=
  match w.pc with
  | .recv => do
    let (fullBuf, totalLen) ← receive build.copy env.recv
    return (.internal, { w with pc := .lock, fullBuf := fullBuf, totalLen := totalLen }, s)
  | .lock =>
    if s.mutex = none then return (.acquire, { w with pc := .openDev }, { s with mutex := some me })
    else return (.wait, w, s)
  | .openDev =>
    if env.openOk then return (.internal, { w with pc := .request, fPos := 0 }, s)
    else return (.internal, { w with pc := .abort }, s)
  | .request => do
    let (w, dev) ← w.request ops env s.dev
    return (.internal, w, { s with dev := dev })
  | .write writtenTotal => do
    let (action, w, dev) ← w.writeRound ops env writtenTotal s.dev
    return (action, w, { s with dev := dev })
  | .rewind => do
    let (w, dev) ← w.rewind build ops env s.dev
    return (.internal, w, { s with dev := dev })
  | .read => do
    let (w, dev) ← w.readRound ops env s.dev
    return (.internal, w, { s with dev := dev })
  | .send sendBuf sentTotal => return (.internal, w.sendRound env sendBuf sentTotal, s)
  | .closeDev => return (.internal, { w with pc := .unlock }, s)
  | .unlock => do
    let s ← s.release me
    return (.internal, { w with pc := .closeSocket }, s)
  | .closeSocket =>
    return (.internal, { w with pc := .lockDone, socketCloses := w.socketCloses + 1 }, s)
  | .lockDone =>
    if s.mutex = none then
      return (.internal, { w with pc := .complete }, { s with mutex := some me })
    else return (.wait, w, s)
  | .complete => return (.internal, { w with pc := .unlockDone, bThreadCompleted := true }, s)
  | .unlockDone => do
    let s ← s.release me
    return (.internal, { w with pc := .done }, s)
  | .abort => do
    let s ← s.release me
    return (.internal, { w with pc := .abortClose }, s)
  | .abortClose => return (.internal, { w with pc := .done, socketCloses := w.socketCloses + 1 }, s)
  | .done => return (.wait, w, s)

/-! ## The steps, one by one -/

namespace Worker

variable {build ops env} {me : ι} {w w' : Worker} {s s' : Shared ι σ} {dev : σ} {action : Action}

theorem step_recv (h : w.pc = .recv) {fullBuf : List Byte} {totalLen : Nat}
    (hr : receive build.copy env.recv = .ok (fullBuf, totalLen)) :
    w.step build ops env me s =
      .ok (.internal, { w with pc := .lock, fullBuf := fullBuf, totalLen := totalLen }, s) := by
  simp only [step, h, hr]
  rfl

theorem step_lock_free (h : w.pc = .lock) (hm : s.mutex = none) :
    w.step build ops env me s =
      .ok (.acquire, { w with pc := .openDev }, { s with mutex := some me }) := by
  simp only [step, h, hm]
  rfl

theorem step_lock_taken (h : w.pc = .lock) (hm : s.mutex ≠ none) :
    w.step build ops env me s = .ok (.wait, w, s) := by
  simp only [step, h, hm, if_false]
  rfl

theorem step_openDev (h : w.pc = .openDev) (ho : env.openOk = true) :
    w.step build ops env me s = .ok (.internal, { w with pc := .request, fPos := 0 }, s) := by
  simp only [step, h, ho]
  rfl

theorem step_openDev_fail (h : w.pc = .openDev) (ho : env.openOk = false) :
    w.step build ops env me s = .ok (.internal, { w with pc := .abort }, s) := by
  simp only [step, h, ho]
  rfl

theorem step_request (h : w.pc = .request) (hr : w.request ops env s.dev = .ok (w', dev)) :
    w.step build ops env me s = .ok (.internal, w', { s with dev := dev }) := by
  simp only [step, h, hr]
  rfl

theorem step_write {n : Nat} (h : w.pc = .write n)
    (hr : w.writeRound ops env n s.dev = .ok (action, w', dev)) :
    w.step build ops env me s = .ok (action, w', { s with dev := dev }) := by
  simp only [step, h, hr]
  rfl

theorem step_rewind (h : w.pc = .rewind) (hr : w.rewind build ops env s.dev = .ok (w', dev)) :
    w.step build ops env me s = .ok (.internal, w', { s with dev := dev }) := by
  simp only [step, h, hr]
  rfl

theorem step_read (h : w.pc = .read) (hr : w.readRound ops env s.dev = .ok (w', dev)) :
    w.step build ops env me s = .ok (.internal, w', { s with dev := dev }) := by
  simp only [step, h, hr]
  rfl

theorem step_send {buf : List Byte} {n : Nat} (h : w.pc = .send buf n) :
    w.step build ops env me s = .ok (.internal, w.sendRound env buf n, s) := by
  simp only [step, h]
  rfl

theorem step_closeDev (h : w.pc = .closeDev) :
    w.step build ops env me s = .ok (.internal, { w with pc := .unlock }, s) := by
  simp only [step, h]
  rfl

theorem step_unlock (h : w.pc = .unlock) (hm : s.mutex = some me) :
    w.step build ops env me s =
      .ok (.internal, { w with pc := .closeSocket }, { s with mutex := none }) := by
  simp only [step, h, Shared.release, hm]
  rfl

theorem step_closeSocket (h : w.pc = .closeSocket) :
    w.step build ops env me s =
      .ok (.internal, { w with pc := .lockDone, socketCloses := w.socketCloses + 1 }, s) := by
  simp only [step, h]
  rfl

theorem step_lockDone_free (h : w.pc = .lockDone) (hm : s.mutex = none) :
    w.step build ops env me s =
      .ok (.internal, { w with pc := .complete }, { s with mutex := some me }) := by
  simp only [step, h, hm]
  rfl

theorem step_lockDone_taken (h : w.pc = .lockDone) (hm : s.mutex ≠ none) :
    w.step build ops env me s = .ok (.wait, w, s) := by
  simp only [step, h, hm, if_false]
  rfl

theorem step_complete (h : w.pc = .complete) :
    w.step build ops env me s =
      .ok (.internal, { w with pc := .unlockDone, bThreadCompleted := true }, s) := by
  simp only [step, h]
  rfl

theorem step_unlockDone (h : w.pc = .unlockDone) (hm : s.mutex = some me) :
    w.step build ops env me s =
      .ok (.internal, { w with pc := .done }, { s with mutex := none }) := by
  simp only [step, h, Shared.release, hm]
  rfl

theorem step_abort (h : w.pc = .abort) (hm : s.mutex = some me) :
    w.step build ops env me s =
      .ok (.internal, { w with pc := .abortClose }, { s with mutex := none }) := by
  simp only [step, h, Shared.release, hm]
  rfl

theorem step_abortClose (h : w.pc = .abortClose) :
    w.step build ops env me s =
      .ok (.internal, { w with pc := .done, socketCloses := w.socketCloses + 1 }, s) := by
  simp only [step, h]
  rfl

theorem step_done (h : w.pc = .done) : w.step build ops env me s = .ok (.wait, w, s) := by
  simp only [step, h]
  rfl

/-- A step has one result. -/
theorem step_unique {action' : Action} {w'' : Worker} {s'' : Shared ι σ}
    (h : w.step build ops env me s = .ok (action, w', s'))
    (h' : w.step build ops env me s = .ok (action', w'', s'')) :
    action = action' ∧ w' = w'' ∧ s' = s'' := by
  rw [h, Except.ok.injEq, Prod.mk.injEq, Prod.mk.injEq] at h'
  exact h'

/-! ## Behind the write loop -/

/-- A step from behind the write loop stays there, and does not write. -/
theorem late_step (h : w.pc.late = true)
    (hstep : w.step build ops env me s = .ok (action, w', s')) :
    w'.pc.late = true ∧ (action = .wait ∨ action = .internal) := by
  cases hpc : w.pc with
  | recv | lock | openDev | request | write | rewind =>
    rw [hpc] at h
    cases h
  | read =>
    simp only [step, hpc] at hstep
    obtain ⟨⟨w'', dev⟩, hread, hstep⟩ := bind_eq_ok hstep
    cases hstep
    obtain ⟨r, -, hread⟩ := bind_eq_ok hread
    by_cases hret : 0 < r.ret
    · rw [if_pos hret] at hread
      cases hread
      exact ⟨rfl, Or.inr rfl⟩
    · rw [if_neg hret] at hread
      cases hread
      exact ⟨rfl, Or.inr rfl⟩
  | send buf n =>
    rw [step_send hpc] at hstep
    cases hstep
    refine ⟨?_, Or.inr rfl⟩
    unfold sendRound
    split
    · split
      · rfl
      · rfl
    · rfl
  | unlock | unlockDone | abort =>
    simp only [step, hpc, Shared.release] at hstep
    split at hstep
    · cases hstep
      exact ⟨rfl, Or.inr rfl⟩
    · cases hstep
  | lockDone =>
    simp only [step, hpc] at hstep
    split at hstep
    · cases hstep
      exact ⟨rfl, Or.inr rfl⟩
    · cases hstep
      exact ⟨h, Or.inl rfl⟩
  | closeDev | closeSocket | complete | abortClose =>
    simp only [step, hpc] at hstep
    cases hstep
    exact ⟨rfl, Or.inr rfl⟩
  | done =>
    rw [step_done hpc] at hstep
    cases hstep
    exact ⟨h, Or.inl rfl⟩

/-- A step from behind the write loop depends neither on the build nor on the
memory behind the buffer. -/
theorem step_late (h : w.pc.late = true) (build' : Build) (behind : List Byte) :
    w.step build ops env me s = w.step build' ops { env with behind := behind } me s := by
  cases hpc : w.pc with
  | recv | lock | openDev | request | write | rewind =>
    rw [hpc] at h
    cases h
  | _ => simp only [step, hpc, readRound, sendRound]

end Worker

end Step

/-! ## Any number of workers -/

/-- The workers and what they share. -/
structure System (ι σ : Type) where
  shared : Shared ι σ
  workers : ι → Worker

section System

variable {ι σ : Type} [DecidableEq ι] (build : Build) (ops : FileOps σ) (env : ι → WorkerEnv)

/-- All workers were just created, and the mutex is free. -/
def System.start (dev : σ) : System ι σ := ⟨⟨dev, none⟩, fun _ => .start⟩

/-- One step of worker `i`. -/
def System.step (s : System ι σ) (i : ι) : Except Fault (Action × System ι σ) := do
  let (action, w, shared) ← (s.workers i).step build ops (env i) i s.shared
  return (action, ⟨shared, Function.update s.workers i w⟩)

/-- A run: `schedule` says which worker takes the next step. -/
def System.run : System ι σ → (schedule : List ι) → Except Fault (List (ι × Action) × System ι σ)
  | s, [] => .ok ([], s)
  | s, i :: schedule => do
    let (action, s) ← s.step build ops env i
    let (actions, s) ← s.run schedule
    return ((i, action) :: actions, s)

end System

end AesdChar
