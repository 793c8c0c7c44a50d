import AesdChar.CodeLib.SList
import AesdChar.Server.FileBackend

/-!
# The main loop

`main` from the first `accept` on: it accepts connections, creates a node and a
worker for each, sweeps the list for workers that are finished, and after a
signal joins all that are left.  The workers run `threadfunc` next to it, and
the build without `USE_AESD_CHAR_DEVICE` has the timer thread.

A step of `main` ends at the next system call or the next access to a node, so
the workers run in between.  Sockets and nodes are numbered as they come into
being: a number is never used again, so a second `close` or `free` shows even
where the system gives the same descriptor or address again.  A worker has the
number of its node.
-/

namespace AesdChar

open CodeLib CodeLib.SList

/-! ## State -/

/-- What `pthread_create` produced. -/
inductive ThreadId
  | worker (node : Nat)
  | timer
deriving DecidableEq, Repr

/-- `struct thread_data`, without its `SLIST_ENTRY`.  `threadId` is `none` until
`pthread_create` stores it. -/
structure ThreadData where
  newFd : Nat
  bThreadCompleted : Bool
  threadId : Option ThreadId
deriving DecidableEq, Repr

/-- The two loops over the list: the one in the accept loop, and the one behind
it. -/
inductive Loop
  | sweep
  | drain
deriving DecidableEq, Repr

/-- Where `main` stands.  `datap` and `tmp` are its two pointers into the
list. -/
inductive MainPc
  | loopHead
  | accept
  | acceptFailed
  | malloc (newFd : Nat)
  | closeFd (newFd : Nat)
  | create (thData : Nat)
  | insert (thData : Nat)
  | startTimer
  | first (loop : Loop)
  | walk (loop : Loop) (datap : Option Nat)
  | test (datap : Nat) (tmp : Option Nat)
  | join (loop : Loop) (datap : Nat) (tmp : Option Nat)
  | remove (loop : Loop) (datap : Nat) (tmp : Option Nat)
  | free (loop : Loop) (datap : Nat) (tmp : Option Nat)
  | joinTimer
  | returned
deriving DecidableEq, Repr

/-- Where the timer thread stands. -/
inductive TimerPc
  | absent
  | sleep
  | lock
  | write
  | unlock
  | done
deriving DecidableEq, Repr

/-- `main` and all threads.  `fds` and `mallocs` count the sockets and the nodes
so far. -/
structure Server (σ : Type) where
  pc : MainPc
  caughtSig : Bool
  head : Option Nat
  nodes : Store Nat ThreadData
  fds : Nat
  mallocs : Nat
  workers : Nat → Option Worker
  bTimerStarted : Bool
  timer : TimerPc
  shared : Shared ThreadId σ

/-- What the server was built from and runs on.  `env` holds the answers of the
system to the worker of each node, and `tick` is what a round of the timer
thread does to the file. -/
structure Setup (σ : Type) where
  build : Build
  ops : FileOps σ
  env : Nat → WorkerEnv
  tick : (fopenOk : Bool) → Tm → σ → σ

/-- What a step does to sockets, nodes and threads. -/
inductive LifeEvent
  | accepted (fd : Nat)
  | closed (fd : Nat)
  | allocated (node : Nat)
  | freed (node : Nat)
  | created (id : ThreadId)
  | createFailed (id : ThreadId)
  | joined (id : Option ThreadId)
  | silent
deriving DecidableEq, Repr

/-- What can go wrong: an access to a node or to the list, or something inside
`threadfunc` or the device. -/
inductive Crash
  | node (f : Fault)
  | worker (f : Fault)
deriving DecidableEq, Repr

/-- What happens next: a step of `main` with the answer to its system call, a
step of a worker or of the timer thread, or a signal. -/
inductive Act
  | main (ok : Bool)
  | worker (node : Nat)
  | timer (fopenOk : Bool) (info : Tm)
  | signal
deriving DecidableEq, Repr

/-! ## The accept loop -/

section Step

variable {σ : Type}

/-- The thread has returned. -/
def Server.finished (s : Server σ) : ThreadId → Bool
  | .worker p => (s.workers p).any fun w => w.pc = .done
  | .timer => s.timer = .done

/-- An access of `main` or of a worker to a node. -/
def Server.node (s : Server σ) (p : Nat) : Except Crash (Cell Nat ThreadData) :=
  (load s.nodes p).mapError .node

/-- What a walk over the list does behind the last node. -/
def Server.leave (setup : Setup σ) : Loop → MainPc
  | .sweep => .loopHead
  | .drain => if setup.build.charDevice then .returned else .joinTimer

/-- One step of `main`.  `ok` is the answer of `accept`, `malloc` or
`pthread_create`. -/
def Server.mainStep (setup : Setup σ) (ok : Bool) (s : Server σ) :
    Except Crash (LifeEvent × Server σ) :=
  match s.pc with
  | .loopHead =>
    if s.caughtSig then return (.silent, { s with pc := .first .drain })
    else return (.silent, { s with pc := .accept })
  | .accept =>
    if ok then return (.accepted s.fds, { s with pc := .malloc s.fds, fds := s.fds + 1 })
    else return (.silent, { s with pc := .acceptFailed })
  | .acceptFailed =>
    if s.caughtSig then return (.silent, { s with pc := .first .drain })
    else return (.silent, { s with pc := .loopHead })
  | .malloc newFd =>
    if ok then
      return (.allocated s.mallocs, { s with
        pc := .create s.mallocs
        mallocs := s.mallocs + 1
        nodes := Function.update s.nodes s.mallocs (some ⟨⟨newFd, false, none⟩, none⟩) })
    else return (.silent, { s with pc := .closeFd newFd })
  | .closeFd newFd => return (.closed newFd, { s with pc := .loopHead })
  | .create thData => do
    let _ ← s.node thData
    if ok then
      return (.created (.worker thData), { s with
        pc := .insert thData
        nodes := modify s.nodes thData fun d => { d with threadId := some (.worker thData) }
        workers := Function.update s.workers thData (some .start) })
    else
      -- The error is logged, and the node is inserted all the same.
      return (.createFailed (.worker thData), { s with pc := .insert thData })
  | .insert thData => do
    let (nodes, head) ← (insertHead s.nodes s.head thData).mapError .node
    return (.silent, { s with
      pc := if setup.build.charDevice then .first .sweep else .startTimer
      nodes := nodes
      head := head })
  | .startTimer =>
    if s.bTimerStarted then return (.silent, { s with pc := .first .sweep })
    else if ok then
      return (.created .timer,
        { s with pc := .first .sweep, timer := .sleep, bTimerStarted := true })
    else return (.createFailed .timer, { s with pc := .first .sweep, bTimerStarted := true })
  | .first loop => return (.silent, { s with pc := .walk loop s.head })
  | .walk loop none => return (.silent, { s with pc := Server.leave setup loop })
  | .walk loop (some datap) => do
    let c ← s.node datap
    return (.silent, { s with
      pc := match loop with
        | .sweep => .test datap c.entries
        | .drain => .join .drain datap c.entries })
  | .test datap tmp => do
    let c ← s.node datap
    if c.value.bThreadCompleted then return (.silent, { s with pc := .join .sweep datap tmp })
    else return (.silent, { s with pc := .walk .sweep tmp })
  | .join loop datap tmp => do
    let c ← s.node datap
    match c.value.threadId with
    | none => return (.joined none, { s with pc := .remove loop datap tmp })
    | some id =>
      if s.finished id then return (.joined (some id), { s with pc := .remove loop datap tmp })
      else return (.silent, s)
  | .remove loop datap tmp => do
    let (nodes, head) ← (SList.remove s.nodes s.head datap s.mallocs).mapError .node
    return (.silent, { s with pc := .free loop datap tmp, nodes := nodes, head := head })
  | .free loop datap tmp => do
    let nodes ← (SList.free s.nodes datap).mapError .node
    return (.freed datap, { s with pc := .walk loop tmp, nodes := nodes })
  | .joinTimer =>
    if s.bTimerStarted then
      match s.timer with
      | .absent => return (.joined none, { s with pc := .returned })
      | .done => return (.joined (some .timer), { s with pc := .returned })
      | _ => return (.silent, s)
    else return (.silent, { s with pc := .returned })
  | .returned => return (.silent, s)

/-! ## The threads -/

/-- Where `threadfunc` closes the socket. -/
def Pc.closes : Pc → Bool
  | .closeSocket | .abortClose => true
  | _ => false

/-- Where `threadfunc` uses its argument. -/
def Pc.usesArg : Pc → Bool
  | .recv | .send _ _ | .complete => true
  | pc => pc.closes

/-- What a worker does with its argument: it closes the socket, or it only reads
or sets a field. -/
def Server.useArg (s : Server σ) (p : Nat) (pc : Pc) : Except Crash LifeEvent :=
  if pc.usesArg then do
    let c ← s.node p
    return if pc.closes then .closed c.value.newFd else .silent
  else return .silent

/-- One step of the worker of node `p`. -/
def Server.workerStep (setup : Setup σ) (p : Nat) (s : Server σ) :
    Except Crash (LifeEvent × Server σ) :=
  match s.workers p with
  | none => return (.silent, s)
  | some w => do
    let event ← s.useArg p w.pc
    let (_, w', shared) ←
      (w.step setup.build setup.ops (setup.env p) (.worker p) s.shared).mapError .worker
    return (event, { s with
      workers := Function.update s.workers p (some w')
      nodes := if w.pc = .complete then
          modify s.nodes p fun d => { d with bThreadCompleted := true }
        else s.nodes
      shared := shared })

/-- One step of the timer thread. -/
def Server.timerStep (setup : Setup σ) (fopenOk : Bool) (info : Tm) (s : Server σ) :
    Except Crash (LifeEvent × Server σ) :=
  match s.timer with
  | .absent => return (.silent, s)
  | .sleep => return (.silent, { s with timer := if s.caughtSig then .done else .lock })
  | .lock =>
    if s.shared.mutex = none then
      return (.silent, { s with timer := .write, shared := { s.shared with mutex := some .timer } })
    else return (.silent, s)
  | .write =>
    return (.silent, { s with
      timer := .unlock
      shared := { s.shared with dev := setup.tick fopenOk info s.shared.dev } })
  | .unlock => do
    let shared ← (s.shared.release .timer).mapError .worker
    return (.silent, { s with timer := .sleep, shared := shared })
  | .done => return (.silent, s)

/-! ## Runs -/

/-- One step. -/
def Server.step (setup : Setup σ) (s : Server σ) : Act → Except Crash (LifeEvent × Server σ)
  | .main ok => s.mainStep setup ok
  | .worker p => s.workerStep setup p
  | .timer fopenOk info => s.timerStep setup fopenOk info
  | .signal => return (.silent, { s with caughtSig := true })

/-- `main` comes to the accept loop. -/
def Server.start (dev : σ) : Server σ where
  pc := .loopHead
  caughtSig := false
  head := none
  nodes _ := none
  fds := 0
  mallocs := 0
  workers _ := none
  bTimerStarted := false
  timer := .absent
  shared := ⟨dev, none⟩

/-- A run, with what happened in it. -/
def Server.run (setup : Setup σ) : Server σ → List Act → Except Crash (List LifeEvent × Server σ)
  | s, [] => .ok ([], s)
  | s, act :: acts => do
    let (event, s) ← s.step setup act
    let (events, s) ← s.run setup acts
    return (event :: events, s)

end Step

end AesdChar
