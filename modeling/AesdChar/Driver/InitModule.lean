import AesdChar.CircularBuffer.Steps
import AesdChar.Driver.Ownership

/-!
# `aesd_init_module` among the calls of users

`aesd_init_module` publishes the device with `cdev_add` before it has
initialised the lock and the circular buffer.  From then on the calls of users
fall between its last steps, and it takes no lock, so they do so at any point
of a call.

`Startup.step` interleaves both sides.  On the one side are the steps of
`aesd_init_module`; its last `memset` clears the buffer field by field, in any
order.  On the other side is the call that holds the lock.  A write that ends a
command goes through the statements of `aesd_circular_buffer_add_entry` one by
one.  What else a call does under the lock is one step, because it does not
store in the buffer.  Taking a lock that is not initialised is a fault.

`Startup.run_init` says that the steps of the one side are `aesdInitModule`, and
`Startup.run_entered` that those of the other side are the call of the driver
model.
-/

namespace AesdChar

open CodeLib CodeLib.CInt CodeLib.Ring

/-! ## A write up to the buffer -/

/-- `aesd_write` up to the end of a command: the error, or whether a newline
was found in the data that were appended. -/
def writeAppend (kmalloc : Kmalloc) (env : WriteEnv) (buf : List Byte) (k : KState) :
    Except Fault (Except Int Bool × KState) := do
  let count := buf.length
  let (kbuf, heap) := k.heap.alloc kmalloc.maxSize env.kbufOk count
  if kbuf = .null then
    return (.error (-ENOMEM), { k with heap := heap })
  else if min env.uncopied count ≠ 0 then
    let heap ← heap.free kbuf
    return (.error (-EFAULT), { k with heap := heap })
  else
    let heap ← heap.store kbuf 0 buf
    let kdata ← heap.load kbuf 0 count
    let foundNewline := scanNewline kdata
    let (newbuf, heap) := heap.alloc kmalloc.maxSize env.newbufOk
      (sizeT ((k.dev.sizePartial : Int) + count))
    if newbuf = .null then
      let heap ← heap.free kbuf
      return (.error (-ENOMEM), { k with heap := heap })
    else
      let k ← append newbuf kbuf count { k with heap := heap }
      return (.ok foundNewline, k)

/-- Behind `aesd_circular_buffer_add_entry`: the old entry is freed and the
accumulator starts afresh. -/
def resetPartial (oldBuff : Ptr) (k : KState) : Except Fault KState := do
  let heap ← freeIfSet k.heap oldBuff
  return ⟨heap, { k.dev with bufferPartial := .null, sizePartial := 0 }⟩

/-- The rest of a command whose entry is on its way into the buffer. -/
def finalizeRest (e : AesdBufferEntry) (pc : AddEntryPc) (k : KState) : Except Fault KState :=
  let (oldBuff, buffer) := AesdCircularBuffer.addEntryRest e pc k.dev.buffer
  resetPartial oldBuff { k with dev := { k.dev with buffer := buffer } }

/-- The end of a command begins with the first step of
`aesd_circular_buffer_add_entry`. -/
theorem finalizeRest_loadOldest (k : KState) :
    finalizeRest ⟨k.dev.bufferPartial, k.dev.sizePartial⟩ .loadOldest k = finalize k := by
  unfold finalizeRest
  rw [AesdCircularBuffer.addEntryRest_loadOldest]
  rfl

/-- The body of `aesd_write` is the appending part and the end of a command. -/
theorem writeBody_eq (kmalloc : Kmalloc) (env : WriteEnv) (buf : List Byte) (fPos : Int)
    (k : KState) :
    writeBody kmalloc env buf fPos k = (do
      let (found, k) ← writeAppend kmalloc env buf k
      match found with
      | .error ret => return ⟨ret, fPos, k⟩
      | .ok foundNewline =>
        let k ← (if foundNewline then finalize k else .ok k)
        return ⟨signed64 buf.length, signed64 (fPos + buf.length), k⟩) := by
  unfold writeBody writeAppend
  dsimp only
  by_cases hkbuf : (k.heap.alloc kmalloc.maxSize env.kbufOk buf.length).1 = .null
  · rw [if_pos hkbuf, if_pos hkbuf]
    rfl
  rw [if_neg hkbuf, if_neg hkbuf]
  by_cases hcopy : min env.uncopied buf.length ≠ 0
  · rw [if_pos hcopy, if_pos hcopy, bind_assoc]
    rfl
  rw [if_neg hcopy, if_neg hcopy]
  simp only [bind_assoc]
  refine bind_congr fun heap => bind_congr fun kdata => ?_
  by_cases hnewbuf : (heap.alloc kmalloc.maxSize env.newbufOk
      (sizeT ((k.dev.sizePartial : Int) + buf.length))).1 = .null
  · rw [if_pos hnewbuf, if_pos hnewbuf, bind_assoc]
    rfl
  rw [if_neg hnewbuf, if_neg hnewbuf, bind_assoc]
  exact bind_congr fun k => rfl

/-! ## The steps -/

/-- Where `aesd_init_module` stands.  `mutexIniting` is inside of
`mutex_init`, and `circularBufferInit` lists the fields that the `memset` of
`aesd_circular_buffer_init` has not reached. -/
inductive InitPc
  | memset
  | setupCdev
  | mutexInit
  | mutexIniting
  | circularBufferInit (left : List BufferField)
  | returned
deriving DecidableEq, Repr

/-- Whether `mutex_init` has returned. -/
def InitPc.lockReady : InitPc → Bool
  | .memset | .setupCdev | .mutexInit | .mutexIniting => false
  | .circularBufferInit _ | .returned => true

/-- Whether a call gets as far as `mutex_lock`.  `aesd_open` does not, and
neither does `aesd_unlocked_ioctl` before it knows and has copied the
request. -/
def Call.takesLock : Call → Bool
  | .openFile _ => false
  | .ioctl _ uncopied cmd _ => cmd = AESDCHAR_IOCSEEKTO && uncopied = 0
  | .read .. | .write .. | .llseek .. => true

/-- The call that holds the lock.  It has just taken it, or it is a write with
the entry `e` on its way into the buffer. -/
inductive Flight
  | entered (call : Call)
  | adding (file : Nat) (buf : List Byte) (env : WriteEnv) (e : AesdBufferEntry) (pc : AddEntryPc)

/-- The module while it starts.  `published` says that `cdev_add` succeeded,
and `inFlight` is the call that holds the lock. -/
structure Startup where
  pc : InitPc
  published : Bool
  driver : Driver
  inFlight : Option Flight

/-- The zero bytes of a static `aesd_device`. -/
def KState.static : KState := ⟨⟨[]⟩, ⟨.init, .zeroed, .null, 0⟩⟩

/-- The module before `aesd_init_module`. -/
def Startup.start : Startup := ⟨.memset, false, ⟨.static, fun _ => 0⟩, none⟩

/-- Set the lock. -/
def Driver.withLock (s : Driver) (m : Mutex) : Driver :=
  { s with k := { s.k with dev := { s.k.dev with lock := m } } }

/-- Set the buffer. -/
def Driver.withBuffer (s : Driver) (buffer : AesdCircularBuffer) : Driver :=
  { s with k := { s.k with dev := { s.k.dev with buffer := buffer } } }

/-- What comes next: a step of `aesd_init_module`, a store of its last
`memset`, a call of a user up to the lock, or a step of the call that holds the
lock. -/
inductive StartupAct
  | init (cdevAddOk : Bool)
  | clear (field : BufferField)
  | enter (call : Call)
  | goOn

/-- One step of `aesd_init_module`.  It goes on when `cdev_add` has failed. -/
def Startup.initStep (s : Startup) (cdevAddOk : Bool) : Startup :=
  match s.pc with
  | .memset => { s with pc := .setupCdev, driver := { s.driver with k := s.driver.k.memsetDevice } }
  | .setupCdev => { s with pc := .mutexInit, published := cdevAddOk }
  | .mutexInit => { s with pc := .mutexIniting }
  | .mutexIniting =>
    { s with
      pc := .circularBufferInit AesdCircularBuffer.fields
      driver := { s.driver with k := s.driver.k.mutexInit } }
  | .circularBufferInit [] => { s with pc := .returned }
  | .circularBufferInit (_ :: _) => s
  | .returned => s

/-- One store of `aesd_circular_buffer_init`. -/
def Startup.clearStep (s : Startup) (field : BufferField) : Startup :=
  match s.pc with
  | .circularBufferInit left =>
    if field ∈ left then
      { s with
        pc := .circularBufferInit (left.erase field)
        driver := s.driver.withBuffer (s.driver.k.dev.buffer.clear field) }
    else s
  | _ => s

/-- The end of a write: it gives the lock back and returns. -/
def Driver.returnWrite (s : Driver) (file : Nat) (buf : List Byte) (env : WriteEnv)
    (ret fPos : Int) (k : KState) : Except Fault (Event × Driver) := do
  let dev ← k.dev.mutexUnlock
  let r : CallResult KState := ⟨ret, fPos, { k with dev := dev }⟩
  return (⟨.write file buf env, ret, []⟩, s.after file (r.filePos (s.filePos file)) r.state)

/-- The call that holds the lock has ended. -/
def Startup.ended (s : Startup) (r : Event × Driver) : Option Event × Startup :=
  (some r.1, { s with driver := r.2, inFlight := none })

/-- A write that has the lock does all that comes before the buffer. -/
def Startup.writeStep (kmalloc : Kmalloc) (s : Startup) (file : Nat) (buf : List Byte)
    (env : WriteEnv) : Except Fault (Option Event × Startup) := do
  let (found, k) ← writeAppend kmalloc env buf s.driver.k
  let fPos := s.driver.filePos file
  match found with
  | .error ret => s.ended <$> s.driver.returnWrite file buf env ret fPos k
  | .ok false =>
    s.ended <$> s.driver.returnWrite file buf env (signed64 buf.length)
      (signed64 (fPos + buf.length)) k
  | .ok true =>
    let entry : AesdBufferEntry := ⟨k.dev.bufferPartial, k.dev.sizePartial⟩
    return (none, { s with
      driver := { s.driver with k := k }
      inFlight := some (.adding file buf env entry .loadOldest) })

/-- A write goes on with `aesd_circular_buffer_add_entry` or behind it. -/
def Startup.addStep (s : Startup) (file : Nat) (buf : List Byte) (env : WriteEnv)
    (e : AesdBufferEntry) (pc : AddEntryPc) : Except Fault (Option Event × Startup) :=
  match pc with
  | .returned oldBuff => do
    let k ← resetPartial oldBuff s.driver.k
    s.ended <$> s.driver.returnWrite file buf env (signed64 buf.length)
      (signed64 (s.driver.filePos file + buf.length)) k
  | pc =>
    let (pc, buffer) := AesdCircularBuffer.addEntryStep e (pc, s.driver.k.dev.buffer)
    .ok (none, { s with
      driver := s.driver.withBuffer buffer, inFlight := some (.adding file buf env e pc) })

/-- One step, with the call that ends in it.  A call on a device that is not
published finds nothing to open, and one that finds the lock taken waits. -/
def Startup.step (kmalloc : Kmalloc) (s : Startup) (act : StartupAct) :
    Except Fault (Option Event × Startup) :=
  match act with
  | .init cdevAddOk => .ok (none, s.initStep cdevAddOk)
  | .clear field => .ok (none, s.clearStep field)
  | .enter call =>
    if s.published = false then .ok (none, s)
    else if call.takesLock = false then do
      let (e, driver) ← s.driver.step kmalloc call
      return (some e, { s with driver := driver })
    else
      match s.driver.k.dev.lock with
      | .zeroed => .error .lock
      | .locked => .ok (none, s)
      | .unlocked =>
        .ok (none, { s with
          driver := s.driver.withLock .locked, inFlight := some (.entered call) })
  | .goOn =>
    match s.inFlight with
    | none => .ok (none, s)
    | some (.entered (.write file buf env)) => s.writeStep kmalloc file buf env
    | some (.entered call) =>
      -- No other call stores in the buffer: it goes on from where it took the lock.
      s.ended <$> (s.driver.withLock .unlocked).step kmalloc call
    | some (.adding file buf env e pc) => s.addStep file buf env e pc

/-- A run of steps, with the calls that ended in it. -/
def Startup.run (kmalloc : Kmalloc) :
    Startup → List StartupAct → Except Fault (List Event × Startup)
  | s, [] => .ok ([], s)
  | s, act :: acts => do
    let (e, s) ← s.step kmalloc act
    let (events, s) ← s.run kmalloc acts
    return (e.toList ++ events, s)

/-- A run in two parts. -/
theorem Startup.run_append (kmalloc : Kmalloc) (s : Startup) (acts acts' : List StartupAct) :
    s.run kmalloc (acts ++ acts') = (do
      let (events, s) ← s.run kmalloc acts
      let (events', s) ← s.run kmalloc acts'
      return (events ++ events', s)) := by
  induction acts generalizing s with
  | nil =>
    rw [List.nil_append, Startup.run, ok_bind]
    exact (bind_pure _).symm
  | cons act acts ih =>
    rw [List.cons_append, Startup.run, Startup.run, bind_assoc]
    refine bind_congr fun r => ?_
    obtain ⟨e, s⟩ := r
    dsimp only
    rw [ih, bind_assoc, bind_assoc]
    refine bind_congr fun r => ?_
    obtain ⟨events, s⟩ := r
    simp only [bind_assoc, pure_bind, List.append_assoc]

/-- The stores of the last `memset`, in a row. -/
theorem Startup.run_clear (kmalloc : Kmalloc) (left : List BufferField) (published : Bool)
    (driver : Driver) (inFlight : Option Flight) :
    (Startup.mk (.circularBufferInit left) published driver inFlight).run kmalloc
        (left.map .clear) =
      .ok ([], ⟨.circularBufferInit [], published,
        driver.withBuffer (left.foldl AesdCircularBuffer.clear driver.k.dev.buffer),
        inFlight⟩) := by
  induction left generalizing driver with
  | nil => rfl
  | cons field left ih =>
    have hstep : (Startup.mk (.circularBufferInit (field :: left)) published driver inFlight).step
        kmalloc (.clear field) = .ok (none, ⟨.circularBufferInit left, published,
          driver.withBuffer (driver.k.dev.buffer.clear field), inFlight⟩) := by
      simp only [Startup.step, Startup.clearStep, List.mem_cons_self, if_true,
        List.erase_cons_head]
    rw [List.map_cons, Startup.run, hstep, ok_bind]
    dsimp only
    rw [ih]
    rfl

/-- Without a user the steps are `aesd_init_module`. -/
theorem Startup.run_init (kmalloc : Kmalloc) (cdevAddOk : Bool) :
    Startup.start.run kmalloc (List.replicate 4 (.init cdevAddOk) ++
        AesdCircularBuffer.fields.map .clear ++ [.init cdevAddOk]) =
      .ok ([], ⟨.returned, cdevAddOk, .loaded, none⟩) := by
  have hfirst : Startup.start.run kmalloc (List.replicate 4 (.init cdevAddOk)) =
      .ok ([], ⟨.circularBufferInit AesdCircularBuffer.fields, cdevAddOk, .loaded, none⟩) := rfl
  rw [Startup.run_append, Startup.run_append, hfirst, ok_bind]
  dsimp only
  rw [Startup.run_clear, AesdCircularBuffer.foldl_clear]
  rfl

section Calls

variable {kmalloc : Kmalloc} {s : Startup} {d : Driver} {k : KState}

/-! ## The calls -/

/-- A call that does not take the lock moves one file at most. -/
theorem Driver.step_of_not_takesLock (kmalloc : Kmalloc) {call : Call}
    (hcall : call.takesLock = false) (hpos : ∀ file, IsSigned64 (d.filePos file)) :
    ∃ e d', d.step kmalloc call = .ok (e, d') ∧ e.payload? = none ∧ d'.k = d.k ∧
      ∀ file, IsSigned64 (d'.filePos file) := by
  cases call with
  | openFile file =>
    exact ⟨_, _, rfl, rfl, rfl, Driver.isSigned64_after hpos file isSigned64_zero⟩
  | read | write | llseek => cases hcall
  | ioctl file uncopied cmd seekto =>
    obtain ⟨ret, hioctl⟩ : ∃ ret, aesdUnlockedIoctl uncopied cmd seekto (d.filePos file) d.k =
        .ok ⟨ret, d.filePos file, d.k⟩ := by
      have hrefused : ¬ (cmd = AESDCHAR_IOCSEEKTO ∧ uncopied = 0) := by
        simpa [Call.takesLock] using hcall
      unfold aesdUnlockedIoctl
      split_ifs
      · exact ⟨_, rfl⟩
      · exact ⟨_, rfl⟩
      · exact ⟨_, rfl⟩
      · exact ⟨_, rfl⟩
      · rename_i hcmd huncopied
        exact absurd ⟨not_not.mp hcmd, not_not.mp huncopied⟩ hrefused
    refine ⟨⟨.ioctl file uncopied cmd seekto, ret, []⟩, d, ?_, rfl, rfl, hpos⟩
    simp only [Driver.step, hioctl, ok_bind, pure_eq_ok, Driver.after, Function.update_eq_self]

/-- Lifting the lock and taking it again. -/
theorem Driver.mutexLock_withLock (hlock : d.k.dev.lock = .locked) :
    (d.withLock .unlocked).k.dev.mutexLock = .ok d.k.dev := by
  rw [mutexLock_of_unlocked rfl]
  unfold Driver.withLock
  rw [← hlock]

/-- A write that has the lock does its appending part, the end of the command
and its return. -/
theorem Driver.step_write (hlock : d.k.dev.lock = .locked) (file : Nat) (buf : List Byte)
    (env : WriteEnv) :
    (d.withLock .unlocked).step kmalloc (.write file buf env) = (do
      let (found, k) ← writeAppend kmalloc env buf d.k
      match found with
      | .error ret => d.returnWrite file buf env ret (d.filePos file) k
      | .ok foundNewline =>
        let k ← (if foundNewline then finalize k else .ok k)
        d.returnWrite file buf env (signed64 buf.length)
          (signed64 (d.filePos file + buf.length)) k) := by
  have hk : { (d.withLock .unlocked).k with dev := d.k.dev } = d.k := rfl
  have hfile : (d.withLock .unlocked).filePos file = d.filePos file := rfl
  simp only [Driver.step, aesdWrite, hfile]
  rw [d.mutexLock_withLock hlock, ok_bind, hk, writeBody_eq, bind_assoc, bind_assoc]
  refine bind_congr fun r => ?_
  obtain ⟨found, k⟩ := r
  -- The way back is the same for an error and for a success.
  have hback : ∀ ret fPos k, (do
      let r ← (do
        let dev ← KState.dev k |>.mutexUnlock
        return (⟨ret, fPos, { k with dev := dev }⟩ : CallResult KState))
      return ((⟨.write file buf env, r.ret, []⟩ : Event),
        (d.withLock .unlocked).after file (r.filePos (d.filePos file)) r.state)) =
      d.returnWrite file buf env ret fPos k := by
    intro ret fPos k
    rw [bind_assoc]
    rfl
  cases found with
  | error ret => exact hback ret (d.filePos file) k
  | ok foundNewline =>
    dsimp only
    rw [bind_assoc]
    refine bind_congr fun k => ?_
    rw [pure_bind]
    generalize signed64 buf.length = ret
    generalize signed64 (d.filePos file + buf.length) = fPos
    exact hback ret fPos k

/-- A write that has the lock returns, or it arrives at the buffer and the rest
is the end of its command. -/
theorem Startup.writeStep_cases (hlock : s.driver.k.dev.lock = .locked) {file : Nat}
    {buf : List Byte} {env : WriteEnv} {r : Event × Driver}
    (hstep : (s.driver.withLock .unlocked).step kmalloc (.write file buf env) = .ok r) :
    s.writeStep kmalloc file buf env = .ok (s.ended r) ∨
      ∃ k entry k', s.writeStep kmalloc file buf env =
          .ok (none, { s with
            driver := { s.driver with k := k }
            inFlight := some (.adding file buf env entry .loadOldest) }) ∧
        finalizeRest entry .loadOldest k = .ok k' ∧
        s.driver.returnWrite file buf env (signed64 buf.length)
          (signed64 (s.driver.filePos file + buf.length)) k' = .ok r := by
  rw [Driver.step_write hlock] at hstep
  obtain ⟨⟨found, k⟩, happend, hrest⟩ := bind_eq_ok hstep
  unfold Startup.writeStep
  rw [happend, ok_bind]
  match found with
  | .error ret =>
    refine Or.inl ?_
    dsimp only at hrest ⊢
    rw [hrest]
    rfl
  | .ok false =>
    refine Or.inl ?_
    dsimp only at hrest ⊢
    rw [if_neg Bool.false_ne_true, ok_bind] at hrest
    rw [hrest]
    rfl
  | .ok true =>
    dsimp only at hrest
    rw [if_pos rfl] at hrest
    obtain ⟨k', hfin, hreturn⟩ := bind_eq_ok hrest
    exact Or.inr ⟨k, _, k', rfl, (finalizeRest_loadOldest k).trans hfin, hreturn⟩

/-- A step of `aesd_circular_buffer_add_entry` leaves the rest of the command
as it is. -/
theorem Startup.addStep_buffer (s : Startup) (file : Nat) (buf : List Byte) (env : WriteEnv)
    (e : AesdBufferEntry) {pc : AddEntryPc} (hpc : pc.left ≠ 0) :
    ∃ pc' buffer, s.addStep file buf env e pc =
        .ok (none, { s with
          driver := s.driver.withBuffer buffer
          inFlight := some (.adding file buf env e pc') }) ∧
      pc'.left < pc.left ∧
      finalizeRest e pc' (s.driver.withBuffer buffer).k = finalizeRest e pc s.driver.k := by
  have hrest := AesdCircularBuffer.addEntryRest_step e s.driver.k.dev.buffer hpc
  have hleft := AesdCircularBuffer.addEntryStep_left e s.driver.k.dev.buffer hpc
  refine ⟨_, (AesdCircularBuffer.addEntryStep e (pc, s.driver.k.dev.buffer)).2, ?_, hleft, ?_⟩
  · cases pc with
    | returned => exact absurd rfl hpc
    | _ => rfl
  · unfold finalizeRest
    rw [← hrest]
    rfl

/-- Behind `aesd_circular_buffer_add_entry` the write returns. -/
theorem Startup.addStep_returned {file : Nat} {buf : List Byte} {env : WriteEnv}
    {e : AesdBufferEntry} {pc : AddEntryPc} {k' : KState} {r : Event × Driver}
    (hpc : pc.left = 0) (hrest : finalizeRest e pc s.driver.k = .ok k')
    (hreturn : s.driver.returnWrite file buf env (signed64 buf.length)
      (signed64 (s.driver.filePos file + buf.length)) k' = .ok r) :
    s.addStep file buf env e pc = .ok (s.ended r) := by
  cases pc with
  | returned retval =>
    have hreset : resetPartial retval s.driver.k = .ok k' := hrest
    unfold Startup.addStep
    dsimp only
    rw [hreset, ok_bind, hreturn]
    rfl
  | _ => cases hpc

/-- The rest of a command neither takes nor gives back the lock. -/
theorem finalizeRest_lock {e : AesdBufferEntry} {pc : AddEntryPc} {k' : KState}
    (h : finalizeRest e pc k = .ok k') : k'.dev.lock = k.dev.lock := by
  obtain ⟨heap, -, hk⟩ := bind_eq_ok h
  cases hk
  rfl

/-- The way back of a write that has the lock. -/
theorem Driver.returnWrite_of_locked (d : Driver) (hlock : k.dev.lock = .locked) (file : Nat)
    (buf : List Byte) (env : WriteEnv) (ret fPos : Int) :
    d.returnWrite file buf env ret fPos k =
      .ok (⟨.write file buf env, ret, []⟩,
        d.after file (if 0 ≤ ret then fPos else d.filePos file)
          { k with dev := { k.dev with lock := .unlocked } }) := by
  unfold Driver.returnWrite
  rw [mutexUnlock_of_locked hlock, ok_bind]
  rfl

/-- A write that came back had the lock. -/
theorem Driver.returnWrite_eq_ok {file : Nat} {buf : List Byte} {env : WriteEnv} {ret fPos : Int}
    {r : Event × Driver} (h : d.returnWrite file buf env ret fPos k = .ok r) :
    k.dev.lock = .locked ∧ r.1 = ⟨.write file buf env, ret, []⟩ ∧
      r.2.k = { k with dev := { k.dev with lock := .unlocked } } := by
  obtain ⟨dev, hunlock, hr⟩ := bind_eq_ok h
  unfold AesdDev.mutexUnlock at hunlock
  split_ifs at hunlock with hlock
  cases hunlock
  cases hr
  exact ⟨hlock, rfl, rfl⟩

/-- A step of the call that holds the lock, and the steps behind it. -/
theorem Startup.run_goOn {e : Option Event} {s₁ s₂ : Startup} {n : Nat} {events : List Event}
    (hstep : s.step kmalloc .goOn = .ok (e, s₁))
    (hrun : s₁.run kmalloc (List.replicate n .goOn) = .ok (events, s₂)) :
    s.run kmalloc (List.replicate (n + 1) .goOn) = .ok (e.toList ++ events, s₂) := by
  rw [List.replicate_succ, Startup.run, hstep, ok_bind]
  simp only [hrun, ok_bind, pure_eq_ok]

/-- Left alone, a write whose entry is on its way into the buffer returns. -/
theorem Startup.run_adding {file : Nat} {buf : List Byte} {env : WriteEnv} {e : AesdBufferEntry}
    {pc : AddEntryPc} {k' : KState} {r : Event × Driver}
    (hflight : s.inFlight = some (.adding file buf env e pc))
    (hrest : finalizeRest e pc s.driver.k = .ok k')
    (hreturn : s.driver.returnWrite file buf env (signed64 buf.length)
      (signed64 (s.driver.filePos file + buf.length)) k' = .ok r) :
    ∃ n, s.run kmalloc (List.replicate n .goOn) =
      .ok ([r.1], { s with driver := r.2, inFlight := none }) := by
  induction hleft : pc.left using Nat.strong_induction_on generalizing s pc with
  | _ left ih =>
    have hstep : s.step kmalloc .goOn = s.addStep file buf env e pc := by
      simp only [Startup.step, hflight]
    by_cases hpc : pc.left = 0
    · exact ⟨1, Startup.run_goOn (hstep.trans (Startup.addStep_returned hpc hrest hreturn)) rfl⟩
    · obtain ⟨pc', buffer, hadd, hlt, hsame⟩ := s.addStep_buffer file buf env e hpc
      obtain ⟨n, hrun⟩ := ih pc'.left (hleft ▸ hlt)
        (s := { s with
          driver := s.driver.withBuffer buffer, inFlight := some (.adding file buf env e pc') })
        rfl (hsame.trans hrest) hreturn rfl
      exact ⟨n + 1, Startup.run_goOn (hstep.trans hadd) hrun⟩

/-- Left alone, the steps of a call that has the lock are the call. -/
theorem Startup.run_entered {call : Call} {r : Event × Driver}
    (hflight : s.inFlight = some (.entered call)) (hlock : s.driver.k.dev.lock = .locked)
    (hstep : (s.driver.withLock .unlocked).step kmalloc call = .ok r) :
    ∃ n, s.run kmalloc (List.replicate n .goOn) =
      .ok ([r.1], { s with driver := r.2, inFlight := none }) := by
  cases call with
  | write file buf env =>
    have hgo : s.step kmalloc .goOn = s.writeStep kmalloc file buf env := by
      simp only [Startup.step, hflight]
    rcases Startup.writeStep_cases hlock hstep with hwrite | ⟨k, entry, k', hwrite, hrest, hreturn⟩
    · exact ⟨1, Startup.run_goOn (hgo.trans hwrite) rfl⟩
    · obtain ⟨n, hrun⟩ := Startup.run_adding (s := { s with
        driver := { s.driver with k := k }
        inFlight := some (.adding file buf env entry .loadOldest) }) rfl hrest hreturn
      exact ⟨n + 1, Startup.run_goOn (hgo.trans hwrite) hrun⟩
  | _ =>
    have hgo : s.step kmalloc .goOn = .ok (s.ended r) := by
      simp only [Startup.step, hflight, hstep]
      rfl
    exact ⟨1, Startup.run_goOn hgo rfl⟩

end Calls

end AesdChar
