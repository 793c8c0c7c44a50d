import AesdChar.CircularBuffer.Basic

/-!
# The character device driver

The file operations of `main.c`, its `init` and `cleanup` functions, and runs
of calls.

Every operation on the device takes `dev->lock` for its whole body, so a call
is one step on the state of the kernel.  The lock is part of the state all
the same: taking a lock that is not free and releasing one that is not held
are faults, so a function that forgets to release the lock faults in the next
call.

What the kernel answers is an input.  `WriteEnv` and `ReadEnv` say which
allocations succeed and how many bytes each copy to or from user space leaves
behind.  The size above which `kmalloc` always fails is a parameter.
-/

namespace AesdChar

open CodeLib CodeLib.CInt

abbrev Byte := UInt8

/-- The byte that ends a command. -/
def newline : Byte := 10

def ENOMEM : Int := 12
def EFAULT : Int := 14
def EINVAL : Int := 22
def ENOTTY : Int := 25

/-! ## State -/

/-- A `struct mutex`.  A mutex of zero bytes is not initialised. -/
inductive Mutex
  | zeroed
  | unlocked
  | locked
deriving DecidableEq, Repr

/-- `struct aesd_dev`, without the `cdev` that no operation reads. -/
structure AesdDev where
  buffer : AesdCircularBuffer
  lock : Mutex
  bufferPartial : Ptr
  sizePartial : Nat
deriving DecidableEq, Repr

/-- The device and the heap it allocates from. -/
structure KState where
  heap : Heap Byte
  dev : AesdDev
deriving DecidableEq, Repr

/-- The allocator: `kmalloc` fails above `maxSize`, which is far below the
largest `size_t`. -/
structure Kmalloc where
  maxSize : Nat
  maxSize_le : maxSize ≤ 2 ^ 59

/-- `mutex_lock`. -/
def AesdDev.mutexLock (dev : AesdDev) : Except Fault AesdDev :=
  if dev.lock = .unlocked then .ok { dev with lock := .locked } else .error .lock

/-- `mutex_unlock`. -/
def AesdDev.mutexUnlock (dev : AesdDev) : Except Fault AesdDev :=
  if dev.lock = .locked then .ok { dev with lock := .unlocked } else .error .lock

/-- What a file operation returns: its value, `*f_pos` and the new state. -/
structure CallResult (σ : Type) where
  ret : Int
  fPos : Int
  state : σ

/-- A read also leaves the user buffer. -/
structure ReadResult (σ : Type) extends CallResult σ where
  ubuf : List Byte

/-! ## Copies between kernel and user space -/

/-- The kernel's part in one `write`: whether each `kmalloc` succeeds and how
many bytes `copy_from_user` leaves uncopied. -/
structure WriteEnv where
  kbufOk : Bool
  uncopied : Nat
  newbufOk : Bool

/-- The kernel's part in one `read`: how many bytes the `i`-th `copy_to_user`
leaves uncopied. -/
structure ReadEnv where
  uncopied : Nat → Nat

/-- `copy_to_user(ubuf + off, bytes, n)`: the number of bytes left uncopied
and the user buffer. -/
def copyToUser (uncopied : Nat) (ubuf : List Byte) (off : Nat) (bytes : List Byte) :
    Nat × List Byte :=
  let left := min uncopied bytes.length
  (left, splice ubuf off (bytes.take (bytes.length - left)))

/-! ## `aesd_read` -/

/-- The `while` loop of `aesd_read`.  A round that copies nothing would be
repeated forever, so `count + 1` rounds are enough fuel for every run that
ends. -/
def readLoop (env : ReadEnv) (k : KState) (count : Nat) :
    (fuel : Nat) → (entry : Option (Nat × Nat)) → (bytesCopied copies : Nat) →
      (fPos : Int) → (ubuf : List Byte) → Except Fault (Int × Int × List Byte)
  | 0, _, _, _, _, _ => .error .diverges
  | _ + 1, none, bytesCopied, _, fPos, ubuf => .ok (signed64 bytesCopied, fPos, ubuf)
  | fuel + 1, some (idx, entryOffset), bytesCopied, copies, fPos, ubuf =>
    if bytesCopied < count then do
      let entry := k.dev.buffer.slot idx
      let bytesAvailable := sizeT ((entry.size : Int) - entryOffset)
      let bytesToCopy := min (count - bytesCopied) bytesAvailable
      let bytes ← k.heap.load entry.buffptr entryOffset bytesToCopy
      let (left, ubuf) := copyToUser (env.uncopied copies) ubuf bytesCopied bytes
      if left ≠ 0 then
        return (-EFAULT, fPos, ubuf)
      else
        let bytesCopied := sizeT ((bytesCopied : Int) + bytesToCopy)
        let fPos := signed64 (fPos + bytesToCopy)
        readLoop env k count fuel (k.dev.buffer.findEntryOffsetForFpos (sizeT fPos))
          bytesCopied (copies + 1) fPos ubuf
    else .ok (signed64 bytesCopied, fPos, ubuf)

/-- `aesd_read`. -/
def aesdRead (env : ReadEnv) (ubuf : List Byte) (count : Nat) (fPos : Int) (k : KState) :
    Except Fault (ReadResult KState) := do
  let dev ← k.dev.mutexLock
  let (ret, fPos, ubuf) ← (
    match dev.buffer.findEntryOffsetForFpos (sizeT fPos) with
    | none => .ok (0, fPos, ubuf)
    | some entry =>
      readLoop env { k with dev := dev } count (count + 1) (some entry) 0 0 fPos ubuf)
  let dev ← dev.mutexUnlock
  return { ret := ret, fPos := fPos, state := { k with dev := dev }, ubuf := ubuf }

/-! ## `aesd_write` -/

/-- The scan for a newline, which stops at the first hit. -/
def scanNewline : List Byte → Bool
  | [] => false
  | b :: bs => if b = newline then true else scanNewline bs

/-- `if (p) kfree(p)`. -/
def freeIfSet (heap : Heap Byte) (p : Ptr) : Except Fault (Heap Byte) :=
  if p ≠ .null then heap.free p else .ok heap

/-- The old partial command, if there is one, is copied to `newbuf` and its
buffer is freed. -/
def copyPartial (newbuf : Ptr) (k : KState) : Except Fault (Heap Byte) :=
  if k.dev.bufferPartial ≠ .null then do
    let heap ← k.heap.copy newbuf 0 k.dev.bufferPartial 0 k.dev.sizePartial
    heap.free k.dev.bufferPartial
  else .ok k.heap

/-- `newbuf` receives the old partial command and the new data, and takes the
place of the old buffer. -/
def append (newbuf kbuf : Ptr) (count : Nat) (k : KState) : Except Fault KState := do
  let heap ← copyPartial newbuf k
  let heap ← heap.copy newbuf k.dev.sizePartial kbuf 0 count
  let heap ← heap.free kbuf
  return ⟨heap, { k.dev with
    bufferPartial := newbuf
    sizePartial := sizeT ((k.dev.sizePartial : Int) + count) }⟩

/-- The end of a command: the accumulated buffer becomes an entry, the entry
it displaces is freed, and the accumulator starts afresh. -/
def finalize (k : KState) : Except Fault KState := do
  let entry : AesdBufferEntry := ⟨k.dev.bufferPartial, k.dev.sizePartial⟩
  let (oldBuff, buffer) := k.dev.buffer.addEntry entry
  let heap ← freeIfSet k.heap oldBuff
  return ⟨heap, { k.dev with buffer := buffer, bufferPartial := .null, sizePartial := 0 }⟩

/-- The body of `aesd_write` between the lock and the unlock. -/
def writeBody (kmalloc : Kmalloc) (env : WriteEnv) (buf : List Byte) (fPos : Int) (k : KState) :
    Except Fault (CallResult KState) := do
  let count := buf.length
  let (kbuf, heap) := k.heap.alloc kmalloc.maxSize env.kbufOk count
  if kbuf = .null then
    return ⟨-ENOMEM, fPos, { k with heap := heap }⟩
  else if min env.uncopied count ≠ 0 then
    let heap ← heap.free kbuf
    return ⟨-EFAULT, fPos, { k with heap := heap }⟩
  else
    let heap ← heap.store kbuf 0 buf
    let kdata ← heap.load kbuf 0 count
    let foundNewline := scanNewline kdata
    let (newbuf, heap) := heap.alloc kmalloc.maxSize env.newbufOk
      (sizeT ((k.dev.sizePartial : Int) + count))
    if newbuf = .null then
      let heap ← heap.free kbuf
      return ⟨-ENOMEM, fPos, { k with heap := heap }⟩
    else
      let k ← append newbuf kbuf count { k with heap := heap }
      let k ← (if foundNewline then finalize k else .ok k)
      return ⟨signed64 count, signed64 (fPos + count), k⟩

/-- `aesd_write`. -/
def aesdWrite (kmalloc : Kmalloc) (env : WriteEnv) (buf : List Byte) (fPos : Int) (k : KState) :
    Except Fault (CallResult KState) := do
  let dev ← k.dev.mutexLock
  let r ← writeBody kmalloc env buf fPos { k with dev := dev }
  let dev ← r.state.dev.mutexUnlock
  return { r with state := { r.state with dev := dev } }

/-! ## `aesd_llseek` -/

def SEEK_SET : Int := 0
def SEEK_CUR : Int := 1
def SEEK_END : Int := 2

/-- The size summed by `aesd_llseek` over all slots. -/
def totalSize (buffer : AesdCircularBuffer) : Nat :=
  buffer.foreach.foldl
    (fun total entry =>
      if entry.buffptr ≠ .null then sizeT ((total : Int) + entry.size) else total) 0

/-- `aesd_llseek`. -/
def aesdLlseek (fPos offset whence : Int) (k : KState) : Except Fault (CallResult KState) := do
  let dev ← k.dev.mutexLock
  let total := totalSize dev.buffer
  let newpos : Option Int :=
    if whence = SEEK_SET then some offset
    else if whence = SEEK_CUR then some (signed64 (fPos + offset))
    else if whence = SEEK_END then some (signed64 ((total : Int) + offset))
    else none
  let dev ← dev.mutexUnlock
  match newpos with
  | none => return ⟨-EINVAL, fPos, { k with dev := dev }⟩
  | some newpos =>
    if newpos < 0 then return ⟨-EINVAL, fPos, { k with dev := dev }⟩
    else
      let newpos := if sizeT newpos > total then signed64 total else newpos
      return ⟨newpos, newpos, { k with dev := dev }⟩

/-! ## `aesd_unlocked_ioctl` -/

/-- `struct aesd_seekto`. -/
structure AesdSeekto where
  writeCmd : Nat
  writeCmdOffset : Nat
deriving DecidableEq, Repr

def AESD_IOC_MAGIC : Nat := 0x16
def AESDCHAR_IOC_MAXNR : Nat := 1

/-- `_IOWR(AESD_IOC_MAGIC, 1, struct aesd_seekto)`: direction, size, type and
number of the request. -/
def AESDCHAR_IOCSEEKTO : Nat := 3 * 2 ^ 30 + 8 * 2 ^ 16 + AESD_IOC_MAGIC * 2 ^ 8 + 1

def iocType (cmd : Nat) : Nat := cmd / 2 ^ 8 % 2 ^ 8
def iocNr (cmd : Nat) : Nat := cmd % 2 ^ 8

/-- The loop of the seek request over the steps `is` from the read index.
The result is the entry examined last and the sizes of the entries passed. -/
def seekLoop (buffer : AesdCircularBuffer) (writeCmd : Nat) :
    (is : List Nat) → (entry : AesdBufferEntry) → (index offset : Nat) → AesdBufferEntry × Nat
  | [], entry, _, offset => (entry, offset)
  | i :: is, _, index, offset =>
    let entry := buffer.slot ((buffer.outOffs + i) % maxWriteOperations)
    if entry.buffptr = .null then seekLoop buffer writeCmd is entry index offset
    else if index = writeCmd then (entry, offset)
    else seekLoop buffer writeCmd is entry (uint32 ((index : Int) + 1))
      (sizeT ((offset : Int) + entry.size))

/-- `aesd_unlocked_ioctl`.  `uncopied` is the answer of `copy_from_user`. -/
def aesdUnlockedIoctl (uncopied cmd : Nat) (seekto : AesdSeekto) (fPos : Int) (k : KState) :
    Except Fault (CallResult KState) := do
  if iocType cmd ≠ AESD_IOC_MAGIC then return ⟨-ENOTTY, fPos, k⟩
  else if iocNr cmd > AESDCHAR_IOC_MAXNR then return ⟨-ENOTTY, fPos, k⟩
  else if cmd ≠ AESDCHAR_IOCSEEKTO then return ⟨-ENOTTY, fPos, k⟩
  else if uncopied ≠ 0 then return ⟨-EFAULT, fPos, k⟩
  else
    let dev ← k.dev.mutexLock
    let (entry, offset) :=
      seekLoop dev.buffer seekto.writeCmd (List.range maxWriteOperations) .zero 0 0
    let dev ← dev.mutexUnlock
    if entry.buffptr = .null then return ⟨-EINVAL, fPos, { k with dev := dev }⟩
    else if seekto.writeCmdOffset ≥ entry.size then
      return ⟨-EINVAL, fPos, { k with dev := dev }⟩
    else
      let fPos := signed64 (sizeT ((offset : Int) + seekto.writeCmdOffset))
      return ⟨0, fPos, { k with dev := dev }⟩

/-! ## `aesd_fops` -/

/-- `struct file_operations`, for a device with state `σ`. -/
structure FileOps (σ : Type) where
  read : ReadEnv → (ubuf : List Byte) → (count : Nat) → (fPos : Int) → σ →
    Except Fault (ReadResult σ)
  write : WriteEnv → (buf : List Byte) → (fPos : Int) → σ → Except Fault (CallResult σ)
  llseek : (fPos offset whence : Int) → σ → Except Fault (CallResult σ)
  unlockedIoctl : (uncopied cmd : Nat) → AesdSeekto → (fPos : Int) → σ →
    Except Fault (CallResult σ)

/-- `aesd_fops`. -/
def aesdFops (kmalloc : Kmalloc) : FileOps KState where
  read := aesdRead
  write := aesdWrite kmalloc
  llseek := aesdLlseek
  unlockedIoctl := aesdUnlockedIoctl

/-- The position of the file after a `read` or `write`: the system call
stores what the operation left in `*f_pos` only if it succeeded. -/
def CallResult.filePos {σ : Type} (r : CallResult σ) (fPos : Int) : Int :=
  if 0 ≤ r.ret then r.fPos else fPos

/-! ## `aesd_init_module` and `aesd_cleanup_module` -/

/-- The `memset` of `aesd_init_module`. -/
def KState.memsetDevice (k : KState) : KState :=
  { k with dev := ⟨.init, .zeroed, .null, 0⟩ }

/-- `mutex_init(&aesd_device.lock)`. -/
def KState.mutexInit (k : KState) : KState :=
  { k with dev := { k.dev with lock := .unlocked } }

/-- `aesd_circular_buffer_init(&aesd_device.buffer)`. -/
def KState.circularBufferInit (k : KState) : KState :=
  { k with dev := { k.dev with buffer := .init } }

/-- `aesd_init_module`, with a region and a `cdev` that register. -/
def aesdInitModule (k : KState) : KState :=
  k.memsetDevice.mutexInit.circularBufferInit

/-- The state after the module was loaded: the static device starts out as
zero bytes, and nothing is allocated. -/
def loaded : KState := aesdInitModule ⟨⟨[]⟩, ⟨.init, .zeroed, .null, 0⟩⟩

/-- Free the buffers of a row of slots. -/
def freeSlots : Heap Byte → List AesdBufferEntry → Except Fault (Heap Byte)
  | heap, [] => .ok heap
  | heap, entry :: entries => do
    let heap ← freeIfSet heap entry.buffptr
    freeSlots heap entries

/-- `aesd_cleanup_module`. -/
def aesdCleanupModule (k : KState) : Except Fault KState := do
  let heap ← freeIfSet k.heap k.dev.bufferPartial
  let heap ← freeSlots heap k.dev.buffer.foreach
  return { k with heap := heap }

/-! ## Runs of calls -/

/-- A call on one of the open files of the device. -/
inductive Call
  | openFile (file : Nat)
  | read (file count : Nat) (env : ReadEnv)
  | write (file : Nat) (buf : List Byte) (env : WriteEnv)
  | llseek (file : Nat) (offset : Int64) (whence : Int)
  | ioctl (file uncopied cmd : Nat) (seekto : AesdSeekto)

/-- A call that was made, its return value and the bytes it delivered. -/
structure Event where
  call : Call
  ret : Int
  data : List Byte

/-- The kernel state and the position of every open file. -/
structure Driver where
  k : KState
  filePos : Nat → Int

/-- The driver right after the module was loaded. -/
def Driver.loaded : Driver := ⟨AesdChar.loaded, fun _ => 0⟩

/-- Move one file. -/
def Driver.after (s : Driver) (file : Nat) (pos : Int) (k : KState) : Driver :=
  ⟨k, Function.update s.filePos file pos⟩

/-- One call. -/
def Driver.step (kmalloc : Kmalloc) (s : Driver) (call : Call) : Except Fault (Event × Driver) :=
  match call with
  | .openFile file => .ok (⟨call, 0, []⟩, s.after file 0 s.k)
  | .read file count env => do
    let r ← aesdRead env [] count (s.filePos file) s.k
    return (⟨call, r.ret, r.ubuf⟩, s.after file (r.filePos (s.filePos file)) r.state)
  | .write file buf env => do
    let r ← aesdWrite kmalloc env buf (s.filePos file) s.k
    return (⟨call, r.ret, []⟩, s.after file (r.filePos (s.filePos file)) r.state)
  | .llseek file offset whence => do
    let r ← aesdLlseek (s.filePos file) offset.toInt whence s.k
    return (⟨call, r.ret, []⟩, s.after file r.fPos r.state)
  | .ioctl file uncopied cmd seekto => do
    let r ← aesdUnlockedIoctl uncopied cmd seekto (s.filePos file) s.k
    return (⟨call, r.ret, []⟩, s.after file r.fPos r.state)

/-- A run of calls, with its events in order. -/
def Driver.run (kmalloc : Kmalloc) : Driver → List Call → Except Fault (List Event × Driver)
  | s, [] => .ok ([], s)
  | s, call :: calls => do
    let (event, s) ← s.step kmalloc call
    let (events, s) ← s.run kmalloc calls
    return (event :: events, s)

/-! ## What a state holds -/

/-- The contents of a row of entries. -/
def loadEntries (heap : Heap Byte) : List AesdBufferEntry → Except Fault (List (List Byte))
  | [] => .ok []
  | e :: es => do
    let bytes ← heap.load e.buffptr 0 e.size
    let rest ← loadEntries heap es
    return bytes :: rest

/-- The contents of the valid entries, oldest first. -/
def KState.commands (k : KState) : Except Fault (List (List Byte)) :=
  loadEntries k.heap k.dev.buffer.validEntries

/-- The contents of the accumulator. -/
def KState.pending (k : KState) : Except Fault (List Byte) :=
  k.heap.load k.dev.bufferPartial 0 k.dev.sizePartial

end AesdChar
