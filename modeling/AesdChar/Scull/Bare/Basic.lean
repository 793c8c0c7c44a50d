import AesdChar.Scull.Ioctl

/-!
# The bare device

`scull/main.c`: a device that keeps what is written to it in a linked list of quantum
sets.  A quantum set is an array of pointers to quanta, and a quantum is a row of
bytes.  Lists, arrays and quanta grow when somebody writes, and a null pointer is a hole.

The three kinds of blocks lie in three heaps.  `kmalloc` does not clear the
quanta, so a cell of a quantum that nobody has written may be read: it shows what was
in the memory before.

A call reads `dev->quantum` and `dev->qset` before it takes the mutex, so these two
loads are steps of their own, and so are the stores of `scull_trim` to these fields.
Everything else that a call does under the mutex is one step.
-/

namespace AesdChar.Scull

open CodeLib CodeLib.CInt

/-- The most that the kernel hands to `read` or `write`. -/
def MAX_RW_COUNT : Nat := 0x7ffff000

/-! ## The device -/

/-- `struct scull_qset`. -/
structure ScullQset where
  data : Ptr
  next : Ptr
deriving DecidableEq, Repr

/-- `struct scull_dev`, without the mutex and the `cdev`. -/
structure ScullDev where
  data : Ptr
  quantum : Int
  qset : Int
  size : Nat
deriving DecidableEq, Repr

/-- The device and its memory. -/
structure ScullMem where
  qsets : Heap ScullQset
  arrays : Heap Ptr
  quanta : Heap Byte
  dev : ScullDev
deriving DecidableEq, Repr

/-- Which allocations of a call succeed, and how many bytes a copy leaves behind. -/
structure ScullAnswer where
  signal : Bool
  node : Nat → Bool
  array : Bool
  quantum : Bool
  uncopied : Nat

/-- Where a position lies. -/
structure Place where
  item : Nat
  sPos : Int
  qPos : Int
deriving DecidableEq, Repr

/-- The list item, the index in the quantum set and the offset in the quantum.  The
loop of `scull_follow` counts an `int` down to zero, so what it takes of the item is
its value as an unsigned number.  There is no answer to a division by zero. -/
def locate (quantum qset pos : Int) : Option Place :=
  let itemsize := int32 (quantum * qset)
  if itemsize = 0 then none
  else
    let rest := int32 (pos.tmod itemsize)
    some ⟨uint32 (pos.tdiv itemsize), rest.tdiv quantum, rest.tmod quantum⟩

namespace ScullMem

/-- An element of an array. -/
def loadSlot (m : ScullMem) (data : Ptr) (i : Int) : Except Fault Ptr :=
  if i < 0 then .error .badAccess else m.arrays.loadCell data i.toNat

/-- Read bytes of a quantum, written or not. -/
def loadBytes (m : ScullMem) (p : Ptr) (qPos : Int) (n : Nat) : Except Fault (List (Option Byte)) :=
  if qPos < 0 ∧ n ≠ 0 then .error .badAccess else m.quanta.loadRaw p qPos.toNat n

/-- Write bytes to a quantum. -/
def storeBytes (m : ScullMem) (p : Ptr) (qPos : Int) (bytes : List Byte) :
    Except Fault (Heap Byte) :=
  if qPos < 0 ∧ bytes ≠ [] then .error .badAccess else m.quanta.store p qPos.toNat bytes

/-! ### `scull_trim` -/

/-- Free the quanta of an array. -/
def freeQuanta (m : ScullMem) (data : Ptr) : (i n : Nat) → Heap Byte → Except Fault (Heap Byte)
  | _, 0, quanta => .ok quanta
  | i, n + 1, quanta => do
    let p ← m.loadSlot data i
    let quanta ← quanta.free p
    m.freeQuanta data (i + 1) n quanta

/-- Free what a list item points to. -/
def freeItem (m : ScullMem) (qset : Int) (dptr : Ptr) (qs : ScullQset) : Except Fault ScullMem :=
  if qs.data = .null then .ok m
  else do
    let quanta ← m.freeQuanta qs.data 0 qset.toNat m.quanta
    let arrays ← m.arrays.free qs.data
    let qsets ← m.qsets.storeCell dptr 0 { qs with data := .null }
    return { m with quanta := quanta, arrays := arrays, qsets := qsets }

/-- All the list items. -/
def trimLoop (qset : Int) : (fuel : Nat) → (dptr : Ptr) → ScullMem → Except Fault ScullMem
  | 0, _, _ => .error .diverges
  | fuel + 1, dptr, m =>
    if dptr = .null then .ok m
    else do
      let qs ← m.qsets.loadCell dptr 0
      let m ← m.freeItem qset dptr qs
      let qsets ← m.qsets.free dptr
      trimLoop qset fuel qs.next { m with qsets := qsets }

/-- `scull_trim`, up to the point where it changes the geometry.  Every turn of the loop
frees a node. -/
def trimList (m : ScullMem) : Except Fault ScullMem := do
  let m ← trimLoop m.dev.qset (m.qsets.blocks.length + 1) m.dev.data m
  return { m with dev := { m.dev with size := 0 } }

def trimQuantum (quantum : Int) (m : ScullMem) : ScullMem :=
  { m with dev := { m.dev with quantum := quantum } }

def trimQset (qset : Int) (m : ScullMem) : ScullMem := { m with dev := { m.dev with qset := qset } }

def trimData (m : ScullMem) : ScullMem := { m with dev := { m.dev with data := .null } }

/-- `scull_trim`, where nobody looks at the device in between. -/
def trim (params : ScullParams) (m : ScullMem) : Except Fault ScullMem := do
  let m ← m.trimList
  return ((m.trimQuantum params.scullQuantum).trimQset params.scullQset).trimData

/-! ### `scull_follow` -/

/-- `kmalloc` and `memset` of a list item, which the caller stores. -/
def newQset (m : ScullMem) (kmalloc : Kmalloc) (ok : Bool) : Except Fault (Ptr × ScullMem) := do
  let (p, qsets) := m.qsets.alloc (kmalloc.maxSize / 16) ok 1
  if p = .null then return (.null, { m with qsets := qsets })
  let qsets ← qsets.storeCell p 0 ⟨.null, .null⟩
  return (p, { m with qsets := qsets })

/-- Follow the list.  `k` counts the list items that are passed. -/
def followLoop (kmalloc : Kmalloc) (node : Nat → Bool) :
    (k n : Nat) → (qs : Ptr) → ScullMem → Except Fault (Ptr × ScullMem)
  | _, 0, qs, m => .ok (qs, m)
  | k, n + 1, qs, m => do
    let item ← m.qsets.loadCell qs 0
    if item.next = .null then
      let (next, m) ← m.newQset kmalloc (node k)
      if next = .null then return (.null, m)
      let qsets ← m.qsets.storeCell qs 0 { item with next := next }
      followLoop kmalloc node (k + 1) n next { m with qsets := qsets }
    else followLoop kmalloc node (k + 1) n item.next m

/-- `scull_follow`. -/
def follow (m : ScullMem) (kmalloc : Kmalloc) (node : Nat → Bool) (n : Nat) :
    Except Fault (Ptr × ScullMem) :=
  if m.dev.data = .null then do
    let (qs, m) ← m.newQset kmalloc (node 0)
    if qs = .null then return (.null, m)
    followLoop kmalloc node 1 n qs { m with dev := { m.dev with data := qs } }
  else followLoop kmalloc node 1 n m.dev.data m

/-! ### `scull_read` and `scull_write` -/

/-- What a read returns, what it has copied to the caller, and where the file stands. -/
structure ReadResult where
  ret : Int
  bytes : List (Option Byte)
  pos : Int
  mem : ScullMem
deriving DecidableEq, Repr

/-- `scull_read` behind the computation of the place. -/
def readAt (m : ScullMem) (kmalloc : Kmalloc) (answer : ScullAnswer) (quantum : Int)
    (count : Nat) (pos : Int) (place : Place) : Except Fault ReadResult := do
  let (dptr, m) ← m.follow kmalloc answer.node place.item
  if dptr = .null then return ⟨0, [], pos, m⟩
  let qs ← m.qsets.loadCell dptr 0
  if qs.data = .null then return ⟨0, [], pos, m⟩
  let p ← m.loadSlot qs.data place.sPos
  -- Don't fill holes.
  if p = .null then return ⟨0, [], pos, m⟩
  -- Read only up to the end of this quantum.
  let count := min count (sizeT (quantum - place.qPos))
  let bytes ← m.loadBytes p place.qPos count
  let left := min answer.uncopied count
  if left ≠ 0 then return ⟨-EFAULT, bytes.take (count - left), pos, m⟩
  return ⟨count, bytes, signed64 (pos + count), m⟩

/-- `scull_read` under the mutex, with the geometry that it has seen before. -/
def read (m : ScullMem) (kmalloc : Kmalloc) (answer : ScullAnswer) (quantum qset : Int)
    (count : Nat) (pos : Int) : Except Fault ReadResult :=
  if m.dev.size ≤ sizeT pos then return ⟨0, [], pos, m⟩
  else
    let count := if m.dev.size < sizeT (pos + count) then sizeT (m.dev.size - pos) else count
    match locate quantum qset pos with
    -- The processor answers a division by zero as it answers a bad access.
    | none => .error .badAccess
    | some place => m.readAt kmalloc answer quantum count pos place

/-- The array of a list item, which `scull_write` allocates if there is none. -/
def ensureArray (m : ScullMem) (kmalloc : Kmalloc) (ok : Bool) (qset : Int) (dptr : Ptr) :
    Except Fault (Ptr × ScullMem) := do
  let qs ← m.qsets.loadCell dptr 0
  if qs.data = .null then
    -- The size of a pointer is eight.
    let n := sizeT (qset * 8) / 8
    let (p, arrays) := m.arrays.alloc (kmalloc.maxSize / 8) ok n
    let qsets ← m.qsets.storeCell dptr 0 { qs with data := p }
    let m := { m with arrays := arrays, qsets := qsets }
    if p = .null then return (.null, m)
    let arrays ← m.arrays.store p 0 (List.replicate n .null)
    return (p, { m with arrays := arrays })
  else return (qs.data, m)

/-- The quantum at an index, which `scull_write` allocates if there is none. -/
def ensureQuantum (m : ScullMem) (kmalloc : Kmalloc) (ok : Bool) (quantum : Int) (data : Ptr)
    (sPos : Int) : Except Fault (Ptr × ScullMem) := do
  let p ← m.loadSlot data sPos
  if p = .null then
    let (p, quanta) := m.quanta.alloc kmalloc.maxSize ok (sizeT quantum)
    let arrays ← m.arrays.storeCell data sPos.toNat p
    return (p, { m with quanta := quanta, arrays := arrays })
  else return (p, m)

/-- What a write returns, what it has stored in the quantum, and where the file stands.
Nothing is stored if there is no memory. -/
structure WriteResult where
  ret : Int
  stored : Option (List Byte)
  pos : Int
  mem : ScullMem
deriving DecidableEq, Repr

/-- `scull_write` behind the computation of the place. -/
def writeAt (m : ScullMem) (kmalloc : Kmalloc) (answer : ScullAnswer) (quantum qset : Int)
    (buf : List Byte) (pos : Int) (place : Place) : Except Fault WriteResult := do
  let (dptr, m) ← m.follow kmalloc answer.node place.item
  if dptr = .null then return ⟨-ENOMEM, none, pos, m⟩
  let (data, m) ← m.ensureArray kmalloc answer.array qset dptr
  if data = .null then return ⟨-ENOMEM, none, pos, m⟩
  let (p, m) ← m.ensureQuantum kmalloc answer.quantum quantum data place.sPos
  if p = .null then return ⟨-ENOMEM, none, pos, m⟩
  -- Write only up to the end of this quantum.
  let count := min buf.length (sizeT (quantum - place.qPos))
  let (left, bytes) := copyFromUser (buf.take count) answer.uncopied
  let quanta ← m.storeBytes p place.qPos bytes
  let m := { m with quanta := quanta }
  if left ≠ 0 then return ⟨-EFAULT, some bytes, pos, m⟩
  let pos := signed64 (pos + count)
  let size := if m.dev.size < sizeT pos then sizeT pos else m.dev.size
  return ⟨count, some bytes, pos, { m with dev := { m.dev with size := size } }⟩

/-- `scull_write` under the mutex, with the geometry that it has seen before. -/
def write (m : ScullMem) (kmalloc : Kmalloc) (answer : ScullAnswer) (quantum qset : Int)
    (buf : List Byte) (pos : Int) : Except Fault WriteResult :=
  match locate quantum qset pos with
  | none => .error .badAccess
  | some place => m.writeAt kmalloc answer quantum qset buf pos place

end ScullMem

/-- The position that `scull_llseek` goes to, unless it refuses. -/
def scullLlseek (size : Nat) (fpos off whence : Int) : Option Int :=
  let newpos :=
    if whence = 0 then some off
    else if whence = 1 then some (signed64 (fpos + off))
    else if whence = 2 then some (signed64 (size + off))
    else none
  newpos.filter fun newpos => decide (0 ≤ newpos)

end AesdChar.Scull
