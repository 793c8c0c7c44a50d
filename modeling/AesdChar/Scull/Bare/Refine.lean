import AesdChar.CodeLib.Mutex
import AesdChar.CodeLib.Trace
import AesdChar.Scull.Bare.File
import AesdChar.Scull.Bare.System

/-!
# The tasks share a sparse file

`ScullFiles` is what user space sees of a bare device: one sparse file, and a position in it
for each task.  `ScullEvent.after` says what the events do to it.

`ScullSystem.Inv` connects it to the system.  The task that has the mutex may be in
`scull_trim`, and `ScullPc.phase` says how far it is.  Every step that
meets `ScullSystem.SafeStep` is a step of the file.
-/

namespace AesdChar.Scull

open CodeLib CodeLib.CInt CodeLib.Mutex

/-! ## What user space sees -/

/-- The file, and where the tasks stand in it. -/
structure ScullFiles (τ : Type) where
  file : ScullFile
  fpos : τ → Nat

namespace ScullFiles

variable {τ : Type} [DecidableEq τ]

def setPos (fs : ScullFiles τ) (t : τ) (pos : Nat) : ScullFiles τ :=
  { fs with fpos := Function.update fs.fpos t pos }

/-- A seek. -/
def sought (fs : ScullFiles τ) (t : τ) (off whence ret : Int) : Option (ScullFiles τ) :=
  match scullLlseek fs.file.size (fs.fpos t) off whence with
  | none => if ret = -EINVAL then some fs else none
  | some newpos => if ret = newpos then some (fs.setPos t newpos.toNat) else none

/-- A read delivers what is there, or fails and delivers a part of it. -/
def read (fs : ScullFiles τ) (t : τ) (count : Nat) (bytes : List (Option Byte)) (ret : Int) :
    Option (ScullFiles τ) :=
  let found := fs.file.read (fs.fpos t) count
  if ret = found.length ∧ bytes = found then some (fs.setPos t (fs.fpos t + found.length))
  else if ret = -EFAULT ∧ bytes <+: found ∧ bytes.length < found.length then some fs
  else none

/-- A write stores what the quantum has room for.  It stores zeros instead if it cannot
read its buffer, and nothing if there is no memory. -/
def written (fs : ScullFiles τ) (t : τ) (buf : List Byte) (stored : Option (List Byte))
    (ret : Int) : Option (ScullFiles τ) :=
  let pos := fs.fpos t
  let n := fs.file.room pos buf.length
  match stored with
  | none => if ret = -ENOMEM then some fs else none
  | some bytes =>
    if ret = n ∧ bytes = buf.take n then
      some ({ fs with file := (fs.file.store pos bytes).grow (pos + n) }.setPos t (pos + n))
    else if ret = -EFAULT ∧ bytes.length = n ∧
        ∃ k, k < n ∧ bytes = buf.take k ++ List.replicate (n - k) 0 then
      some { fs with file := fs.file.store pos bytes }
    else none

end ScullFiles

/-- What an event does to the file. -/
def ScullEvent.after {τ : Type} [DecidableEq τ] :
    ScullEvent τ → ScullFiles τ → Option (ScullFiles τ)
  | .silent, fs | .returned _ _, fs => some fs
  | .opened t, fs => some (fs.setPos t 0)
  | .trimmed, fs => some { fs with file := .empty fs.file.quantum }
  | .shaped quantum, fs => some { fs with file := .empty quantum.toNat }
  | .sought t off whence ret, fs => fs.sought t off whence ret
  | .read t pos count bytes ret, fs => if pos = fs.fpos t then fs.read t count bytes ret else none
  | .written t pos buf stored ret, fs =>
    if pos = fs.fpos t then fs.written t buf stored ret else none

/-- The file after a row of events, if they are events of a file. -/
def ScullEvent.replay {τ : Type} [DecidableEq τ] (fs : ScullFiles τ)
    (events : List (ScullEvent τ)) : Option (ScullFiles τ) :=
  Trace.replay ScullEvent.after fs events

section Events

variable {τ : Type} [DecidableEq τ] {fs fs' : ScullFiles τ} {t : τ} {pos off whence ret : Int}
  {count : Nat} {buf : List Byte} {bytes : List (Option Byte)} {stored : Option (List Byte)}

theorem ScullEvent.after_sought
    (h : (sought t off whence ret : ScullEvent τ).after fs = some fs') : fs'.file = fs.file := by
  replace h : fs.sought t off whence ret = some fs' := h
  unfold ScullFiles.sought at h
  split at h
  · split at h
    · rw [← Option.some.inj h]
    · cases h
  · split at h
    · rw [← Option.some.inj h]
      rfl
    · cases h

/-- A read delivers the front of what is there. -/
theorem ScullEvent.after_read
    (h : (read t pos count bytes ret : ScullEvent τ).after fs = some fs') :
    pos = fs.fpos t ∧ bytes <+: fs.file.read (fs.fpos t) count ∧ fs'.file = fs.file := by
  by_cases hpos : pos = fs.fpos t
  · replace h : fs.read t count bytes ret = some fs' := (if_pos hpos).symm.trans h
    refine ⟨hpos, ?_⟩
    simp only [ScullFiles.read] at h
    split at h
    · rename_i hall
      rw [hall.2, ← Option.some.inj h]
      exact ⟨List.prefix_refl _, rfl⟩
    · split at h
      · rename_i hpart
        rw [← Option.some.inj h]
        exact ⟨hpart.2.1, rfl⟩
      · cases h
  · cases (if_neg hpos).symm.trans h

/-- A write stores as many bytes as there is room for, or nothing. -/
theorem ScullEvent.after_written
    (h : (written t pos buf stored ret : ScullEvent τ).after fs = some fs') :
    pos = fs.fpos t ∧ (stored = none ∧ fs' = fs ∨
      ∃ bytes, stored = some bytes ∧ bytes.length = fs.file.room (fs.fpos t) buf.length ∧
        fs'.file.cells = (fs.file.store (fs.fpos t) bytes).cells) := by
  by_cases hpos : pos = fs.fpos t
  · replace h : fs.written t buf stored ret = some fs' := (if_pos hpos).symm.trans h
    refine ⟨hpos, ?_⟩
    have hroom : fs.file.room (fs.fpos t) buf.length ≤ buf.length := Nat.min_le_left _ _
    cases stored with
    | none =>
      simp only [ScullFiles.written] at h
      split at h
      · exact Or.inl ⟨rfl, (Option.some.inj h).symm⟩
      · cases h
    | some bytes =>
      refine Or.inr ⟨bytes, rfl, ?_⟩
      simp only [ScullFiles.written] at h
      split at h
      · rename_i hall
        rw [← Option.some.inj h]
        refine ⟨?_, rfl⟩
        rw [hall.2, List.length_take, Nat.min_eq_left hroom]
      · split at h
        · rename_i hpart
          rw [← Option.some.inj h]
          exact ⟨hpart.2.1, rfl⟩
        · cases h
  · cases (if_neg hpos).symm.trans h

end Events

/-! ## Tasks -/

/-- The task has the mutex. -/
def ScullPc.holds : ScullPc → Bool
  | .trimList | .trimQuantum | .trimQset | .trimData | .body _ _ _ => true
  | _ => false

/-- What the owner of the mutex has done to the memory. -/
inductive ScullPhase
  | settled
  | trimmed
  | shaped
deriving DecidableEq, Repr

def ScullPc.phase : ScullPc → ScullPhase
  | .trimQuantum | .trimQset => .trimmed
  | .trimData => .shaped
  | _ => .settled

theorem ScullPc.phase_of_not_holds {pc : ScullPc} (h : pc.holds = false) : pc.phase = .settled := by
  cases pc with
  | trimQuantum | trimQset | trimData => cases h
  | _ => rfl

/-- The task is in the critical section of `scull_read` or `scull_write`. -/
def ScullPc.inBody : ScullPc → Bool
  | .body _ _ _ => true
  | _ => false

/-- The task has the device open. -/
def ScullPc.opened : ScullPc → Bool
  | .closed | .openLock => false
  | _ => true

/-- What the task has loaded is the geometry of the device. -/
def ScullPc.Loaded (dev : ScullDev) : ScullPc → Prop
  | .qset _ n => n = dev.quantum
  | .lock _ n q | .body _ n q => n = dev.quantum ∧ q = dev.qset
  | _ => True

/-- The operation that the task is in. -/
def ScullPc.op? : ScullPc → Option ScullOp
  | .quantum op | .qset op _ | .lock op _ _ | .body op _ _ => some op
  | _ => none

/-- How many bytes the operation is about. -/
def ScullOp.count : ScullOp → Nat
  | .read count => count
  | .write buf => buf.length

theorem ScullOp.count_clip (op : ScullOp) : op.clip.count ≤ MAX_RW_COUNT := by
  cases op with
  | read count => exact Nat.min_le_right _ _
  | write buf => exact List.length_take_le _ _

/-! ## Memory -/

/-- A geometry that the computation of places can work with. -/
def SaneGeometry (quantum qset : Int) : Prop := 0 < quantum ∧ 0 < qset ∧ quantum * qset < 2 ^ 31

instance decidableSaneGeometry (quantum qset : Int) : Decidable (SaneGeometry quantum qset) :=
  inferInstanceAs (Decidable (_ ∧ _ ∧ _))

/-- Nothing is left of the data. -/
structure ScullMem.Trimmed (m : ScullMem) (f : ScullFile) : Prop extends m.Bare where
  size_eq : m.dev.size = 0
  file_eq : f = .empty f.quantum

/-- The memory in each phase. -/
def ScullMem.Shape (m : ScullMem) (f : ScullFile) : ScullPhase → Prop
  | .settled => ∃ items, m.Holds m.dev.qset.toNat items f
  | .trimmed => m.Trimmed f
  | .shaped => m.Trimmed f ∧ m.dev.quantum = f.quantum ∧ SaneGeometry m.dev.quantum m.dev.qset

section Shape

variable {m m' : ScullMem} {f : ScullFile} {q : Nat} {items : List ListItem} {phase : ScullPhase}

theorem ScullMem.Holds.shape (h : m.Holds q items f) : m.Shape f .settled := by
  have hqset : m.dev.qset.toNat = q := by
    rw [h.qset_eq]
    rfl
  refine ⟨items, ?_⟩
  rw [hqset]
  exact h

/-- The size can be seen in every phase. -/
theorem ScullMem.Shape.size_eq (h : m.Shape f phase) : m.dev.size = f.size ∧ f.size < 2 ^ 63 := by
  have hempty (htrimmed : m.Trimmed f) : m.dev.size = f.size ∧ f.size < 2 ^ 63 := by
    have hsize : f.size = 0 := by
      rw [htrimmed.file_eq]
      rfl
    rw [htrimmed.size_eq, hsize]
    exact ⟨rfl, by decide⟩
  cases phase with
  | settled =>
    obtain ⟨items, hholds⟩ := h
    exact ⟨hholds.size_eq, hholds.size_lt⟩
  | trimmed => exact hempty h
  | shaped => exact hempty h.1

/-- A device without data holds the empty file. -/
theorem ScullMem.Bare.holds (h : m.Bare) (hgeometry : SaneGeometry m.dev.quantum m.dev.qset)
    (hdata : m.dev.data = .null) (hsize : m.dev.size = 0) :
    m.Holds m.dev.qset.toNat [] (.empty m.dev.quantum.toNat) := by
  obtain ⟨hquantum, hqset, hprod⟩ := hgeometry
  have hquantum_eq : ((m.dev.quantum.toNat : Nat) : Int) = m.dev.quantum :=
    Int.toNat_of_nonneg (by omega)
  have hqset_eq : ((m.dev.qset.toNat : Nat) : Int) = m.dev.qset := Int.toNat_of_nonneg (by omega)
  refine ⟨⟨h.qsets, h.arrays, h.quanta, by simp⟩, ?_, ?_, ?_, hquantum_eq.symm, hqset_eq.symm,
    hdata, hsize, Nat.zero_le _, Nat.zero_le _, fun p => rfl⟩
  · show 0 < m.dev.quantum.toNat
    omega
  · omega
  · rw [← hquantum_eq, ← hqset_eq, ← Nat.cast_mul] at hprod
    exact Int.ofNat_lt.mp hprod

end Shape

/-! ## The invariant -/

section Invariant

variable {τ : Type} {s s' : ScullSystem τ} {fs fs' : ScullFiles τ} {t : τ} {pc pc' : ScullPc}

/-- The phase of the task that has the mutex. -/
def ScullSystem.phase (s : ScullSystem τ) : ScullPhase :=
  ownerPhase .settled ScullPc.phase s.lock s.tasks

/-- The system shows the file. -/
structure ScullSystem.Inv (s : ScullSystem τ) (fs : ScullFiles τ) : Prop where
  lock : Guards ScullPc.holds s.lock s.tasks
  count : ∀ t op, (s.tasks t).op? = some op → op.count ≤ MAX_RW_COUNT
  fpos : ∀ t, s.fpos t = fs.fpos t ∧ fs.fpos t < 2 ^ 63
  shape : s.mem.Shape fs.file s.phase

/-- A write starts at a position that the loop can count to. -/
def ScullOp.Reaches (quantum qset pos : Int) : ScullOp → Prop
  | .read _ => True
  | .write _ => InReach quantum.toNat qset.toNat pos.toNat

/-- The geometry is sane when it is stored, it has not changed since a call has loaded
it, and nobody writes behind the last list item that the loop can count to. -/
def ScullSystem.SafeAt (s : ScullSystem τ) (t : τ) : ScullPc → Prop
  | .trimQset => SaneGeometry s.mem.dev.quantum s.params.scullQset
  | .body op quantum qset =>
    (quantum = s.mem.dev.quantum ∧ qset = s.mem.dev.qset) ∧ op.Reaches quantum qset (s.fpos t)
  | _ => True

def ScullSystem.SafeStep (s : ScullSystem τ) : ScullAct τ → Prop
  | .step t _ => s.SafeAt t (s.tasks t)
  | _ => True

instance decidableInReach (n q pos : Nat) : Decidable (InReach n q pos) :=
  inferInstanceAs (Decidable (pos / (n * q) < 2 ^ 32))

instance ScullOp.decidableReaches (quantum qset pos : Int) :
    (op : ScullOp) → Decidable (op.Reaches quantum qset pos)
  | .read _ => inferInstanceAs (Decidable True)
  | .write _ => inferInstanceAs (Decidable (InReach _ _ _))

instance ScullSystem.decidableSafeAt (s : ScullSystem τ) (t : τ) :
    (pc : ScullPc) → Decidable (s.SafeAt t pc)
  | .trimQset => inferInstanceAs (Decidable (SaneGeometry _ _))
  | .body op quantum qset =>
    inferInstanceAs (Decidable ((_ = _ ∧ _ = _) ∧ op.Reaches quantum qset (s.fpos t)))
  | .closed | .openLock | .trimList | .trimQuantum | .trimData | .user | .quantum _ | .qset _ _
  | .lock _ _ _ => inferInstanceAs (Decidable True)

instance ScullSystem.decidableSafeStep (s : ScullSystem τ) :
    (act : ScullAct τ) → Decidable (s.SafeStep act)
  | .step t _ => inferInstanceAs (Decidable (s.SafeAt t (s.tasks t)))
  | .call _ _ | .ioctl _ => inferInstanceAs (Decidable True)

variable [DecidableEq τ] {kmalloc : Kmalloc} {mode : τ → FMode} {answer : ScullAnswer}
  {op : ScullOp}

/-- A run of safe steps. -/
def ScullSystem.SafeRun (kmalloc : Kmalloc) (mode : τ → FMode) (s : ScullSystem τ)
    (acts : List (ScullAct τ)) : Prop :=
  Trace.Along (fun s act => s.step kmalloc mode act) ScullSystem.SafeStep s acts

instance ScullSystem.decidableSafeRun (s : ScullSystem τ) (acts : List (ScullAct τ)) :
    Decidable (s.SafeRun kmalloc mode acts) :=
  inferInstanceAs
    (Decidable (Trace.Along (fun s act => s.step kmalloc mode act) ScullSystem.SafeStep s acts))

/-- A step that does not fail, that is one of the file, and behind which the invariant
holds. -/
def ScullSystem.Refines (fs : ScullFiles τ) (r : Except Fault (ScullEvent τ × ScullSystem τ)) :
    Prop :=
  Trace.Refines ScullEvent.after (fun s fs => ScullSystem.Inv s fs) fs r

/-- A transfer that is one of the file.  It leaves the geometry alone. -/
structure ScullSystem.Moved (s : ScullSystem τ) (fs : ScullFiles τ) (e : ScullEvent τ)
    (s' : ScullSystem τ) (fs' : ScullFiles τ) : Prop where
  tasks : s'.tasks = s.tasks
  lock : s'.lock = s.lock
  params : s'.params = s.params
  geometry : s'.mem.dev.quantum = s.mem.dev.quantum ∧ s'.mem.dev.qset = s.mem.dev.qset
  after : e.after fs = some fs'
  fpos : ∀ u, s'.fpos u = fs'.fpos u ∧ fs'.fpos u < 2 ^ 63
  shape : s'.mem.Shape fs'.file .settled

namespace ScullSystem.Inv

/-! ### Rules for the steps -/

omit [DecidableEq τ] in
theorem shape_of_holds (h : s.Inv fs) (ht : (s.tasks t).holds = true) :
    s.mem.Shape fs.file (s.tasks t).phase := by
  have hphase : s.phase = (s.tasks t).phase := h.lock.ownerPhase_eq ht
  rw [← hphase]
  exact h.shape

/-- The operations that the tasks may be in after a step of `t`. -/
theorem count_update (h : s.Inv fs) (hcount : ∀ op, pc.op? = some op → op.count ≤ MAX_RW_COUNT)
    (u : τ) (op : ScullOp) (hu : (Function.update s.tasks t pc u).op? = some op) :
    op.count ≤ MAX_RW_COUNT := by
  by_cases hut : u = t
  · rw [hut, Function.update_self] at hu
    exact hcount op hu
  · rw [Function.update_of_ne hut] at hu
    exact h.count u op hu

/-- A step of a task outside of its critical sections. -/
theorem outside (h : s.Inv fs) (hold : (s.tasks t).holds = false) (hnew : pc.holds = false)
    (hcount : ∀ op, pc.op? = some op → op.count ≤ MAX_RW_COUNT) : (s.goto t pc).Inv fs where
  lock := h.lock.stay (hnew.trans hold.symm)
  count := h.count_update hcount
  fpos := h.fpos
  shape := by
    have hphase : (s.goto t pc).phase = s.phase := h.lock.ownerPhase_outside hold
    rw [hphase]
    exact h.shape

/-- A task takes the mutex. -/
theorem acquire (h : s.Inv fs) (hfree : s.lock = none) (hnew : pc.holds = true)
    (hphase : pc.phase = .settled)
    (hcount : ∀ op, pc.op? = some op → op.count ≤ MAX_RW_COUNT) :
    ({ s with lock := some t }.goto t pc).Inv fs where
  lock := h.lock.acquire hfree hnew
  count := h.count_update hcount
  fpos := h.fpos
  shape := by
    have hshape := h.shape
    rw [phase, hfree] at hshape
    show s.mem.Shape fs.file (Function.update s.tasks t pc t).phase
    rw [Function.update_self, hphase]
    exact hshape

/-- A step of the owner of the mutex, which may release it. -/
theorem owner (h : s.Inv fs) (hold : (s.tasks t).holds = true)
    (htasks : s'.tasks = Function.update s.tasks t pc)
    (hlock : s'.lock = if pc.holds then some t else none)
    (hcount : ∀ op, pc.op? = some op → op.count ≤ MAX_RW_COUNT)
    (hfpos : ∀ u, s'.fpos u = fs'.fpos u ∧ fs'.fpos u < 2 ^ 63)
    (hshape : s'.mem.Shape fs'.file pc.phase) : s'.Inv fs' where
  lock := by
    rw [hlock, htasks]
    exact h.lock.owner hold
  count := by
    rw [htasks]
    exact h.count_update hcount
  fpos := hfpos
  shape := by
    rw [phase, hlock, htasks, ownerPhase_owner fun _ hnew => ScullPc.phase_of_not_holds hnew]
    exact hshape

/-- A task goes to another position. -/
theorem fpos_update (h : s.Inv fs) {pos : Nat} (hpos : pos < 2 ^ 63) (t u : τ) :
    Function.update s.fpos t (pos : Int) u = Function.update fs.fpos t pos u ∧
      Function.update fs.fpos t pos u < 2 ^ 63 := by
  by_cases hut : u = t
  · rw [hut, Function.update_self, Function.update_self]
    exact ⟨rfl, hpos⟩
  · rw [Function.update_of_ne hut, Function.update_of_ne hut]
    exact h.fpos u

theorem setPos (h : s.Inv fs) (pos : Nat) (hpos : pos < 2 ^ 63) (t : τ) :
    (s.setPos t pos).Inv (fs.setPos t pos) :=
  ⟨h.lock, h.count, h.fpos_update hpos t, h.shape⟩

/-- Nothing happens. -/
theorem stay (h : s.Inv fs) : Refines fs (.ok (.silent, s)) := ⟨_, _, fs, rfl, rfl, h⟩

/-- A silent step outside of the critical sections. -/
theorem silent (h : s.Inv fs) (hold : (s.tasks t).holds = false) (hnew : pc.holds = false)
    (hcount : ∀ op, pc.op? = some op → op.count ≤ MAX_RW_COUNT) :
    Refines fs (.ok (.silent, s.goto t pc)) :=
  ⟨_, _, fs, rfl, rfl, h.outside hold hnew hcount⟩

omit [DecidableEq τ] in
theorem count_of_none (hop : pc.op? = none) (op : ScullOp) (h : pc.op? = some op) :
    op.count ≤ MAX_RW_COUNT := by
  rw [hop] at h
  cases h

/-! ### The mutex -/

theorem mutexLockInterruptible (h : s.Inv fs) {fail : ScullPc}
    (hold : (s.tasks t).holds = false) (hnew : pc.holds = true) (hphase : pc.phase = .settled)
    (hcount : ∀ op, pc.op? = some op → op.count ≤ MAX_RW_COUNT) (hfail : fail.holds = false)
    (hop : fail.op? = none) :
    Refines fs (.ok (s.mutexLockInterruptible t answer fail pc)) := by
  unfold ScullSystem.mutexLockInterruptible
  split
  · rename_i hfree
    exact ⟨_, _, fs, rfl, rfl, h.acquire hfree hnew hphase hcount⟩
  · split
    · exact ⟨_, _, fs, rfl, rfl, h.outside hold hfail (count_of_none hop)⟩
    · exact h.stay

/-! ### `scull_open` -/

/-- Where a step of `scull_trim` leads to. -/
structure TrimPlace (pc pc' : ScullPc) : Prop where
  op : pc'.op? = none
  opened : pc'.opened = true
  inBody : pc'.inBody = false
  loaded : ∀ dev, pc'.Loaded dev
  next : pc ≠ .trimData ∧ pc'.holds = true ∨ pc = .trimData ∧ pc' = .user

/-- A step of `scull_trim`, whoever has the mutex. -/
theorem trim_spec (h : s.Inv fs) (kmalloc : Kmalloc) (hsafe : s.SafeStep (.step t answer))
    (hholds : (s.tasks t).holds = true) (hop : (s.tasks t).op? = none) :
    ∃ e mem fpos pc fs', (∀ lock, { s with lock := lock }.unlockedStep kmalloc t answer =
        .ok (e, { s with lock := lock, mem := mem, fpos := fpos }.goto t pc)) ∧
      e.after fs = some fs' ∧
      ((∀ u, fpos u = fs'.fpos u ∧ fs'.fpos u < 2 ^ 63) ∧ mem.Shape fs'.file pc.phase) ∧
      TrimPlace (s.tasks t) pc := by
  have hshape := h.shape_of_holds hholds
  unfold unlockedStep ScullSystem.taskStep
  cases hpc : s.tasks t with
  | trimList =>
    rw [hpc] at hshape
    obtain ⟨items, hheld⟩ := hshape
    obtain ⟨m', htrim, hdev, hbare⟩ :=
      ScullMem.trimList_spec hheld.toLayout hheld.qset_pos hheld.qset_eq hheld.data_eq
    refine ⟨.trimmed, m', s.fpos, .trimQuantum, ⟨.empty fs.file.quantum, fs.fpos⟩, fun lock => ?_,
      rfl, ⟨h.fpos, hbare, ?_, rfl⟩, rfl, rfl, rfl, fun _ => trivial, Or.inl ⟨by simp, rfl⟩⟩
    · simp only [hpc, htrim, ok_bind]
      rfl
    · rw [hdev]
  | trimQuantum =>
    have htrimmed : s.mem.Trimmed fs.file := by
      rw [hpc] at hshape
      exact hshape
    refine ⟨.silent, s.mem.trimQuantum s.params.scullQuantum, s.fpos, .trimQset, fs,
      fun lock => by simp only [hpc]; rfl, rfl, ⟨h.fpos, ?_⟩, rfl, rfl, rfl, fun _ => trivial,
      Or.inl ⟨by simp, rfl⟩⟩
    exact ⟨⟨htrimmed.qsets, htrimmed.arrays, htrimmed.quanta⟩, htrimmed.size_eq, htrimmed.file_eq⟩
  | trimQset =>
    have htrimmed : s.mem.Trimmed fs.file := by
      rw [hpc] at hshape
      exact hshape
    rw [SafeStep, hpc] at hsafe
    refine ⟨.shaped s.mem.dev.quantum, s.mem.trimQset s.params.scullQset, s.fpos, .trimData,
      ⟨.empty s.mem.dev.quantum.toNat, fs.fpos⟩, fun lock => by simp only [hpc]; rfl, rfl,
      ⟨h.fpos, ?_⟩, rfl, rfl, rfl, fun _ => trivial, Or.inl ⟨by simp, rfl⟩⟩
    refine ⟨⟨⟨htrimmed.qsets, htrimmed.arrays, htrimmed.quanta⟩, htrimmed.size_eq, rfl⟩, ?_, hsafe⟩
    exact (Int.toNat_of_nonneg (Int.le_of_lt hsafe.1)).symm
  | trimData =>
    rw [hpc] at hshape
    obtain ⟨htrimmed, hquantum, hsane⟩ := hshape
    have hheld := @ScullMem.Bare.holds s.mem.trimData
      ⟨htrimmed.qsets, htrimmed.arrays, htrimmed.quanta⟩ hsane rfl htrimmed.size_eq
    refine ⟨.opened t, s.mem.trimData, Function.update s.fpos t 0, .user, fs.setPos t 0,
      fun lock => by simp only [hpc]; rfl, rfl, ⟨h.fpos_update (Nat.two_pow_pos 63) t, ?_⟩, rfl,
      rfl, rfl, fun _ => trivial, Or.inr ⟨rfl, rfl⟩⟩
    have hfile : fs.file = .empty s.mem.dev.quantum.toNat := by
      rw [htrimmed.file_eq, hquantum]
      rfl
    show s.mem.trimData.Shape fs.file .settled
    rw [hfile]
    exact hheld.shape
  | closed | openLock | user | quantum | qset | lock =>
    rw [hpc] at hholds
    cases hholds
  | body op quantum qset =>
    rw [hpc] at hop
    cases hop

/-- A device is trimmed under the mutex. -/
theorem openStep (h : s.Inv fs) (hsafe : s.SafeStep (.step t answer))
    (hholds : (s.tasks t).holds = true) (hop : (s.tasks t).op? = none) :
    Refines fs (s.taskStep kmalloc t answer) := by
  obtain ⟨e, mem, fpos, pc, fs', hstep, hafter, hnext, hplace⟩ :=
    h.trim_spec kmalloc hsafe hholds hop
  have hlock := (h.lock t).mpr hholds
  have hinv (lock : Option τ) (hpc : lock = if pc.holds then some t else none) :
      ({ s with lock := lock, mem := mem, fpos := fpos }.goto t pc).Inv fs' :=
    h.owner hholds rfl hpc (count_of_none hplace.op) hnext.1 hnext.2
  rcases hplace.next with ⟨hne, hpc⟩ | ⟨hpc, rfl⟩
  · refine ⟨e, _, fs', ?_, hafter, hinv s.lock (by rw [hlock, hpc]; rfl)⟩
    rw [← hstep s.lock]
    unfold unlockedStep
    split
    · rename_i hdata
      exact absurd hdata hne
    · rfl
  · refine ⟨e, _, fs', ?_, hafter, hinv none rfl⟩
    have hunlock : ({ s with mem := s.mem.trimData } : ScullSystem τ).mutexUnlock t =
        .ok { s with mem := s.mem.trimData, lock := none } := if_pos hlock
    rw [← hstep none]
    unfold unlockedStep ScullSystem.taskStep
    simp only [hpc, hunlock, ok_bind]

/-! ### `scull_read` and `scull_write` -/

/-- A read is a read of the file. -/
theorem readBody (h : s.Inv fs) {items : List ListItem}
    (hheld : s.mem.Holds s.mem.dev.qset.toNat items fs.file) {count : Nat}
    (hcount : count ≤ MAX_RW_COUNT) :
    ∃ e s' fs', s.body kmalloc t answer s.mem.dev.quantum s.mem.dev.qset (.read count) =
      .ok (e, s') ∧ s.Moved fs e s' fs' := by
  obtain ⟨hpos_eq, hpos⟩ := h.fpos t
  obtain ⟨r, hread, hmem, hresult⟩ := @ScullMem.Holds.read _ _ _ _ kmalloc answer _ _ hheld hpos
    (Nat.lt_of_le_of_lt hcount (by decide))
  rw [← hheld.quantum_eq, ← hheld.qset_eq, ← hpos_eq] at hread
  have hshape : r.mem.Shape fs.file .settled := by
    rw [hmem]
    exact ⟨_, hheld⟩
  have hdev : r.mem.dev.quantum = s.mem.dev.quantum ∧ r.mem.dev.qset = s.mem.dev.qset := by
    rw [hmem]
    exact ⟨rfl, rfl⟩
  have hbody : s.body kmalloc t answer s.mem.dev.quantum s.mem.dev.qset (.read count) =
      .ok (.read t (s.fpos t) count r.bytes r.ret, { s with mem := r.mem }.setPos t r.pos) := by
    rw [ScullSystem.body, hread]
    rfl
  rcases hresult with ⟨hret, hbytes, hnext⟩ | ⟨hret, hnext, -, hbytes, hshort⟩
  · refine ⟨_, _, fs.setPos t (fs.fpos t + (fs.file.read (fs.fpos t) count).length), hbody, rfl,
      rfl, rfl, hdev, (if_pos hpos_eq).trans (if_pos ⟨hret, hbytes⟩), ?_, hshape⟩
    have hend := fs.file.read_end (fs.fpos t) count
    have hsize := hheld.size_lt
    rw [hnext, ← Nat.cast_add]
    exact h.fpos_update (by omega) t
  · have hfail : ¬ (r.ret = (fs.file.read (fs.fpos t) count).length ∧
        r.bytes = fs.file.read (fs.fpos t) count) := by
      intro hno
      rw [hno.2] at hshort
      exact Nat.lt_irrefl _ hshort
    refine ⟨_, _, fs, hbody, rfl, rfl, rfl, hdev,
      (if_pos hpos_eq).trans ((if_neg hfail).trans (if_pos ⟨hret, hbytes, hshort⟩)), ?_, hshape⟩
    have hsame := h.fpos_update hpos t
    rw [Function.update_eq_self] at hsame
    rw [hnext]
    exact hsame

/-- A write is a write to the file. -/
theorem writeBody (h : s.Inv fs) {items : List ListItem}
    (hheld : s.mem.Holds s.mem.dev.qset.toNat items fs.file) {buf : List Byte}
    (hreach : InReach s.mem.dev.quantum.toNat s.mem.dev.qset.toNat (s.fpos t).toNat) :
    ∃ e s' fs', s.body kmalloc t answer s.mem.dev.quantum s.mem.dev.qset (.write buf) =
      .ok (e, s') ∧ s.Moved fs e s' fs' := by
  obtain ⟨hpos_eq, hpos⟩ := h.fpos t
  rw [hpos_eq, hheld.quantum_eq, Int.toNat_natCast, Int.toNat_natCast] at hreach
  obtain ⟨r, hwrite, hresult⟩ := hheld.write hreach kmalloc answer buf
  rw [← hheld.quantum_eq, ← hheld.qset_eq, ← hpos_eq] at hwrite
  have hbody : s.body kmalloc t answer s.mem.dev.quantum s.mem.dev.qset (.write buf) =
      .ok (.written t (s.fpos t) buf r.stored r.ret, { s with mem := r.mem }.setPos t r.pos) := by
    rw [ScullSystem.body, hwrite]
    rfl
  have hdev {items' : List ListItem} {f : ScullFile}
      (hheld' : r.mem.Holds s.mem.dev.qset.toNat items' f)
      (hquantum : f.quantum = fs.file.quantum) :
      r.mem.dev.quantum = s.mem.dev.quantum ∧ r.mem.dev.qset = s.mem.dev.qset :=
    ⟨by rw [hheld'.quantum_eq, hheld.quantum_eq, hquantum],
      hheld'.qset_eq.trans hheld.qset_eq.symm⟩
  have hsame := h.fpos_update hpos t
  rw [Function.update_eq_self] at hsame
  rcases hresult with ⟨hret, hstored, hnext, -, items', hheld'⟩ | ⟨bytes, hstored, hlen, hresult⟩
  · refine ⟨_, _, fs, hbody, rfl, rfl, rfl, hdev hheld' rfl, (if_pos hpos_eq).trans ?_, ?_,
      hheld'.shape⟩
    · rw [hstored]
      exact if_pos hret
    · rw [hnext]
      exact hsame
  · rcases hresult with ⟨hret, hbytes, hnext, items', hheld'⟩ |
      ⟨hret, hnext, -, ⟨k, hk, hbytes⟩, items', hheld'⟩
    · rw [hlen] at hret hbytes hnext hheld'
      let pos := fs.fpos t + fs.file.room (fs.fpos t) buf.length
      let file := (fs.file.store (fs.fpos t) bytes).grow pos
      have hshape : r.mem.Shape file .settled := hheld'.shape
      refine ⟨_, _, ScullFiles.setPos ⟨file, fs.fpos⟩ t pos, hbody, rfl, rfl, rfl, hdev hheld' rfl,
        (if_pos hpos_eq).trans ?_, ?_, hshape⟩
      · rw [hstored]
        exact if_pos ⟨hret, hbytes⟩
      · have hsize : max fs.file.size pos < 2 ^ 63 := hheld'.size_lt
        rw [hnext, ← Nat.cast_add]
        exact h.fpos_update (by omega) t
    · rw [hlen] at hk hbytes
      refine ⟨_, _, { fs with file := fs.file.store (fs.fpos t) bytes }, hbody, rfl, rfl, rfl,
        hdev hheld' rfl, (if_pos hpos_eq).trans ?_, ?_, hheld'.shape⟩
      · rw [hstored]
        refine (if_neg fun hno => ?_).trans (if_pos ⟨hret, hlen, k, hk, hbytes⟩)
        rw [hret] at hno
        exact absurd hno.1 (by unfold EFAULT; omega)
      · rw [hnext]
        exact hsame

/-- What a call does under the mutex is what it does to the file. -/
theorem body (h : s.Inv fs) (kmalloc : Kmalloc) {op : ScullOp} {quantum qset : Int}
    (hpc : s.tasks t = .body op quantum qset) (hsafe : s.SafeStep (.step t answer)) :
    ∃ e s' fs', s.body kmalloc t answer quantum qset op = .ok (e, s') ∧ s.Moved fs e s' fs' := by
  have hholds : (s.tasks t).holds = true := by
    rw [hpc]
    rfl
  have hshape := h.shape_of_holds hholds
  have hcount := h.count t op (by rw [hpc]; rfl)
  rw [hpc] at hshape
  rw [SafeStep, hpc] at hsafe
  obtain ⟨items, hheld⟩ := hshape
  obtain ⟨⟨rfl, rfl⟩, hreach⟩ := hsafe
  cases op with
  | read count => exact h.readBody hheld hcount
  | write buf => exact h.writeBody hheld hreach

/-- Behind its transfer a call gives the mutex back. -/
theorem bodyStep (h : s.Inv fs) (kmalloc : Kmalloc) {op : ScullOp} {quantum qset : Int}
    (hpc : s.tasks t = .body op quantum qset) (hsafe : s.SafeStep (.step t answer)) :
    ∃ e, ∃ s' : ScullSystem τ, ∃ fs', s.taskStep kmalloc t answer = .ok (e, s'.goto t .user) ∧
      e.after fs = some fs' ∧
      (s'.goto t .user).Inv fs' ∧ s'.tasks = s.tasks ∧ s'.lock = none := by
  obtain ⟨e, s', fs', hbody, hmoved⟩ := h.body kmalloc hpc hsafe
  have hholds : (s.tasks t).holds = true := by
    rw [hpc]
    rfl
  have hunlock : s'.mutexUnlock t = .ok { s' with lock := none } :=
    if_pos (hmoved.lock.trans ((h.lock t).mpr hholds))
  have htasks : Function.update s'.tasks t .user = Function.update s.tasks t .user := by
    rw [hmoved.tasks]
  refine ⟨e, { s' with lock := none }, fs', ?_, hmoved.after, ?_, hmoved.tasks, rfl⟩
  · unfold ScullSystem.taskStep
    simp only [hpc, hbody, hunlock, ok_bind]
    rfl
  · exact @owner _ _ _ _ _ _ .user _ h hholds htasks rfl (count_of_none rfl) hmoved.fpos
      hmoved.shape

/-! ### All steps -/

theorem taskStep (h : s.Inv fs) (hsafe : s.SafeStep (.step t answer)) :
    Refines fs (s.taskStep kmalloc t answer) := by
  cases hpc : s.tasks t with
  | trimList | trimQuantum | trimQset | trimData =>
    exact h.openStep hsafe (by rw [hpc]; rfl) (by rw [hpc]; rfl)
  | body op quantum qset =>
    obtain ⟨e, s', fs', hstep, hafter, hinv, -, -⟩ := h.bodyStep kmalloc hpc hsafe
    exact ⟨e, _, fs', hstep, hafter, hinv⟩
  | closed | user =>
    unfold ScullSystem.taskStep
    simp only [hpc]
    exact h.stay
  | openLock =>
    unfold ScullSystem.taskStep
    simp only [hpc]
    exact h.mutexLockInterruptible (by rw [hpc]; rfl) rfl rfl (count_of_none rfl) rfl rfl
  | quantum op =>
    unfold ScullSystem.taskStep
    simp only [hpc]
    exact h.silent (by rw [hpc]; rfl) rfl fun op' hop' => h.count t op' (by rw [hpc]; exact hop')
  | qset op quantum =>
    unfold ScullSystem.taskStep
    simp only [hpc]
    exact h.silent (by rw [hpc]; rfl) rfl fun op' hop' => h.count t op' (by rw [hpc]; exact hop')
  | lock op quantum qset =>
    unfold ScullSystem.taskStep
    simp only [hpc]
    exact h.mutexLockInterruptible (by rw [hpc]; rfl) rfl rfl
      (fun op' hop' => h.count t op' (by rw [hpc]; exact hop')) rfl rfl

/-- A seek is a seek in the file. -/
theorem llseek (h : s.Inv fs) (off : Int64) (whence : Int) (t : τ) :
    Refines fs (.ok (match scullLlseek s.mem.dev.size (s.fpos t) off.toInt whence with
      | none => (.sought t off.toInt whence (-EINVAL), s)
      | some newpos => (.sought t off.toInt whence newpos, s.setPos t newpos))) := by
  obtain ⟨hpos_eq, -⟩ := h.fpos t
  rw [h.shape.size_eq.1, hpos_eq]
  cases hseek : scullLlseek fs.file.size (fs.fpos t) off.toInt whence with
  | none =>
    refine ⟨_, s, fs, rfl, ?_, h⟩
    show fs.sought t off.toInt whence (-EINVAL) = _
    rw [ScullFiles.sought, hseek]
    rfl
  | some newpos =>
    have hrange := scullLlseek_range hseek
    have hnewpos : ((newpos.toNat : Nat) : Int) = newpos := Int.toNat_of_nonneg hrange.1
    refine ⟨_, s.setPos t newpos, fs.setPos t newpos.toNat, rfl, ?_, ?_⟩
    · show fs.sought t off.toInt whence newpos = _
      rw [ScullFiles.sought, hseek]
      exact if_pos rfl
    · have hset := h.setPos newpos.toNat (by omega) t
      rw [hnewpos] at hset
      exact hset

theorem enter (h : s.Inv fs) (t : τ) (c : ScullCall) : Refines fs (.ok (s.enter mode t c)) := by
  have hclosed (hpc : s.tasks t = .closed) : (s.tasks t).holds = false := by
    rw [hpc]
    rfl
  have huser (hpc : s.tasks t = .user) : (s.tasks t).holds = false := by
    rw [hpc]
    rfl
  unfold ScullSystem.enter
  split
  · rename_i hpc
    split
    · exact h.silent (hclosed hpc) rfl (count_of_none rfl)
    · have hopened : ((s.setPos t 0).goto t .user).Inv (fs.setPos t 0) :=
        outside (h.setPos 0 (by decide) t) (hclosed hpc) rfl (count_of_none rfl)
      exact ⟨_, _, _, rfl, rfl, hopened⟩
  · rename_i hpc
    exact ⟨_, _, fs, rfl, rfl, h.outside (huser hpc) rfl (count_of_none rfl)⟩
  · exact h.llseek _ _ t
  · rename_i hpc
    split
    · refine h.silent (huser hpc) rfl fun op hop => ?_
      rw [← Option.some.inj hop]
      exact ScullOp.count_clip _
    · exact h.stay
  · exact h.stay

/-- A safe step is a step of the file. -/
theorem step (h : s.Inv fs) (kmalloc : Kmalloc) (mode : τ → FMode) {act : ScullAct τ}
    (hsafe : s.SafeStep act) : Refines fs (s.step kmalloc mode act) := by
  cases act with
  | call t c => exact h.enter t c
  | step t answer => exact h.taskStep hsafe
  | ioctl c => exact ⟨_, _, fs, rfl, rfl, h.lock, h.count, h.fpos, h.shape⟩

/-- A safe run is a run of the file. -/
theorem run (h : s.Inv fs) {acts : List (ScullAct τ)} (hsafe : s.SafeRun kmalloc mode acts) :
    ∃ events s' fs', s.run kmalloc mode acts = .ok (events, s') ∧
      ScullEvent.replay fs events = some fs' ∧ s'.Inv fs' :=
  Trace.run_refines (fun h hsafe => h.step kmalloc mode hsafe) h hsafe

omit [DecidableEq τ] in
/-- A device that nobody has opened. -/
theorem init {params : ScullParams} (h : SaneGeometry params.scullQuantum params.scullQset) :
    (ScullSystem.init params : ScullSystem τ).Inv
      ⟨.empty params.scullQuantum.toNat, fun _ => 0⟩ where
  lock := Guards.free fun _ => rfl
  count _ op hop := by cases hop
  fpos _ := ⟨rfl, Nat.two_pow_pos 63⟩
  shape := (ScullMem.Bare.holds ⟨Heap.Owns.empty, Heap.Owns.empty, Heap.Owns.empty⟩ h rfl rfl).shape

end ScullSystem.Inv

end Invariant

end AesdChar.Scull
