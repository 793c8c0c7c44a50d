import AesdChar.CodeLib.Counting
import AesdChar.Scull.Bare.Runs

/-!
# The single-open device

The first device of `scull/access.c`: a bare device that is open once at most.  The
atomic counter `scull_s_available` is one when the device is free.  A task that opens the
device decrements it, and increments it again if it was not the first to do so, so
an open may fail while nobody has the device.

`scull_s_open` empties the device without the mutex.  `single_run_file` says that this
is enough: the file that opens the device is the only one, so the device is a sparse
file all the same.  And nobody can change the geometry while a call has it loaded.
-/

namespace AesdChar.Scull

open CodeLib CodeLib.CInt CodeLib.Mutex

/-! ## The device -/

/-- Where a task stands: outside, in front of the two operations of `scull_s_open` on the
counter, inside, and in front of the one of `scull_s_release`. -/
inductive SinglePc
  | out
  | dec
  | undo
  | inside
  | inc
deriving DecidableEq, Repr

/-- The counter, and the device.  What a task does inside is in `dev`. -/
structure SingleSystem (τ : Type) where
  available : Int
  gate : τ → SinglePc
  dev : ScullSystem τ

section Definitions

variable {τ : Type} [DecidableEq τ]

namespace SingleSystem

def goto (s : SingleSystem τ) (t : τ) (pc : SinglePc) : SingleSystem τ :=
  { s with gate := Function.update s.gate t pc }

/-- The part of `scull_s_open` that is copied from the bare device. -/
def openBare (mode : τ → FMode) (t : τ) (s : SingleSystem τ) : ScullEvent τ × SingleSystem τ :=
  if mode t = ⟨false, true⟩ then
    (.silent, { s with dev := s.dev.goto t .trimList }.goto t .inside)
  else (.opened t, { s with dev := (s.dev.setPos t 0).goto t .user }.goto t .inside)

/-- The next step of a task. -/
def taskStep (kmalloc : Kmalloc) (mode : τ → FMode) (t : τ) (answer : ScullAnswer)
    (s : SingleSystem τ) : Except Fault (ScullEvent τ × SingleSystem τ) :=
  match s.gate t with
  | .out => return (.silent, s)
  | .dec =>
    let available := int32 (s.available - 1)
    if available = 0 then return { s with available := available }.openBare mode t
    else return (.silent, { s with available := available }.goto t .undo)
  | .undo =>
    return (.returned t (-EBUSY), { s with available := int32 (s.available + 1) }.goto t .out)
  | .inside => do
    let (e, dev) ← s.dev.unlockedStep kmalloc t answer
    return (e, { s with dev := dev })
  | .inc => return (.returned t 0, { s with available := int32 (s.available + 1) }.goto t .out)

/-- A task that is in no call enters one. -/
def enter (mode : τ → FMode) (t : τ) (c : ScullCall) (s : SingleSystem τ) :
    ScullEvent τ × SingleSystem τ :=
  match s.gate t, c with
  | .out, .open => (.silent, s.goto t .dec)
  | .inside, .release =>
    if s.dev.tasks t = .user then
      (.silent, { s with dev := s.dev.goto t .closed }.goto t .inc)
    else (.silent, s)
  | .inside, c =>
    let (e, dev) := s.dev.enter mode t c
    (e, { s with dev := dev })
  | _, _ => (.silent, s)

/-- One step. -/
def step (kmalloc : Kmalloc) (mode : τ → FMode) (s : SingleSystem τ) :
    ScullAct τ → Except Fault (ScullEvent τ × SingleSystem τ)
  | .call t c => return s.enter mode t c
  | .step t answer => s.taskStep kmalloc mode t answer
  | .ioctl c =>
    let params := (scullIoctl c.env c.cmd c.arg s.dev.params).params
    return (.silent, { s with dev := { s.dev with params := params } })

/-- A run, with what happened in it. -/
def run (kmalloc : Kmalloc) (mode : τ → FMode) (s : SingleSystem τ) (acts : List (ScullAct τ)) :
    Except Fault (List (ScullEvent τ) × SingleSystem τ) :=
  Mealy.runExcept (fun s act => s.step kmalloc mode act) s acts

/-- The device as `scull_access_init` leaves it. -/
def init (params : ScullParams) : SingleSystem τ := ⟨1, fun _ => .out, .init params⟩

end SingleSystem

end Definitions

/-! ## One file at most -/

/-- The task has decremented the counter. -/
def SinglePc.taken : SinglePc → Bool
  | .undo | .inside | .inc => true
  | _ => false

/-- The device is open. -/
def SinglePc.holds : SinglePc → Bool
  | .inside | .inc => true
  | _ => false

section Gate

variable {τ : Type} {s : SingleSystem τ} {t u : τ} {pc : SinglePc} {available : Int}
  {gate : τ → SinglePc}

/-- The counter counts down, and only the first task gets through. -/
structure OpenOnce (available : Int) (gate : τ → SinglePc) : Prop where
  count : Counting (fun _ pc => pc.taken) gate (1 - available)
  unique : ∀ t u, (gate t).holds = true → (gate u).holds = true → u = t

theorem SinglePc.taken_of_holds (h : pc.holds = true) : pc.taken = true := by
  cases pc with
  | inside | inc => rfl
  | _ => cases h

/-- The counter says that the device is free exactly if nobody has it and nobody has
just failed to open it. -/
theorem OpenOnce.eq_one_iff (h : OpenOnce available gate) :
    available = 1 ↔ ∀ t, (gate t).taken = false := by
  rw [← h.count.eq_zero_iff]
  omega

theorem OpenOnce.range [Fintype τ] (h : OpenOnce available gate)
    (hcard : Fintype.card τ < 2 ^ 31) : -2 ^ 31 < available - 1 ∧ available ≤ 1 := by
  have hnonneg := h.count.nonneg
  have hle := h.count.le_card
  omega

variable [DecidableEq τ]

/-- A step that gives nobody the device. -/
theorem holds_of_update (hpc : pc.holds = true → (gate t).holds = true) {x : τ}
    (hx : (Function.update gate t pc x).holds = true) : (gate x).holds = true := by
  by_cases hxt : x = t
  · rw [hxt, Function.update_self] at hx
    rw [hxt]
    exact hpc hx
  · rw [Function.update_of_ne hxt] at hx
    exact hx

/-- Who gets past the counter is alone. -/
theorem OpenOnce.dec (h : OpenOnce available gate) (hold : (gate t).taken = false)
    (hnew : pc.taken = true) (hholds : pc.holds = true → available = 1) :
    OpenOnce (available - 1) (Function.update gate t pc) where
  count := by
    rw [show 1 - (available - 1) = 1 - available + 1 by omega]
    exact h.count.enter hold hnew
  unique v w hv hw := by
    by_cases hnone : pc.holds = true
    · have halone : ∀ x, x ≠ t → (gate x).holds ≠ true := by
        intro x _ hx
        have hfree := h.eq_one_iff.mp (hholds hnone) x
        rw [SinglePc.taken_of_holds hx] at hfree
        cases hfree
      have hat : ∀ x, (Function.update gate t pc x).holds = true → x = t := by
        intro x hx
        by_contra hxt
        rw [Function.update_of_ne hxt] at hx
        exact halone x hxt hx
      rw [hat v hv, hat w hw]
    · have hsame (hno : pc.holds = true) : (gate t).holds = true := absurd hno hnone
      exact h.unique v w (holds_of_update hsame hv) (holds_of_update hsame hw)

/-- A task is through with the device. -/
theorem OpenOnce.inc (h : OpenOnce available gate) (hold : (gate t).taken = true)
    (hnew : pc.taken = false) : OpenOnce (available + 1) (Function.update gate t pc) where
  count := by
    rw [show 1 - (available + 1) = 1 - available - 1 by omega]
    exact h.count.leave hold hnew
  unique v w hv hw := by
    have hsame (hno : pc.holds = true) : (gate t).holds = true := by
      rw [SinglePc.taken_of_holds hno] at hnew
      cases hnew
    exact h.unique v w (holds_of_update hsame hv) (holds_of_update hsame hw)

/-- A step that leaves the counter alone. -/
theorem OpenOnce.stay (h : OpenOnce available gate) (htaken : pc.taken = (gate t).taken)
    (hholds : pc.holds = (gate t).holds) : OpenOnce available (Function.update gate t pc) where
  count := h.count.stay htaken
  unique v w hv hw := by
    have hsame (hx : pc.holds = true) : (gate t).holds = true := by
      rw [← hholds]
      exact hx
    exact h.unique v w (holds_of_update hsame hv) (holds_of_update hsame hw)

variable [Fintype τ]

omit [DecidableEq τ] in
/-- The counter does not overflow on its way down. -/
theorem OpenOnce.int32_dec (h : OpenOnce available gate) (hcard : Fintype.card τ < 2 ^ 31) :
    int32 (available - 1) = available - 1 := by
  have hrange := h.range hcard
  exact int32_of_range (by omega) (by omega)

/-- A task gives back what it has taken from the counter. -/
theorem OpenOnce.back (h : OpenOnce available gate) (hcard : Fintype.card τ < 2 ^ 31)
    (htaken : (gate t).taken = true) :
    OpenOnce (int32 (available + 1)) (Function.update gate t .out) := by
  have hrange := h.range hcard
  have hcount := h.count.pos htaken
  rw [int32_of_range (by omega) (by omega)]
  exact h.inc htaken rfl

end Gate

/-! ## The invariant -/

section Invariant

variable {τ : Type} {s s' : SingleSystem τ} {fs fs' : ScullFiles τ} {t u : τ} {pc : ScullPc}

/-- The file of the device.  While its owner empties it, the device is as if its
owner had the mutex. -/
structure SingleSystem.Inv (s : SingleSystem τ) (fs : ScullFiles τ) : Prop where
  once : OpenOnce s.available s.gate
  inside : ∀ t, (s.dev.tasks t).opened = true ↔ s.gate t = .inside
  closed : ∀ t, s.dev.tasks t ≠ .openLock
  loaded : ∀ t, (s.dev.tasks t).Loaded s.dev.mem.dev
  lock : Guards ScullPc.inBody s.dev.lock s.dev.tasks
  file : ∃ lock, { s.dev with lock := lock }.Inv fs

/-- The geometry is sane when it is stored, and nobody writes behind the last list item
that the loop can count to. -/
def SingleSystem.SafeAt (s : SingleSystem τ) (t : τ) : ScullPc → Prop
  | .trimQset => SaneGeometry s.dev.mem.dev.quantum s.dev.params.scullQset
  | .body op quantum qset => op.Reaches quantum qset (s.dev.fpos t)
  | _ => True

def SingleSystem.SafeStep (s : SingleSystem τ) : ScullAct τ → Prop
  | .step t _ => s.SafeAt t (s.dev.tasks t)
  | _ => True

instance SingleSystem.decidableSafeAt (s : SingleSystem τ) (t : τ) :
    (pc : ScullPc) → Decidable (s.SafeAt t pc)
  | .trimQset => inferInstanceAs (Decidable (SaneGeometry _ _))
  | .body op quantum qset => inferInstanceAs (Decidable (op.Reaches quantum qset (s.dev.fpos t)))
  | .closed | .openLock | .trimList | .trimQuantum | .trimData | .user | .quantum _ | .qset _ _
  | .lock _ _ _ => inferInstanceAs (Decidable True)

instance SingleSystem.decidableSafeStep (s : SingleSystem τ) :
    (act : ScullAct τ) → Decidable (s.SafeStep act)
  | .step t _ => inferInstanceAs (Decidable (s.SafeAt t (s.dev.tasks t)))
  | .call _ _ | .ioctl _ => inferInstanceAs (Decidable True)

variable [DecidableEq τ] {kmalloc : Kmalloc} {mode : τ → FMode} {answer : ScullAnswer}

/-- A run of safe steps. -/
def SingleSystem.SafeRun (kmalloc : Kmalloc) (mode : τ → FMode) (s : SingleSystem τ)
    (acts : List (ScullAct τ)) : Prop :=
  Trace.Along (fun s act => s.step kmalloc mode act) SingleSystem.SafeStep s acts

instance SingleSystem.decidableSafeRun (s : SingleSystem τ) (acts : List (ScullAct τ)) :
    Decidable (s.SafeRun kmalloc mode acts) :=
  inferInstanceAs
    (Decidable (Trace.Along (fun s act => s.step kmalloc mode act) SingleSystem.SafeStep s acts))

/-- A step that does not fail, that is one of the file, and behind which the invariant
holds. -/
def SingleSystem.Refines (fs : ScullFiles τ) (r : Except Fault (ScullEvent τ × SingleSystem τ)) :
    Prop :=
  Trace.Refines ScullEvent.after (fun s fs => SingleSystem.Inv s fs) fs r

namespace SingleSystem.Inv

omit [DecidableEq τ] in
/-- Who does not have the device is in no call. -/
theorem closed_of_outside (h : s.Inv fs) (hgate : s.gate u ≠ .inside) :
    s.dev.tasks u = .closed := by
  have hopened : (s.dev.tasks u).opened ≠ true := fun hopen => hgate ((h.inside u).mp hopen)
  have hlock := h.closed u
  cases hpc : s.dev.tasks u with
  | closed => rfl
  | openLock => exact absurd hpc hlock
  | _ =>
    rw [hpc] at hopened
    exact absurd rfl hopened

omit [DecidableEq τ] in
/-- Whoever else has the device open is the same task. -/
theorem others_closed (h : s.Inv fs) (ht : s.gate t = .inside) (hut : u ≠ t) :
    s.dev.tasks u = .closed :=
  h.closed_of_outside fun hu =>
    hut (h.once.unique t u (by rw [ht]; rfl) (by rw [hu]; rfl))

omit [DecidableEq τ] in
theorem count (h : s.Inv fs) (t : τ) (op : ScullOp) (hop : (s.dev.tasks t).op? = some op) :
    op.count ≤ MAX_RW_COUNT := by
  obtain ⟨lock, hfile⟩ := h.file
  exact hfile.count t op hop

omit [DecidableEq τ] in
/-- Nobody waits for the mutex. -/
theorem free (h : s.Inv fs) (ht : s.gate t = .inside) (hbody : (s.dev.tasks t).inBody = false) :
    s.dev.lock = none := by
  cases howner : s.dev.lock with
  | none => rfl
  | some u =>
    have hu := (h.lock u).mp howner
    by_cases hut : u = t
    · rw [hut, hbody] at hu
      cases hu
    · rw [h.others_closed ht hut] at hu
      cases hu

omit [DecidableEq τ] in
/-- One task has the device, and the other ones are in no call. -/
theorem of_alone (honce : OpenOnce s.available s.gate) (ht : s.gate t = .inside)
    (hself : s.dev.tasks t = pc) (hothers : ∀ u, u ≠ t → s.dev.tasks u = .closed)
    (hopened : pc.opened = true) (hloaded : pc.Loaded s.dev.mem.dev)
    (hlock : s.dev.lock = if pc.inBody then some t else none)
    (hfile : ∃ lock, { s.dev with lock := lock }.Inv fs) : s.Inv fs := by
  refine ⟨honce, fun u => ?_, fun u => ?_, fun u => ?_, fun u => ?_, hfile⟩
  · by_cases hut : u = t
    · rw [hut, hself]
      exact iff_of_true hopened ht
    · rw [hothers u hut]
      refine iff_of_false (fun hno => by cases hno) fun hu => ?_
      exact hut (honce.unique t u (by rw [ht]; rfl) (by rw [hu]; rfl))
  · by_cases hut : u = t
    · rw [hut, hself]
      intro hno
      rw [hno] at hopened
      cases hopened
    · rw [hothers u hut]
      simp
  · by_cases hut : u = t
    · rw [hut, hself]
      exact hloaded
    · rw [hothers u hut]
      trivial
  · by_cases hut : u = t
    · rw [hut, hself, hlock]
      cases pc.inBody <;> simp
    · rw [hothers u hut, hlock]
      refine iff_of_false (fun heq => ?_) (by simp [ScullPc.inBody])
      split at heq
      · exact hut (Option.some.inj heq).symm
      · cases heq

/-- A step of the task that has the device. -/
theorem devStep (h : s.Inv fs) (ht : s.gate t = .inside) {dev : ScullSystem τ}
    (htasks : dev.tasks = Function.update s.dev.tasks t pc) (hopened : pc.opened = true)
    (hloaded : pc.Loaded dev.mem.dev) (hlock : dev.lock = if pc.inBody then some t else none)
    (hfile : ∃ lock, { dev with lock := lock }.Inv fs') : { s with dev := dev }.Inv fs' := by
  refine of_alone h.once ht ?_ (fun u hut => ?_) hopened hloaded hlock hfile
  · show dev.tasks t = pc
    rw [htasks, Function.update_self]
  · show dev.tasks u = .closed
    rw [htasks, Function.update_of_ne hut]
    exact h.others_closed ht hut

omit [DecidableEq τ] in
/-- If its owner does not empty the device, the mutex is as it should be. -/
theorem dev_inv (h : s.Inv fs) (ht : s.gate t = .inside)
    (hpc : (s.dev.tasks t).holds = (s.dev.tasks t).inBody) : s.dev.Inv fs := by
  obtain ⟨lock, hfile⟩ := h.file
  have hlock : lock = s.dev.lock := by
    apply Option.ext
    intro u
    rw [show lock = some u ↔ (s.dev.tasks u).holds = true from hfile.lock u, h.lock u]
    by_cases hut : u = t
    · rw [hut, hpc]
    · rw [h.others_closed ht hut]
      exact Iff.rfl
  rw [hlock] at hfile
  exact hfile

/-- A step of the device is a step of its owner. -/
theorem of_devStep (h : s.Inv fs) (ht : s.gate t = .inside)
    {r : Except Fault (ScullEvent τ × ScullSystem τ)}
    (hr : ∃ e dev pc fs', r = .ok (e, dev) ∧ e.after fs = some fs' ∧
      dev.tasks = Function.update s.dev.tasks t pc ∧ pc.opened = true ∧
      pc.Loaded dev.mem.dev ∧ (dev.lock = if pc.inBody then some t else none) ∧
      ∃ lock, { dev with lock := lock }.Inv fs') :
    Refines fs (do
      let (e, dev) ← r
      return (e, { s with dev := dev })) := by
  obtain ⟨e, dev, pc, fs', hr, hafter, htasks, hopened, hloaded, hlock, hfile⟩ := hr
  refine ⟨e, { s with dev := dev }, fs', ?_, hafter,
    h.devStep ht htasks hopened hloaded hlock hfile⟩
  rw [hr]
  rfl

/-- The device is emptied without the mutex. -/
theorem trimStep (h : s.Inv fs) (kmalloc : Kmalloc) (ht : s.gate t = .inside)
    (hsafe : s.SafeStep (.step t answer)) (hholds : (s.dev.tasks t).holds = true)
    (hbody : (s.dev.tasks t).inBody = false) :
    ∃ e dev pc fs', s.dev.unlockedStep kmalloc t answer = .ok (e, dev) ∧ e.after fs = some fs' ∧
      dev.tasks = Function.update s.dev.tasks t pc ∧ pc.opened = true ∧
      pc.Loaded dev.mem.dev ∧ (dev.lock = if pc.inBody then some t else none) ∧
      ∃ lock, { dev with lock := lock }.Inv fs' := by
  obtain ⟨lock, hfile⟩ := h.file
  have hfree := h.free ht hbody
  have hop : (s.dev.tasks t).op? = none := by
    cases hpc : s.dev.tasks t with
    | body op n q =>
      rw [hpc] at hbody
      cases hbody
    | trimList | trimQuantum | trimQset | trimData => rfl
    | _ =>
      rw [hpc] at hholds
      cases hholds
  have hsafe_dev : ({ s.dev with lock := lock } : ScullSystem τ).SafeStep (.step t answer) := by
    show ScullSystem.SafeAt _ t (s.dev.tasks t)
    replace hsafe : s.SafeAt t (s.dev.tasks t) := hsafe
    cases hpc : s.dev.tasks t with
    | trimQset =>
      rw [hpc] at hsafe
      exact hsafe
    | body op n q =>
      rw [hpc] at hbody
      cases hbody
    | _ => trivial
  obtain ⟨e, mem, fpos, pc, fs', hstep, hafter, hnext, hplace⟩ :=
    hfile.trim_spec kmalloc hsafe_dev hholds hop
  refine ⟨e, _, pc, fs', hstep s.dev.lock, hafter, rfl, hplace.opened, hplace.loaded _, ?_,
    (if pc.holds then some t else none), ?_⟩
  · show s.dev.lock = _
    rw [hfree, hplace.inBody]
    rfl
  · exact hfile.owner hholds rfl rfl (ScullSystem.Inv.count_of_none hplace.op) hnext.1 hnext.2

/-- A step of the task that has the device, outside of `scull_trim`. -/
theorem quietStep (h : s.Inv fs) (ht : s.gate t = .inside)
    (hpc : (s.dev.tasks t).holds = (s.dev.tasks t).inBody) (hbody : pc.inBody = false)
    (hholds : pc.holds = false) (hopened : pc.opened = true) (hloaded : pc.Loaded s.dev.mem.dev)
    (hcount : ∀ op, pc.op? = some op → op.count ≤ MAX_RW_COUNT)
    (hold : (s.dev.tasks t).inBody = false) :
    { s with dev := s.dev.goto t pc }.Inv fs := by
  have hinv : (s.dev.goto t pc).Inv fs :=
    (h.dev_inv ht hpc).outside (hpc.trans hold) hholds hcount
  refine h.devStep ht rfl hopened hloaded ?_ ⟨_, hinv⟩
  show s.dev.lock = _
  rw [h.free ht hold, hbody]
  rfl

/-- A step inside is one of the file. -/
theorem insideStep (h : s.Inv fs) (ht : s.gate t = .inside)
    (hsafe : s.SafeStep (.step t answer)) :
    Refines fs (do
      let (e, dev) ← s.dev.unlockedStep kmalloc t answer
      return (e, { s with dev := dev })) := by
  cases hpc : s.dev.tasks t with
  | closed =>
    have hopened := (h.inside t).mpr ht
    rw [hpc] at hopened
    cases hopened
  | openLock => exact absurd hpc (h.closed t)
  | trimList | trimQuantum | trimQset | trimData =>
    obtain ⟨e, dev, pc, fs', hr⟩ :=
      h.trimStep kmalloc ht hsafe (by rw [hpc]; rfl) (by rw [hpc]; rfl)
    exact h.of_devStep ht ⟨e, dev, pc, fs', hr⟩
  | user =>
    unfold ScullSystem.unlockedStep ScullSystem.taskStep
    simp only [hpc]
    exact ⟨_, _, fs, rfl, rfl, h⟩
  | quantum op =>
    unfold ScullSystem.unlockedStep ScullSystem.taskStep
    simp only [hpc]
    exact ⟨_, _, fs, rfl, rfl, h.quietStep ht (by rw [hpc]; rfl) rfl rfl rfl rfl
      (fun op' hop => h.count t op' (by rw [hpc]; exact hop)) (by rw [hpc]; rfl)⟩
  | qset op n =>
    have hloaded := h.loaded t
    rw [hpc] at hloaded
    unfold ScullSystem.unlockedStep ScullSystem.taskStep
    simp only [hpc]
    exact ⟨_, _, fs, rfl, rfl, h.quietStep ht (by rw [hpc]; rfl) rfl rfl rfl ⟨hloaded, rfl⟩
      (fun op' hop => h.count t op' (by rw [hpc]; exact hop)) (by rw [hpc]; rfl)⟩
  | lock op n q =>
    have hloaded := h.loaded t
    rw [hpc] at hloaded
    have hfree := h.free ht (by rw [hpc]; rfl)
    have hinv := (h.dev_inv ht (by rw [hpc]; rfl)).acquire (t := t) hfree
      (show (ScullPc.body op n q).holds = true from rfl) rfl
      (fun op' hop => h.count t op' (by rw [hpc]; exact hop))
    unfold ScullSystem.unlockedStep ScullSystem.taskStep
    simp only [hpc]
    unfold ScullSystem.mutexLockInterruptible
    rw [if_pos hfree]
    exact ⟨_, _, fs, rfl, rfl, h.devStep ht rfl rfl hloaded rfl ⟨_, hinv⟩⟩
  | body op n q =>
    have hloaded := h.loaded t
    rw [hpc] at hloaded
    replace hsafe : s.SafeAt t (s.dev.tasks t) := hsafe
    rw [hpc] at hsafe
    have hsafe_dev : s.dev.SafeStep (.step t answer) := by
      show s.dev.SafeAt t (s.dev.tasks t)
      rw [hpc]
      exact ⟨hloaded, hsafe⟩
    obtain ⟨e, dev, fs', hstep, hafter, hinv, htasks, hlock⟩ :=
      (h.dev_inv ht (by rw [hpc]; rfl)).bodyStep kmalloc hpc hsafe_dev
    refine h.of_devStep ht ⟨e, dev.goto t .user, .user, fs', ?_, hafter, ?_, rfl, trivial, hlock,
      _, hinv⟩
    · rw [← hstep]
      unfold ScullSystem.unlockedStep
      simp only [hpc]
    · show Function.update dev.tasks t .user = _
      rw [htasks]

/-! ### The counter -/

/-- A step of a task that does not have the device. -/
theorem gateStep (h : s.Inv fs) {available : Int} {gate : SinglePc} (hold : s.gate t ≠ .inside)
    (hnew : gate ≠ .inside) (honce : OpenOnce available (Function.update s.gate t gate)) :
    ({ s with available := available }.goto t gate).Inv fs := by
  refine ⟨honce, fun u => ?_, h.closed, h.loaded, h.lock, h.file⟩
  show (s.dev.tasks u).opened = true ↔ Function.update s.gate t gate u = .inside
  rw [h.inside u]
  by_cases hut : u = t
  · rw [hut, Function.update_self]
    exact iff_of_false hold hnew
  · rw [Function.update_of_ne hut]

omit [DecidableEq τ] in
/-- Nobody has the device while the counter is one. -/
theorem closed_of_one (h : s.Inv fs) (hone : s.available = 1) (t : τ) :
    s.dev.tasks t = .closed := by
  refine h.closed_of_outside fun hu => ?_
  have hfree := h.once.eq_one_iff.mp hone t
  rw [hu] at hfree
  cases hfree

omit [DecidableEq τ] in
/-- A device that nobody has is as it should be. -/
theorem dev_inv_of_one (h : s.Inv fs) (hone : s.available = 1) :
    s.dev.lock = none ∧ s.dev.Inv fs := by
  have hall := h.closed_of_one hone
  have hnone := h.lock.eq_none fun u => by
    rw [hall u]
    rfl
  obtain ⟨lock, hfile⟩ := h.file
  have hlock : lock = none := hfile.lock.eq_none fun u => by
    rw [show ({ s.dev with lock := lock } : ScullSystem τ).tasks u = _ from hall u]
    rfl
  rw [hlock, ← hnone] at hfile
  exact ⟨hnone, hfile⟩

/-- The task that decrements the counter to zero gets the device. -/
theorem openBare (h : s.Inv fs) (ht : s.gate t = .dec) (hone : s.available = 1) :
    Refines fs (.ok (({ s with available := 0 } : SingleSystem τ).openBare mode t)) := by
  have hall := h.closed_of_one hone
  obtain ⟨hnone, hinv⟩ := h.dev_inv_of_one hone
  have honce : OpenOnce 0 (Function.update s.gate t .inside) := by
    have hdec : OpenOnce (s.available - 1) (Function.update s.gate t .inside) :=
      h.once.dec (by rw [ht]; rfl) rfl fun _ => hone
    rw [hone] at hdec
    exact hdec
  have hclosed : (s.dev.tasks t).holds = false := by
    rw [hall t]
    rfl
  have hothers (pc : ScullPc) (u : τ) (hut : u ≠ t) :
      Function.update s.dev.tasks t pc u = .closed := by
    rw [Function.update_of_ne hut]
    exact hall u
  unfold SingleSystem.openBare
  split
  · have hself : Function.update s.dev.tasks t .trimList t = .trimList := Function.update_self ..
    have hdev := hinv.acquire (t := t) hnone (show ScullPc.trimList.holds = true from rfl) rfl
      (ScullSystem.Inv.count_of_none rfl)
    exact ⟨_, _, fs, rfl, rfl, of_alone honce (Function.update_self ..) hself (hothers _) rfl
      trivial hnone ⟨_, hdev⟩⟩
  · have hself : Function.update s.dev.tasks t .user t = .user := Function.update_self ..
    have hdev := ScullSystem.Inv.outside (t := t) (hinv.setPos 0 (by decide) t) hclosed
      (show ScullPc.user.holds = false from rfl) (ScullSystem.Inv.count_of_none rfl)
    exact ⟨_, _, fs.setPos t 0, rfl, rfl, of_alone honce (Function.update_self ..) hself
      (hothers _) rfl trivial hnone ⟨_, hdev⟩⟩

variable [Fintype τ]

theorem taskStep (h : s.Inv fs) (hcard : Fintype.card τ < 2 ^ 31)
    (hsafe : s.SafeStep (.step t answer)) :
    Refines fs (s.taskStep kmalloc mode t answer) := by
  have hback (hgate : s.gate t = .undo ∨ s.gate t = .inc) :
      ({ s with available := int32 (s.available + 1) }.goto t .out).Inv fs := by
    rcases hgate with hgate | hgate
    · exact h.gateStep (by rw [hgate]; simp) (by simp) (h.once.back hcard (by rw [hgate]; rfl))
    · exact h.gateStep (by rw [hgate]; simp) (by simp) (h.once.back hcard (by rw [hgate]; rfl))
  unfold SingleSystem.taskStep
  cases ht : s.gate t with
  | out => exact ⟨_, _, fs, rfl, rfl, h⟩
  | dec =>
    simp only [h.once.int32_dec hcard]
    split
    · rename_i hzero
      rw [hzero]
      exact h.openBare ht (by omega)
    · have honce : OpenOnce (s.available - 1) (Function.update s.gate t .undo) :=
        h.once.dec (by rw [ht]; rfl) rfl fun hno => by cases hno
      exact ⟨_, _, fs, rfl, rfl, h.gateStep (by rw [ht]; simp) (by simp) honce⟩
  | undo => exact ⟨_, _, fs, rfl, rfl, hback (Or.inl ht)⟩
  | inside => exact h.insideStep ht hsafe
  | inc => exact ⟨_, _, fs, rfl, rfl, hback (Or.inr ht)⟩

/-! ### All steps -/

omit [Fintype τ] in
/-- The task that has the device enters a call. -/
theorem insideEnter (h : s.Inv fs) (ht : s.gate t = .inside) (c : ScullCall) (hc : c ≠ .release) :
    ∃ e dev fs', s.dev.enter mode t c = (e, dev) ∧ e.after fs = some fs' ∧
      { s with dev := dev }.Inv fs' := by
  unfold ScullSystem.enter
  split
  · rename_i hpc
    have hopened := (h.inside t).mpr ht
    rw [hpc] at hopened
    cases hopened
  · exact absurd rfl hc
  · rename_i off whence hpc
    obtain ⟨e, dev, fs', hseek, hafter, hinv⟩ :=
      (h.dev_inv ht (by rw [hpc]; rfl)).llseek off whence t
    refine ⟨e, dev, fs', Except.ok.inj hseek, hafter, ?_⟩
    have hfree := h.free ht (by rw [hpc]; rfl)
    have hdev : dev = s.dev ∨ ∃ newpos, dev = s.dev.setPos t newpos := by
      have heq := Except.ok.inj hseek
      split at heq
      · exact Or.inl (Prod.mk.inj heq).2.symm
      · exact Or.inr ⟨_, (Prod.mk.inj heq).2.symm⟩
    have hsame : s.dev.tasks = Function.update s.dev.tasks t .user := by
      rw [← hpc, Function.update_eq_self]
    rcases hdev with rfl | ⟨newpos, rfl⟩
    · exact h.devStep ht hsame rfl trivial hfree ⟨_, hinv⟩
    · exact h.devStep ht hsame rfl trivial hfree ⟨_, hinv⟩
  · rename_i op hpc
    split
    · refine ⟨_, _, fs, rfl, rfl, h.quietStep ht (by rw [hpc]; rfl) rfl rfl rfl trivial
        (fun op' hop => ?_) (by rw [hpc]; rfl)⟩
      rw [← Option.some.inj hop]
      exact ScullOp.count_clip _
    · exact ⟨_, _, fs, rfl, rfl, h⟩
  · exact ⟨_, _, fs, rfl, rfl, h⟩

omit [Fintype τ] in
/-- The task that has the device closes it. -/
theorem release (h : s.Inv fs) (ht : s.gate t = .inside) (hpc : s.dev.tasks t = .user) :
    ({ s with dev := s.dev.goto t .closed }.goto t .inc).Inv fs := by
  have hall (u : τ) : Function.update s.dev.tasks t .closed u = .closed := by
    by_cases hut : u = t
    · rw [hut, Function.update_self]
    · rw [Function.update_of_ne hut]
      exact h.others_closed ht hut
  have hdev : (s.dev.goto t .closed).Inv fs :=
    (h.dev_inv ht (by rw [hpc]; rfl)).outside (by rw [hpc]; rfl) rfl
      (ScullSystem.Inv.count_of_none rfl)
  refine ⟨h.once.stay (by rw [ht]; rfl) (by rw [ht]; rfl), fun u => ?_, fun u => ?_, fun u => ?_,
    h.lock.stay (by rw [hpc]; rfl), _, hdev⟩
  · show (Function.update s.dev.tasks t .closed u).opened = true ↔
      Function.update s.gate t .inc u = .inside
    rw [hall u]
    refine iff_of_false (fun hno => by cases hno) fun hu => ?_
    by_cases hut : u = t
    · rw [hut, Function.update_self] at hu
      cases hu
    · rw [Function.update_of_ne hut] at hu
      exact hut (h.once.unique t u (by rw [ht]; rfl) (by rw [hu]; rfl))
  · show Function.update s.dev.tasks t .closed u ≠ .openLock
    rw [hall u]
    simp
  · show (Function.update s.dev.tasks t .closed u).Loaded s.dev.mem.dev
    rw [hall u]
    trivial

omit [Fintype τ] in
theorem enter (h : s.Inv fs) (t : τ) (c : ScullCall) :
    Refines fs (.ok (s.enter mode t c)) := by
  unfold SingleSystem.enter
  split
  · rename_i ht
    have honce : OpenOnce s.available (Function.update s.gate t .dec) :=
      h.once.stay (by rw [ht]; rfl) (by rw [ht]; rfl)
    exact ⟨_, _, fs, rfl, rfl, h.gateStep (by rw [ht]; simp) (by simp) honce⟩
  · rename_i ht
    split
    · rename_i hpc
      exact ⟨_, _, fs, rfl, rfl, h.release ht hpc⟩
    · exact ⟨_, _, fs, rfl, rfl, h⟩
  · rename_i ht hc
    obtain ⟨e, dev, fs', henter, hafter, hinv⟩ := h.insideEnter ht _ hc
    rw [henter]
    exact ⟨_, _, fs', rfl, hafter, hinv⟩
  · exact ⟨_, _, fs, rfl, rfl, h⟩

/-- A safe step is a step of the file. -/
theorem step (h : s.Inv fs) (hcard : Fintype.card τ < 2 ^ 31) {act : ScullAct τ}
    (hsafe : s.SafeStep act) : Refines fs (s.step kmalloc mode act) := by
  cases act with
  | call t c => exact h.enter t c
  | step t answer => exact h.taskStep hcard hsafe
  | ioctl c =>
    obtain ⟨lock, hfile⟩ := h.file
    exact ⟨_, _, fs, rfl, rfl, h.once, h.inside, h.closed, h.loaded, h.lock, lock, hfile.lock,
      hfile.count, hfile.fpos, hfile.shape⟩

omit [Fintype τ] [DecidableEq τ] in
/-- Nobody has opened the device. -/
theorem init {params : ScullParams} (h : SaneGeometry params.scullQuantum params.scullQset) :
    (SingleSystem.init params : SingleSystem τ).Inv (.init params) where
  once := ⟨Counting.zero fun _ => rfl, fun _ _ ht => by cases ht⟩
  inside _ := iff_of_false (fun hno => by cases hno) (fun hno => by cases hno)
  closed _ := fun hno => by cases hno
  loaded _ := trivial
  lock := Guards.free fun _ => rfl
  file := ⟨none, ScullSystem.Inv.init h⟩

end SingleSystem.Inv

end Invariant

/-! ## Runs -/

section Runs

variable {τ : Type} [DecidableEq τ] [Fintype τ] {s s' : SingleSystem τ} {t : τ}
  {kmalloc : Kmalloc} {mode : τ → FMode} {answer : ScullAnswer} {e : ScullEvent τ}
  {params : ScullParams} {act : ScullAct τ} {acts : List (ScullAct τ)}
  {events : List (ScullEvent τ)}

/-- In a run of safe steps the tasks of a single-open device see one sparse file, although
`scull_s_open` empties it without the mutex.  The geometry that a call has loaded is
always the one of the device. -/
theorem single_run_file (kmalloc : Kmalloc) (mode : τ → FMode) (params : ScullParams)
    (hcard : Fintype.card τ < 2 ^ 31)
    (hsane : SaneGeometry params.scullQuantum params.scullQset) (acts : List (ScullAct τ))
    (hsafe : (SingleSystem.init params).SafeRun kmalloc mode acts) :
    ∃ events s fs, (SingleSystem.init params).run kmalloc mode acts = .ok (events, s) ∧
      ScullEvent.replay (.init params) events = some fs ∧
      (∀ t, s.dev.fpos t = fs.fpos t) ∧ s.dev.mem.dev.size = fs.file.size ∧
      ∀ t, (s.dev.tasks t).Loaded s.dev.mem.dev := by
  obtain ⟨events, s, fs, hrun, hreplay, hinv⟩ :=
    Trace.run_refines (fun h hsafe => SingleSystem.Inv.step h hcard hsafe)
      (SingleSystem.Inv.init hsane) hsafe
  obtain ⟨lock, hfile⟩ := hinv.file
  exact ⟨events, s, fs, hrun, hreplay, fun t => (hfile.fpos t).1, hfile.shape.size_eq.1,
    hinv.loaded⟩

/-- A task opens the device for writing only and writes.  Another one finds it busy, and reads
it when the first one has closed it. -/
def openBusyRead : List (ScullAct Bool) :=
  let steps (t : Bool) (n : Nat) :=
    List.replicate n (ScullAct.step t ⟨false, fun _ => true, true, true, 0⟩)
  .call true .open :: steps true 5 ++ .call true (.op (.write [97, 98, 99])) :: steps true 4 ++
    .call false .open :: steps false 2 ++ .call true .release :: steps true 1 ++
    .call false .open :: steps false 1 ++ .call false (.op (.read 5)) :: steps false 4

example : ((SingleSystem.init smallScull).run Kmalloc.onePage writerReader
    openBusyRead).toOption.map (fun r => r.1.filter (· ≠ .silent)) =
      some [.trimmed, .shaped 2, .opened true, .written true 0 [97, 98, 99] (some [97, 98]) 2,
        .returned false (-EBUSY), .returned true 0, .opened false,
        .read false 0 5 [some 97, some 98] 2] := by
  decide +kernel

theorem single_run_file_openBusyRead :
    ∃ events s fs, (SingleSystem.init smallScull).run Kmalloc.onePage writerReader openBusyRead =
        .ok (events, s) ∧
      ScullEvent.replay (.init smallScull) events = some fs ∧
      (∀ t, s.dev.fpos t = fs.fpos t) ∧ s.dev.mem.dev.size = fs.file.size ∧
      ∀ t, (s.dev.tasks t).Loaded s.dev.mem.dev :=
  single_run_file Kmalloc.onePage writerReader smallScull (by decide) saneGeometry_smallScull
    openBusyRead (by decide +kernel)

omit [Fintype τ] in
/-- What an open that gets through does to the gate. -/
theorem SingleSystem.openBare_gate (mode : τ → FMode) (t : τ) (s : SingleSystem τ) :
    (s.openBare mode t).2.available = s.available ∧
      (s.openBare mode t).2.gate = Function.update s.gate t .inside := by
  unfold SingleSystem.openBare
  split <;> exact ⟨rfl, rfl⟩

omit [Fintype τ] in
theorem OpenOnce.enter (h : OpenOnce s.available s.gate) (mode : τ → FMode) (t : τ)
    (c : ScullCall) :
    OpenOnce (s.enter mode t c).2.available (s.enter mode t c).2.gate := by
  unfold SingleSystem.enter
  split
  · rename_i ht
    exact h.stay (by rw [ht]; rfl) (by rw [ht]; rfl)
  · rename_i ht
    split
    · exact h.stay (by rw [ht]; rfl) (by rw [ht]; rfl)
    · exact h
  · exact h
  · exact h

/-- A step that goes through keeps the counter right. -/
theorem OpenOnce.step (h : OpenOnce s.available s.gate) (hcard : Fintype.card τ < 2 ^ 31)
    (hstep : s.step kmalloc mode act = .ok (e, s')) : OpenOnce s'.available s'.gate := by
  cases act with
  | call t c =>
    have henter := h.enter mode t c
    rw [show s.enter mode t c = (e, s') from Except.ok.inj hstep] at henter
    exact henter
  | ioctl c =>
    obtain ⟨-, rfl⟩ := Prod.mk.inj (Except.ok.inj hstep)
    exact h
  | step t answer =>
    replace hstep : s.taskStep kmalloc mode t answer = .ok (e, s') := hstep
    unfold SingleSystem.taskStep at hstep
    cases ht : s.gate t with
    | out =>
      rw [ht] at hstep
      obtain ⟨-, rfl⟩ := Prod.mk.inj (Except.ok.inj hstep)
      exact h
    | dec =>
      simp only [ht, h.int32_dec hcard] at hstep
      split at hstep
      · rename_i hzero
        obtain ⟨havailable, hgate⟩ :=
          SingleSystem.openBare_gate mode t { s with available := s.available - 1 }
        rw [show SingleSystem.openBare mode t _ = (e, s') from Except.ok.inj hstep]
          at havailable hgate
        rw [show s'.available = _ from havailable, show s'.gate = _ from hgate]
        exact h.dec (by rw [ht]; rfl) rfl fun _ => by omega
      · obtain ⟨-, rfl⟩ := Prod.mk.inj (Except.ok.inj hstep)
        exact h.dec (by rw [ht]; rfl) rfl fun hno => by cases hno
    | undo | inc =>
      rw [ht] at hstep
      obtain ⟨-, rfl⟩ := Prod.mk.inj (Except.ok.inj hstep)
      exact h.back hcard (by rw [ht]; rfl)
    | inside =>
      rw [ht] at hstep
      obtain ⟨⟨e', dev⟩, -, hdev⟩ := bind_eq_ok hstep
      obtain ⟨-, rfl⟩ := Prod.mk.inj (Except.ok.inj hdev)
      exact h

/-- Over every run one task at most has the device open.  An open gets it exactly if no
task is between its decrement of the counter and the increment that undoes it.  So
an open may also fail because another one is about to. -/
theorem single_run_once (hcard : Fintype.card τ < 2 ^ 31)
    (hrun : (SingleSystem.init params).run kmalloc mode acts = .ok (events, s)) :
    (∀ t u, s.gate t = .inside → s.gate u = .inside → u = t) ∧
      (s.available = 1 ↔ ∀ t, (s.gate t).taken = false) ∧
      ∀ t, s.gate t = .dec → ∀ answer, ∃ e s', s.taskStep kmalloc mode t answer = .ok (e, s') ∧
        (s'.gate t = .inside ∧ (∀ u, (s.gate u).taken = false) ∨
          s'.gate t = .undo ∧ ∃ u, (s.gate u).taken = true) := by
  have honce : OpenOnce s.available s.gate := by
    refine Trace.runExcept_keeps (I := fun s => OpenOnce s.available s.gate)
      (fun h hstep => OpenOnce.step h hcard hstep) ?_ hrun
    exact ⟨Counting.zero fun _ => rfl, fun _ _ ht => by cases ht⟩
  refine ⟨fun t u ht hu => honce.unique t u (by rw [ht]; rfl) (by rw [hu]; rfl),
    honce.eq_one_iff, fun t ht answer => ?_⟩
  unfold SingleSystem.taskStep
  simp only [ht, honce.int32_dec hcard]
  split
  · rename_i hzero
    obtain ⟨-, hgate⟩ := SingleSystem.openBare_gate mode t { s with available := s.available - 1 }
    exact ⟨_, _, rfl, Or.inl ⟨(congrFun hgate t).trans (Function.update_self ..),
      honce.eq_one_iff.mp (by omega)⟩⟩
  · rename_i hzero
    refine ⟨_, _, rfl, Or.inr ⟨Function.update_self .., ?_⟩⟩
    by_contra hno
    refine hzero ?_
    rw [honce.eq_one_iff.mpr fun u => ?_]
    · rfl
    · cases htaken : (s.gate u).taken with
      | false => rfl
      | true => exact absurd ⟨u, htaken⟩ hno

/-- One task opens the device, a second one fails to open it, the first one closes it, and
a third one is about to open it. -/
def openWhileUndoing : List (ScullAct (Fin 3)) :=
  let step (t : Fin 3) := ScullAct.step t ⟨false, fun _ => true, true, true, 0⟩
  [.call 0 .open, step 0, .call 1 .open, step 1, .call 0 .release, step 0, .call 2 .open]

/-- Nobody has the device, and the third task fails to open it. -/
theorem single_run_once_openWhileUndoing :
    ∃ events s, (SingleSystem.init smallScull).run Kmalloc.onePage (fun _ => ⟨true, true⟩)
        openWhileUndoing = .ok (events, s) ∧
      (∀ t, s.gate t ≠ .inside) ∧
      ∃ e s', s.taskStep Kmalloc.onePage (fun _ => ⟨true, true⟩) 2
        ⟨false, fun _ => true, true, true, 0⟩ = .ok (e, s') ∧ s'.gate 2 = .undo := by
  have hview : ((SingleSystem.init smallScull).run Kmalloc.onePage (fun _ => ⟨true, true⟩)
      openWhileUndoing).toOption.map (fun r => (r.2.gate 0, r.2.gate 1, r.2.gate 2)) =
        some (.out, .undo, .dec) := by decide +kernel
  obtain ⟨⟨events, s⟩, hok, hgates⟩ := exists_of_view hview
  obtain ⟨h0, hrest⟩ := Prod.mk.inj hgates
  obtain ⟨h1, h2⟩ := Prod.mk.inj hrest
  obtain ⟨e, s', hstep, hgate⟩ := (single_run_once (by decide) hok).2.2 2 h2
    ⟨false, fun _ => true, true, true, 0⟩
  refine ⟨events, s, hok, fun t => ?_, e, s', hstep, ?_⟩
  · match t with
    | 0 => exact fun hno => by cases h0.symm.trans hno
    | 1 => exact fun hno => by cases h1.symm.trans hno
    | 2 => exact fun hno => by cases h2.symm.trans hno
  · rcases hgate with ⟨-, hnone⟩ | ⟨hundo, -⟩
    · have hfree := hnone 1
      rw [show s.gate 1 = .undo from h1] at hfree
      cases hfree
    · exact hundo

end Runs

end AesdChar.Scull
