import AesdChar.CodeLib.Counting
import AesdChar.CodeLib.Mealy
import AesdChar.CodeLib.WaitQueue
import AesdChar.Scull.Ioctl

/-!
# The devices of one user

`sculluid` and `scullwuid` of `scull/access.c` are bare devices that one user at a time
can have open.  The user who opens a free device owns it, and others are turned away
or wait until it is free.  Only who may open the device is modelled here.

`owner_run_shared` says that the counter counts the open files and that all of them are
of the owner, or of somebody who may do everything.  `owner_run_stuck` says that no
wake-up is lost: a task that sleeps for good waits for a device that somebody
has open.
-/

namespace AesdChar.Scull

open CodeLib CodeLib.CInt

/-! ## The device -/

/-- What the kernel knows about the caller. -/
structure Cred where
  uid : Nat
  euid : Nat
  dacOverride : Bool
deriving DecidableEq, Repr

/-- The two devices: `scull_u_open` and `scull_w_open`. -/
inductive OwnerKind
  | uid
  | wuid
deriving DecidableEq, Repr

/-- Where a task stands.  What it does under the spinlock is one step.  From `peek` to
`interrupted` it is in `wait_event_interruptible`. -/
inductive OwnerPc
  | out
  | «open» (nonblock : Bool)
  | peek
  | prepare
  | check
  | schedule
  | finish
  | interrupted
  | inside
  | release
  | wake
deriving DecidableEq, Repr

/-- `scull_u_count` and `scull_u_owner`, or those of `scull_w`, and the queue of
`scull_w`. -/
structure OwnerSystem (τ : Type) where
  count : Int
  owner : Nat
  queue : WaitQueue τ
  tasks : τ → OwnerPc

/-- What a call returns. -/
inductive OwnerEvent (τ : Type)
  | silent
  | returned (t : τ) (ret : Int)
deriving DecidableEq, Repr

/-- What happens next. -/
inductive OwnerAct (τ : Type)
  | «open» (t : τ) (nonblock : Bool)
  | release (t : τ)
  | step (t : τ) (signal : Bool)

namespace OwnerSystem

variable {τ : Type}

/-- The caller may share the device. -/
def Shares (s : OwnerSystem τ) (cred : Cred) : Prop :=
  s.owner = cred.uid ∨ s.owner = cred.euid ∨ cred.dacOverride = true

instance decidableShares (s : OwnerSystem τ) (cred : Cred) : Decidable (s.Shares cred) :=
  inferInstanceAs (Decidable (_ ∨ _ ∨ _))

/-- The test of `scull_u_open`. -/
def scullUBusy (s : OwnerSystem τ) (cred : Cred) : Bool :=
  s.count ≠ 0 && s.owner ≠ cred.uid && s.owner ≠ cred.euid && !cred.dacOverride

/-- `scull_w_available`. -/
def scullWAvailable (s : OwnerSystem τ) (cred : Cred) : Bool :=
  s.count = 0 || s.owner = cred.uid || s.owner = cred.euid || cred.dacOverride

variable [DecidableEq τ]

/-- `t` goes on at `pc`. -/
def goto (s : OwnerSystem τ) (t : τ) (pc : OwnerPc) : OwnerSystem τ :=
  { s with tasks := Function.update s.tasks t pc }

/-- The end of both opens: the first one grabs the device. -/
def grab (cred : Cred) (t : τ) (s : OwnerSystem τ) : OwnerEvent τ × OwnerSystem τ :=
  let owner := if s.count = 0 then cred.uid else s.owner
  (.returned t 0, { s with owner := owner, count := int32 (s.count + 1) }.goto t .inside)

/-- `scull_u_open` -/
def scullUOpen (cred : Cred) (t : τ) (s : OwnerSystem τ) : OwnerEvent τ × OwnerSystem τ :=
  if s.scullUBusy cred then (.returned t (-EBUSY), s.goto t .out) else s.grab cred t

/-- `scull_w_open`, to the end of its first round or of a later one. -/
def scullWOpen (cred : Cred) (t : τ) (nonblock : Bool) (s : OwnerSystem τ) :
    OwnerEvent τ × OwnerSystem τ :=
  if s.scullWAvailable cred then s.grab cred t
  else if nonblock then (.returned t (-EAGAIN), s.goto t .out)
  else (.silent, s.goto t .peek)

/-- The next step of a task. -/
def taskStep (kind : OwnerKind) (cred : τ → Cred) (t : τ) (signal : Bool) (s : OwnerSystem τ) :
    OwnerEvent τ × OwnerSystem τ :=
  match s.tasks t with
  | .out | .inside => (.silent, s)
  | .open nonblock =>
    match kind with
    | .uid => s.scullUOpen (cred t) t
    | .wuid => s.scullWOpen (cred t) t nonblock
  | .peek => (.silent, s.goto t (if s.scullWAvailable (cred t) then .open false else .prepare))
  | .prepare =>
    if signal then (.silent, { s with queue := s.queue.finish t }.goto t .interrupted)
    else (.silent, { s with queue := s.queue.prepare t }.goto t .check)
  | .check => (.silent, s.goto t (if s.scullWAvailable (cred t) then .finish else .schedule))
  | .schedule =>
    if s.queue.Unwoken t ∧ signal = false then (.silent, s) else (.silent, s.goto t .prepare)
  | .finish => (.silent, { s with queue := s.queue.finish t }.goto t (.open false))
  | .interrupted =>
    if s.scullWAvailable (cred t) then (.silent, s.goto t (.open false))
    else (.returned t (-ERESTARTSYS), s.goto t .out)
  | .release =>
    let temp := int32 (s.count - 1)
    if kind = .wuid ∧ temp = 0 then (.silent, { s with count := temp }.goto t .wake)
    else (.returned t 0, { s with count := temp }.goto t .out)
  | .wake => (.returned t 0, { s with queue := s.queue.wakeUp }.goto t .out)

/-- One step. -/
def step (kind : OwnerKind) (cred : τ → Cred) (s : OwnerSystem τ) :
    OwnerAct τ → OwnerEvent τ × OwnerSystem τ
  | .open t nonblock => (.silent, if s.tasks t = .out then s.goto t (.open nonblock) else s)
  | .release t => (.silent, if s.tasks t = .inside then s.goto t .release else s)
  | .step t signal => s.taskStep kind cred t signal

/-- A run, with what the calls return. -/
def run (kind : OwnerKind) (cred : τ → Cred) (s : OwnerSystem τ) (acts : List (OwnerAct τ)) :
    List (OwnerEvent τ) × OwnerSystem τ :=
  Mealy.run (fun s act => s.step kind cred act) s acts

omit [DecidableEq τ] in
/-- The device as the module finds it. -/
def init : OwnerSystem τ := ⟨0, 0, .empty, fun _ => .out⟩

end OwnerSystem

/-! ## Who has the device -/

/-- The task has the device open. -/
def OwnerPc.opened : OwnerPc → Bool
  | .inside | .release => true
  | _ => false

section Owner

variable {τ : Type} {s s' : OwnerSystem τ} {cred : τ → Cred} {t u : τ} {pc : OwnerPc}
  {kind : OwnerKind} {signal : Bool} {act : OwnerAct τ}

/-- The two devices ask for the same. -/
theorem OwnerSystem.scullUBusy_eq (s : OwnerSystem τ) (c : Cred) :
    s.scullUBusy c = !s.scullWAvailable c := by
  unfold scullUBusy scullWAvailable
  simp [Bool.and_assoc]

theorem OwnerSystem.scullWAvailable_iff (s : OwnerSystem τ) (c : Cred) :
    s.scullWAvailable c = true ↔ s.count = 0 ∨ s.Shares c := by
  unfold scullWAvailable Shares
  simp [or_assoc]

/-- The counter is right, and all open files are of tasks that share the device. -/
structure OwnerSystem.Inv (cred : τ → Cred) (s : OwnerSystem τ) : Prop where
  count : Counting (fun _ pc => pc.opened) s.tasks s.count
  shares : ∀ t, (s.tasks t).opened = true → s.Shares (cred t)

namespace OwnerSystem.Inv

/-- A free device is open nowhere. -/
theorem count_eq_zero_iff (h : s.Inv cred) :
    s.count = 0 ↔ ∀ t, (s.tasks t).opened = false := h.count.eq_zero_iff

theorem range [Fintype τ] (h : s.Inv cred) (hcard : Fintype.card τ < 2 ^ 31) :
    0 ≤ s.count ∧ s.count < 2 ^ 31 := by
  have hnonneg := h.count.nonneg
  have hle := h.count.le_card
  omega

variable [DecidableEq τ]

/-- A step of a task that has the device as before. -/
theorem stay (h : s.Inv cred) (hpc : pc.opened = (s.tasks t).opened) (queue : WaitQueue τ) :
    ({ s with queue := queue }.goto t pc).Inv cred where
  count := h.count.stay hpc
  shares u hu := by
    refine h.shares u ?_
    replace hu : (Function.update s.tasks t pc u).opened = true := hu
    by_cases hut : u = t
    · rw [hut, Function.update_self, hpc] at hu
      rw [hut]
      exact hu
    · rw [Function.update_of_ne hut] at hu
      exact hu

variable [Fintype τ]

/-- The counter stays in its range if a task has yet to open the device. -/
theorem lt_card (h : s.Inv cred) (hcard : Fintype.card τ < 2 ^ 31)
    (hold : (s.tasks t).opened = false) : int32 (s.count + 1) = s.count + 1 := by
  have hrange := h.range hcard
  have hmore := (h.count.enter hold (show OwnerPc.inside.opened = true from rfl)).le_card
  exact int32_of_range (by omega) (by omega)

/-- A task gets the device. -/
theorem grab (h : s.Inv cred) (hcard : Fintype.card τ < 2 ^ 31)
    (hold : (s.tasks t).opened = false) (havail : s.scullWAvailable (cred t) = true) :
    (s.grab (cred t) t).2.Inv cred where
  count := by
    show Counting _ (Function.update s.tasks t .inside) (int32 (s.count + 1))
    rw [h.lt_card hcard hold]
    exact h.count.enter hold rfl
  shares u hu := by
    replace hu : (Function.update s.tasks t .inside u).opened = true := hu
    by_cases hzero : s.count = 0
    · have hut : u = t := by
        by_contra hut
        rw [Function.update_of_ne hut, h.count_eq_zero_iff.mp hzero u] at hu
        cases hu
      rw [hut]
      exact Or.inl (if_pos hzero)
    · have hshares : s.Shares (cred u) := by
        by_cases hut : u = t
        · rw [hut]
          exact ((s.scullWAvailable_iff _).mp havail).resolve_left hzero
        · rw [Function.update_of_ne hut] at hu
          exact h.shares u hu
      unfold Shares OwnerSystem.grab
      simp only [if_neg hzero]
      exact hshares

/-- A task gives the device back. -/
theorem release (h : s.Inv cred) (hcard : Fintype.card τ < 2 ^ 31)
    (hold : (s.tasks t).opened = true) (hnew : pc.opened = false) :
    int32 (s.count - 1) = s.count - 1 ∧ ({ s with count := s.count - 1 }.goto t pc).Inv cred := by
  have hrange := h.range hcard
  refine ⟨int32_of_range (by omega) (by omega), h.count.leave hold hnew, fun u hu => ?_⟩
  replace hu : (Function.update s.tasks t pc u).opened = true := hu
  by_cases hut : u = t
  · rw [hut, Function.update_self, hnew] at hu
    cases hu
  · rw [Function.update_of_ne hut] at hu
    exact h.shares u hu

theorem openStep (h : s.Inv cred) (hcard : Fintype.card τ < 2 ^ 31) {nonblock : Bool}
    (hpc : s.tasks t = .open nonblock) : (s.taskStep kind cred t signal).2.Inv cred := by
  have hold : (s.tasks t).opened = false := by
    rw [hpc]
    rfl
  unfold OwnerSystem.taskStep
  simp only [hpc]
  cases kind with
  | uid =>
    show (s.scullUOpen (cred t) t).2.Inv cred
    unfold scullUOpen
    rw [scullUBusy_eq]
    cases havail : s.scullWAvailable (cred t) with
    | true => exact h.grab hcard hold havail
    | false => exact h.stay (by rw [hpc]; rfl) _
  | wuid =>
    show (s.scullWOpen (cred t) t nonblock).2.Inv cred
    unfold scullWOpen
    cases havail : s.scullWAvailable (cred t) with
    | true => exact h.grab hcard hold havail
    | false =>
      cases nonblock with
      | true => exact h.stay (by rw [hpc]; rfl) _
      | false => exact h.stay (by rw [hpc]; rfl) _

theorem step (h : s.Inv cred) (hcard : Fintype.card τ < 2 ^ 31) (kind : OwnerKind)
    (act : OwnerAct τ) : (s.step kind cred act).2.Inv cred := by
  cases act with
  | «open» t nonblock =>
    show (if s.tasks t = .out then s.goto t (.open nonblock) else s).Inv cred
    split
    · rename_i hpc
      exact h.stay (by rw [hpc]; rfl) _
    · exact h
  | release t =>
    show (if s.tasks t = .inside then s.goto t .release else s).Inv cred
    split
    · rename_i hpc
      exact h.stay (by rw [hpc]; rfl) _
    · exact h
  | step t signal =>
    show (s.taskStep kind cred t signal).2.Inv cred
    cases hpc : s.tasks t with
    | «open» nonblock => exact h.openStep hcard hpc
    | release =>
      have hold : (s.tasks t).opened = true := by
        rw [hpc]
        rfl
      unfold OwnerSystem.taskStep
      simp only [hpc, h.release hcard hold (show OwnerPc.out.opened = false from rfl)]
      split
      · exact (h.release hcard hold rfl).2
      · exact (h.release hcard hold rfl).2
    | out | inside =>
      unfold OwnerSystem.taskStep
      simp only [hpc]
      exact h
    | peek | prepare | check | interrupted =>
      unfold OwnerSystem.taskStep
      simp only [hpc]
      split
      · exact h.stay (by rw [hpc]; rfl) _
      · exact h.stay (by rw [hpc]; rfl) _
    | schedule =>
      unfold OwnerSystem.taskStep
      simp only [hpc]
      split
      · exact h
      · exact h.stay (by rw [hpc]; rfl) _
    | finish | wake =>
      unfold OwnerSystem.taskStep
      simp only [hpc]
      exact h.stay (by rw [hpc]; rfl) _

end OwnerSystem.Inv

/-! ## Who sleeps -/

/-- The task sleeps, though it may open the device. -/
def OwnerSystem.Misses (cred : τ → Cred) (s : OwnerSystem τ) (t : τ) : Prop :=
  s.tasks t = .schedule ∧ s.scullWAvailable (cred t) = true

/-- Whoever misses the device without having been woken is about to be. -/
def OwnerSystem.Waits (cred : τ → Cred) (s : OwnerSystem τ) : Prop :=
  s.queue.Covered (s.Misses cred) True (∃ v, s.tasks v = .wake)

namespace OwnerSystem.Waits

variable [DecidableEq τ]

/-- Nobody misses the device who did not miss it before. -/
theorem mono (h : s.Waits cred) (hqueue : s'.queue = s.queue)
    (htasks : s'.tasks = Function.update s.tasks t pc) (hsleep : pc ≠ .schedule)
    (hwake : s.tasks t ≠ .wake)
    (havail : ∀ u, s'.scullWAvailable (cred u) = true → s.scullWAvailable (cred u) = true) :
    s'.Waits cred := by
  unfold OwnerSystem.Waits
  rw [hqueue]
  refine WaitQueue.Covered.mono h (fun u hu => ?_) Or.inl fun hwaker => ?_
  · obtain ⟨hpc, hu⟩ := hu
    rw [htasks] at hpc
    have hut : u ≠ t := by
      rintro rfl
      exact hsleep ((Function.update_self ..).symm.trans hpc)
    rw [Function.update_of_ne hut] at hpc
    exact ⟨hpc, havail u hu⟩
  · obtain ⟨v, hv⟩ := hwaker
    have hvt : v ≠ t := by
      rintro rfl
      exact hwake hv
    refine ⟨v, ?_⟩
    rw [htasks, Function.update_of_ne hvt]
    exact hv

theorem goto (h : s.Waits cred) (hsleep : pc ≠ .schedule) (hwake : s.tasks t ≠ .wake) :
    (s.goto t pc).Waits cred :=
  h.mono rfl rfl hsleep hwake fun _ hu => hu

/-- A task goes on the queue. -/
theorem prepare (h : s.Waits cred) (hsleep : pc ≠ .schedule) (hwake : s.tasks t ≠ .wake) :
    ({ s with queue := s.queue.prepare t }.goto t pc).Waits cred := by
  refine WaitQueue.Covered.prepare (h.goto hsleep hwake) fun u hu => ⟨?_, hu⟩
  rintro rfl
  exact hsleep ((Function.update_self ..).symm.trans hu.1)

/-- A task leaves the queue. -/
theorem finish (h : s.Waits cred) (hsleep : pc ≠ .schedule) (hwake : s.tasks t ≠ .wake) :
    ({ s with queue := s.queue.finish t }.goto t pc).Waits cred :=
  WaitQueue.Covered.finish (h.goto hsleep hwake) fun _ hu _ => hu

/-- A task goes to sleep that may not open the device. -/
theorem sleep (h : s.Waits cred) (hpc : s.tasks t = .check)
    (havail : s.scullWAvailable (cred t) = false) : (s.goto t .schedule).Waits cred := by
  refine WaitQueue.Covered.mono h (fun u hu => ?_) Or.inl fun hwaker => ?_
  · obtain ⟨hsleeps, hu⟩ := hu
    replace hsleeps : Function.update s.tasks t .schedule u = .schedule := hsleeps
    have hut : u ≠ t := by
      rintro rfl
      rw [show s.scullWAvailable (cred u) = true from hu] at havail
      cases havail
    rw [Function.update_of_ne hut] at hsleeps
    exact ⟨hsleeps, hu⟩
  · obtain ⟨v, hv⟩ := hwaker
    have hvt : v ≠ t := by
      rintro rfl
      rw [hpc] at hv
      cases hv
    exact ⟨v, (Function.update_of_ne hvt ..).trans hv⟩

/-- The device is taken, and nobody may open it who could not before. -/
theorem grab (h : s.Waits cred) (hcount : int32 (s.count + 1) ≠ 0) (hwake : s.tasks t ≠ .wake) :
    (s.grab (cred t) t).2.Waits cred := by
  refine h.mono rfl rfl (by simp) hwake fun u hu => ?_
  rw [scullWAvailable_iff] at hu ⊢
  by_cases hzero : s.count = 0
  · exact Or.inl hzero
  · have hshares := hu.resolve_left hcount
    unfold Shares OwnerSystem.grab at hshares
    simp only [if_neg hzero] at hshares
    exact Or.inr hshares

variable [Fintype τ]

theorem step (h : s.Waits cred) (hinv : s.Inv cred) (hcard : Fintype.card τ < 2 ^ 31)
    (act : OwnerAct τ) : (s.step .wuid cred act).2.Waits cred := by
  cases act with
  | «open» t nonblock =>
    show (if s.tasks t = .out then s.goto t (.open nonblock) else s).Waits cred
    split
    · rename_i hpc
      exact h.goto (by simp) (by rw [hpc]; simp)
    · exact h
  | release t =>
    show (if s.tasks t = .inside then s.goto t .release else s).Waits cred
    split
    · rename_i hpc
      exact h.goto (by simp) (by rw [hpc]; simp)
    · exact h
  | step t signal =>
    show (s.taskStep .wuid cred t signal).2.Waits cred
    cases hpc : s.tasks t with
    | «open» nonblock =>
      have hold : (s.tasks t).opened = false := by
        rw [hpc]
        rfl
      have hrange := hinv.range hcard
      unfold OwnerSystem.taskStep
      simp only [hpc]
      unfold scullWOpen
      split
      · exact h.grab (by rw [hinv.lt_card hcard hold]; omega) (by rw [hpc]; simp)
      · split
        · exact h.goto (by simp) (by rw [hpc]; simp)
        · exact h.goto (by simp) (by rw [hpc]; simp)
    | release =>
      have hold : (s.tasks t).opened = true := by
        rw [hpc]
        rfl
      unfold OwnerSystem.taskStep
      simp only [hpc, hinv.release hcard hold (show OwnerPc.out.opened = false from rfl)]
      split
      · exact fun _ _ _ _ => ⟨t, Function.update_self ..⟩
      · rename_i hlast
        have hmore : s.count - 1 ≠ 0 := fun hzero => hlast ⟨trivial, hzero⟩
        refine h.mono rfl rfl (by simp) (by rw [hpc]; simp) fun u hu => ?_
        rw [scullWAvailable_iff] at hu ⊢
        exact Or.inr (hu.resolve_left hmore)
    | out | inside =>
      unfold OwnerSystem.taskStep
      simp only [hpc]
      exact h
    | peek | interrupted =>
      unfold OwnerSystem.taskStep
      simp only [hpc]
      split
      · exact h.goto (by simp) (by rw [hpc]; simp)
      · exact h.goto (by simp) (by rw [hpc]; simp)
    | prepare =>
      unfold OwnerSystem.taskStep
      simp only [hpc]
      split
      · exact h.finish (by simp) (by rw [hpc]; simp)
      · exact h.prepare (by simp) (by rw [hpc]; simp)
    | check =>
      unfold OwnerSystem.taskStep
      simp only [hpc]
      split
      · exact h.goto (by simp) (by rw [hpc]; simp)
      · rename_i havail
        exact h.sleep hpc (Bool.eq_false_iff.mpr havail)
    | schedule =>
      unfold OwnerSystem.taskStep
      simp only [hpc]
      split
      · exact h
      · exact h.goto (by simp) (by rw [hpc]; simp)
    | finish =>
      unfold OwnerSystem.taskStep
      simp only [hpc]
      exact h.finish (by simp) (by rw [hpc]; simp)
    | wake =>
      unfold OwnerSystem.taskStep
      simp only [hpc]
      exact WaitQueue.Covered.wakeUp

end OwnerSystem.Waits

/-! ## Runs -/

variable [DecidableEq τ] [Fintype τ]

theorem OwnerSystem.run_inv (kind : OwnerKind) (cred : τ → Cred)
    (hcard : Fintype.card τ < 2 ^ 31) (acts : List (OwnerAct τ)) :
    (init.run kind cred acts).2.Inv cred :=
  Mealy.run_keeps (I := OwnerSystem.Inv cred) _ (fun _ act h => Inv.step h hcard kind act)
    ⟨Counting.zero fun _ => rfl, fun _ ht => by cases ht⟩ acts

omit [Fintype τ] in
/-- Who gets the device. -/
theorem OwnerSystem.open_inside_iff {nonblock : Bool} (hpc : s.tasks t = .open nonblock) :
    (s.taskStep kind cred t signal).2.tasks t = .inside ↔ s.scullWAvailable (cred t) = true := by
  have hself (pc : OwnerPc) : Function.update s.tasks t pc t = pc := Function.update_self ..
  unfold OwnerSystem.taskStep
  simp only [hpc]
  cases kind with
  | uid =>
    show (s.scullUOpen (cred t) t).2.tasks t = .inside ↔ _
    unfold scullUOpen
    rw [scullUBusy_eq]
    cases havail : s.scullWAvailable (cred t) with
    | true => exact iff_of_true (hself _) rfl
    | false => exact iff_of_false (fun hno => by cases (hself .out).symm.trans hno) (by simp)
  | wuid =>
    show (s.scullWOpen (cred t) t nonblock).2.tasks t = .inside ↔ _
    unfold scullWOpen
    cases havail : s.scullWAvailable (cred t) with
    | true => exact iff_of_true (hself _) rfl
    | false =>
      cases nonblock with
      | true => exact iff_of_false (fun hno => by cases (hself .out).symm.trans hno) (by simp)
      | false => exact iff_of_false (fun hno => by cases (hself .peek).symm.trans hno) (by simp)

/-- Over every run the counter is the number of open files, and whoever has one shares the
device with its owner.  An open gets the device exactly if nobody has it or the
caller may share it. -/
theorem owner_run_shared (kind : OwnerKind) (cred : τ → Cred)
    (hcard : Fintype.card τ < 2 ^ 31) (acts : List (OwnerAct τ)) {s : OwnerSystem τ}
    (hs : s = (OwnerSystem.init.run kind cred acts).2) :
    s.count = (Finset.univ.filter fun t => (s.tasks t).opened = true).card ∧
      (∀ t, (s.tasks t).opened = true → s.Shares (cred t)) ∧
      ∀ t nonblock signal, s.tasks t = .open nonblock →
        ((s.taskStep kind cred t signal).2.tasks t = .inside ↔
          (∀ u, (s.tasks u).opened = false) ∨ s.Shares (cred t)) := by
  have hinv := OwnerSystem.run_inv kind cred hcard acts
  rw [← hs] at hinv
  refine ⟨?_, hinv.shares, fun t nonblock signal hpc => ?_⟩
  · obtain ⟨counted, hcounted, hcount⟩ := hinv.count
    rw [hcount]
    congr 2
    ext t
    rw [hcounted t]
    simp
  · rw [OwnerSystem.open_inside_iff hpc, OwnerSystem.scullWAvailable_iff,
      hinv.count_eq_zero_iff]

/-- Two users. -/
def twoUsers (t : Bool) : Cred := if t then ⟨1000, 1000, false⟩ else ⟨1001, 1001, false⟩

/-- A task opens the device, and one of another user is about to. -/
def openTwice : List (OwnerAct Bool) := [.open true false, .step true false, .open false false]

/-- The second task does not get the device. -/
theorem owner_run_shared_openTwice :
    ∃ s, s = (OwnerSystem.init.run .uid twoUsers openTwice).2 ∧ s.tasks false = .open false ∧
      (s.taskStep .uid twoUsers false false).2.tasks false ≠ .inside := by
  refine ⟨_, rfl, by decide +kernel, fun hinside => ?_⟩
  obtain ⟨-, -, hopen⟩ := owner_run_shared .uid twoUsers (by decide) openTwice rfl
  rcases (hopen false false false (by decide +kernel)).mp hinside with hnone | hshares
  · exact absurd (hnone true) (by decide +kernel)
  · exact absurd hshares (by decide +kernel)

omit [Fintype τ] in
/-- A task that makes no step is in no call or sleeps. -/
theorem OwnerSystem.still (hstill : (s.taskStep .wuid cred t false).2 = s) :
    s.tasks t = .out ∨ s.tasks t = .inside ∨ s.tasks t = .schedule ∧ s.queue.Unwoken t := by
  have hmoved {old pc : OwnerPc} {s' : OwnerSystem τ} (hpc : s.tasks t = old)
      (heq : s'.goto t pc = s) : old = pc := by
    rw [← hpc, ← heq]
    exact Function.update_self ..
  unfold OwnerSystem.taskStep at hstill
  cases hpc : s.tasks t with
  | out => exact Or.inl rfl
  | inside => exact Or.inr (Or.inl rfl)
  | schedule =>
    simp only [hpc] at hstill
    split at hstill
    · rename_i hasleep
      exact Or.inr (Or.inr ⟨rfl, hasleep.1⟩)
    · cases hmoved hpc hstill
  | «open» nonblock =>
    simp only [hpc, scullWOpen] at hstill
    split at hstill
    · cases hmoved hpc hstill
    · split at hstill
      · cases hmoved hpc hstill
      · cases hmoved hpc hstill
  | peek | check | interrupted | release =>
    simp only [hpc] at hstill
    split at hstill
    · cases hmoved hpc hstill
    · cases hmoved hpc hstill
  | prepare =>
    simp only [hpc, if_neg Bool.false_ne_true] at hstill
    cases hmoved hpc hstill
  | finish | wake =>
    simp only [hpc] at hstill
    cases hmoved hpc hstill

/-- No wake-up is lost, and no run ends in a deadlock: if no task can go on, then all who
are in a call sleep, and each of them waits for a device that somebody else has
open and that it may not share. -/
theorem owner_run_stuck (cred : τ → Cred) (hcard : Fintype.card τ < 2 ^ 31)
    (acts : List (OwnerAct τ)) {s : OwnerSystem τ}
    (hs : s = (OwnerSystem.init.run .wuid cred acts).2)
    (hstill : ∀ t, (s.taskStep .wuid cred t false).2 = s) (t : τ) :
    s.tasks t = .out ∨ s.tasks t = .inside ∨
      s.tasks t = .schedule ∧ ¬ s.Shares (cred t) ∧ ∃ u, s.tasks u = .inside := by
  obtain ⟨hinv, hwaits⟩ : s.Inv cred ∧ s.Waits cred := by
    rw [hs]
    refine Mealy.run_keeps (I := fun s => OwnerSystem.Inv cred s ∧ OwnerSystem.Waits cred s) _
      (fun s act h => ⟨h.1.step hcard .wuid act, h.2.step h.1 hcard act⟩) ⟨?_, ?_⟩ acts
    · exact ⟨Counting.zero fun _ => rfl, fun _ ht => by cases ht⟩
    · exact WaitQueue.Covered.empty
  rcases OwnerSystem.still (hstill t) with hpc | hpc | ⟨hpc, hunwoken⟩
  · exact Or.inl hpc
  · exact Or.inr (Or.inl hpc)
  · have havail : s.scullWAvailable (cred t) ≠ true := by
      intro havail
      obtain ⟨v, hv⟩ := hwaits t ⟨hpc, havail⟩ hunwoken trivial
      rcases OwnerSystem.still (hstill v) with hrest | hrest | ⟨hrest, -⟩ <;>
        cases hv.symm.trans hrest
    rw [Ne, OwnerSystem.scullWAvailable_iff] at havail
    obtain ⟨u, hu⟩ := hinv.count.exists_of_ne_zero fun hzero => havail (Or.inl hzero)
    refine Or.inr (Or.inr ⟨hpc, fun hshares => havail (Or.inr hshares), u, ?_⟩)
    rcases OwnerSystem.still (hstill u) with hrest | hrest | ⟨hrest, -⟩
    · rw [hrest] at hu
      cases hu
    · exact hrest
    · rw [hrest] at hu
      cases hu

/-- The second task has gone to sleep. -/
def openSleep : List (OwnerAct Bool) := openTwice ++ List.replicate 4 (.step false false)

/-- The second task sleeps while the first one has the device open. -/
theorem owner_run_stuck_openSleep :
    ∃ s, s = (OwnerSystem.init.run .wuid twoUsers openSleep).2 ∧
      ¬ s.Shares (twoUsers false) ∧ ∃ u, s.tasks u = .inside := by
  obtain ⟨s, hs⟩ : ∃ s, s = (OwnerSystem.init.run .wuid twoUsers openSleep).2 := ⟨_, rfl⟩
  have htrue : s.tasks true = .inside := by
    rw [hs]
    decide +kernel
  have hfalse : s.tasks false = .schedule ∧ s.queue.Unwoken false := by
    rw [hs]
    decide +kernel
  have hstill (t : Bool) : (s.taskStep .wuid twoUsers t false).2 = s := by
    unfold OwnerSystem.taskStep
    cases t with
    | true => simp only [htrue]
    | false =>
      simp only [hfalse.1]
      rw [if_pos ⟨hfalse.2, trivial⟩]
  rcases owner_run_stuck twoUsers (by decide) openSleep hs hstill false with h | h | h
  · cases hfalse.1.symm.trans h
  · cases hfalse.1.symm.trans h
  · exact ⟨s, hs, h.2⟩

end Owner

end AesdChar.Scull
