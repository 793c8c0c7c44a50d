import AesdChar.CodeLib.Mealy
import AesdChar.Driver.Addressing
import AesdChar.Driver.Ownership

/-!
# The driver as a machine on the command log

`LogDriver.step` answers every call from the command log and the file
positions alone, without ring, heap or lock.  `Driver.Ready.step_eq` says that
the driver gives the same answers, so what holds of the machine holds of the
driver.

A call that fails leaves the machine as it is, by `LogDriver.step_failed`.  The
failed calls of a run can therefore be deleted: `run_failed_calls_deleted`.
-/

namespace AesdChar

open CodeLib CodeLib.CInt CodeLib.Ring

/-! ## The operations on a log -/

namespace CommandLog

/-- `aesd_llseek` on a log: the return value and the position. -/
def llseek (log : CommandLog) (fPos offset whence : Int) : Int × Int :=
  let newpos :=
    if whence = SEEK_SET then some offset
    else if whence = SEEK_CUR then some (signed64 (fPos + offset))
    else if whence = SEEK_END then some (signed64 ((log.content.length : Int) + offset))
    else none
  match newpos with
  | none => (-EINVAL, fPos)
  | some newpos =>
    if newpos < 0 then (-EINVAL, fPos)
    else (min newpos log.content.length, min newpos log.content.length)

/-- The seek request on a log. -/
def seek (log : CommandLog) (seekto : AesdSeekto) (fPos : Int) : Int × Int :=
  match log.visible[min seekto.writeCmd (maxWriteOperations - 1)]? with
  | none => (-EINVAL, fPos)
  | some c =>
    if c.length ≤ seekto.writeCmdOffset then (-EINVAL, fPos)
    else (0, ((log.visible.take seekto.writeCmd).flatten.length + seekto.writeCmdOffset : Nat))

/-- `aesd_unlocked_ioctl` on a log. -/
def ioctl (log : CommandLog) (uncopied cmd : Nat) (seekto : AesdSeekto) (fPos : Int) :
    Int × Int :=
  if cmd ≠ AESDCHAR_IOCSEEKTO then (-ENOTTY, fPos)
  else if uncopied ≠ 0 then (-EFAULT, fPos)
  else log.seek seekto fPos

/-- `aesd_read` on a log: the return value, the position and the user
buffer. -/
def read (log : CommandLog) (env : ReadEnv) (count : Nat) (fPos : Int) :
    Int × Int × List Byte :=
  if fPos < 0 then (0, fPos, [])
  else copyOut env (pieces log.visible fPos.toNat count) 0 0 fPos []

end CommandLog

/-! ## The machine -/

/-- The command log and the position of every open file. -/
@[ext] structure LogDriver where
  log : CommandLog
  filePos : Nat → Int

/-- The machine right after the module was loaded. -/
def LogDriver.loaded : LogDriver := ⟨.empty, fun _ => 0⟩

/-- Move one file. -/
def LogDriver.move (s : LogDriver) (file : Nat) (pos : Int) : LogDriver :=
  { s with filePos := Function.update s.filePos file pos }

@[simp] theorem LogDriver.move_self (s : LogDriver) (file : Nat) :
    s.move file (s.filePos file) = s := by
  rw [move, Function.update_eq_self]

/-- One call. -/
def LogDriver.step (kmalloc : Kmalloc) (s : LogDriver) (call : Call) : Event × LogDriver :=
  match call with
  | .openFile file => (⟨call, 0, []⟩, s.move file 0)
  | .read file count env =>
    let r := s.log.read env count (s.filePos file)
    (⟨call, r.1, r.2.2⟩, s.move file (if 0 ≤ r.1 then r.2.1 else s.filePos file))
  | .write file buf env =>
    if env.Grants kmalloc s.log.pending.length buf.length then
      (⟨call, buf.length, []⟩,
        { s.move file (signed64 (s.filePos file + buf.length)) with log := s.log.write buf })
    else (⟨call, env.refusal kmalloc buf.length, []⟩, s)
  | .llseek file offset whence =>
    let r := s.log.llseek (s.filePos file) offset.toInt whence
    (⟨call, r.1, []⟩, s.move file r.2)
  | .ioctl file uncopied cmd seekto =>
    let r := s.log.ioctl uncopied cmd seekto (s.filePos file)
    (⟨call, r.1, []⟩, s.move file r.2)

theorem LogDriver.step_call (kmalloc : Kmalloc) (s : LogDriver) (call : Call) :
    (s.step kmalloc call).1.call = call := by
  cases call with
  | write file buf env =>
    rw [step]
    split
    · rfl
    · rfl
  | _ => rfl

/-! ## Failed calls -/

/-- `aesd_llseek` fails and leaves the position, or returns the new one. -/
theorem CommandLog.llseek_cases (log : CommandLog) (fPos offset whence : Int) :
    log.llseek fPos offset whence = (-EINVAL, fPos) ∨
      ∃ p, 0 ≤ p ∧ log.llseek fPos offset whence = (p, p) := by
  unfold llseek
  dsimp only
  split
  · exact Or.inl rfl
  · rename_i newpos _
    by_cases hneg : newpos < 0
    · rw [if_pos hneg]
      exact Or.inl rfl
    · rw [if_neg hneg]
      exact Or.inr ⟨_, Int.le_min.mpr ⟨Int.not_lt.mp hneg, Int.natCast_nonneg _⟩, rfl⟩

/-- `aesd_unlocked_ioctl` fails and leaves the position, or returns zero. -/
theorem CommandLog.ioctl_cases (log : CommandLog) (uncopied cmd : Nat) (seekto : AesdSeekto)
    (fPos : Int) :
    (log.ioctl uncopied cmd seekto fPos).2 = fPos ∨
      (log.ioctl uncopied cmd seekto fPos).1 = 0 := by
  unfold ioctl seek
  split_ifs
  · exact Or.inl rfl
  · exact Or.inl rfl
  · split
    · exact Or.inl rfl
    · split
      · exact Or.inl rfl
      · exact Or.inr rfl

/-- A call that fails leaves the machine as it is. -/
theorem LogDriver.step_failed (kmalloc : Kmalloc) (s : LogDriver) (call : Call)
    (h : (s.step kmalloc call).1.ret < 0) : (s.step kmalloc call).2 = s := by
  cases call with
  | openFile file => exact absurd h (Int.lt_irrefl 0)
  | read file count env =>
    have hret : (s.log.read env count (s.filePos file)).1 < 0 := h
    simp only [step, if_neg (Int.not_le.mpr hret), move_self]
  | write file buf env =>
    rw [step] at h ⊢
    split at h
    · exact absurd h (Int.not_lt.mpr (Int.natCast_nonneg _))
    · rename_i hg
      rw [if_neg hg]
  | llseek file offset whence =>
    have hret : (s.log.llseek (s.filePos file) offset.toInt whence).1 < 0 := h
    rcases s.log.llseek_cases (s.filePos file) offset.toInt whence with heq | ⟨p, hp, heq⟩
    · simp only [step, heq, move_self]
    · rw [heq] at hret
      exact absurd hret (Int.not_lt.mpr hp)
  | ioctl file uncopied cmd seekto =>
    have hret : (s.log.ioctl uncopied cmd seekto (s.filePos file)).1 < 0 := h
    rcases s.log.ioctl_cases uncopied cmd seekto (s.filePos file) with hpos | hzero
    · simp only [step, hpos, move_self]
    · rw [hzero] at hret
      exact absurd hret (Int.lt_irrefl 0)

/-! ## The driver gives the same answers -/

section Refinement

variable {kmalloc : Kmalloc} {k : KState} {cmds : Slots} {log : CommandLog}

/-- `aesd_llseek` sees the log only. -/
theorem Idle.llseek_eq (h : Idle kmalloc k cmds log) (fPos : Int) {offset : Int} (whence : Int)
    (hoffset : IsSigned64 offset) :
    aesdLlseek fPos offset whence k =
      .ok ⟨(log.llseek fPos offset whence).1, (log.llseek fPos offset whence).2, k⟩ := by
  have hdev : { k.dev with lock := .unlocked } = k.dev := by rw [← h.unlocked]
  have hcontent := h.content_lt
  unfold aesdLlseek CommandLog.llseek
  rw [mutexLock_of_unlocked h.unlocked]
  simp only [ok_bind, pure_eq_ok, mutexUnlock_of_locked, h.totalSize_eq, hdev]
  generalize hnewpos : (if whence = SEEK_SET then some offset
    else if whence = SEEK_CUR then some (signed64 (fPos + offset))
    else if whence = SEEK_END then some (signed64 ((log.content.length : Int) + offset))
    else none) = found
  cases found with
  | none => rfl
  | some newpos =>
    have hsigned : IsSigned64 newpos := by
      split_ifs at hnewpos
      · rwa [← Option.some.inj hnewpos]
      · rw [← Option.some.inj hnewpos]
        exact isSigned64_signed64 _
      · rw [← Option.some.inj hnewpos]
        exact isSigned64_signed64 _
    dsimp only
    by_cases hneg : newpos < 0
    · rw [if_pos hneg, if_pos hneg]
    · rw [if_neg hneg, if_neg hneg]
      obtain ⟨n, rfl⟩ := Int.eq_ofNat_of_zero_le (Int.not_lt.mp hneg)
      have hn : n < 2 ^ 63 := by exact_mod_cast hsigned.2
      rw [sizeT_of_lt (Nat.lt_trans hn (by decide)), signed64_of_lt hcontent]
      by_cases hgt : n > log.content.length
      · rw [if_pos hgt, Int.min_eq_right (by omega)]
      · rw [if_neg hgt, Int.min_eq_left (by omega)]

/-- `aesd_unlocked_ioctl` sees the log only. -/
theorem Idle.ioctl_eq (h : Idle kmalloc k cmds log) (uncopied cmd : Nat) (seekto : AesdSeekto)
    (fPos : Int) :
    aesdUnlockedIoctl uncopied cmd seekto fPos k =
      .ok ⟨(log.ioctl uncopied cmd seekto fPos).1, (log.ioctl uncopied cmd seekto fPos).2, k⟩ := by
  unfold CommandLog.ioctl
  by_cases hcmd : cmd = AESDCHAR_IOCSEEKTO
  · subst hcmd
    rw [if_neg (not_not.mpr rfl)]
    by_cases hcopy : uncopied = 0
    · subst hcopy
      rw [if_neg (not_not.mpr rfl), aesdUnlockedIoctl_eq h]
      unfold CommandLog.seek
      cases log.visible[min seekto.writeCmd (maxWriteOperations - 1)]? with
      | none => rfl
      | some c =>
        by_cases hle : c.length ≤ seekto.writeCmdOffset
        · simp only [if_pos hle]
        · simp only [if_neg hle]
    · have htype : iocType AESDCHAR_IOCSEEKTO = AESD_IOC_MAGIC := by decide
      have hnr : ¬ iocNr AESDCHAR_IOCSEEKTO > AESDCHAR_IOC_MAXNR := by decide
      unfold aesdUnlockedIoctl
      simp only [htype, hnr, hcopy, ne_eq, not_true_eq_false, not_false_eq_true, if_false, if_true,
        pure_eq_ok]
  · unfold aesdUnlockedIoctl
    simp only [hcmd, ne_eq, not_false_eq_true, if_true, pure_eq_ok, ite_self]

/-- `aesd_read` sees the log only. -/
theorem Idle.read_eq (h : Idle kmalloc k cmds log) (env : ReadEnv) (count : Nat) {fPos : Int}
    (hpos : IsSigned64 fPos) :
    let r := log.read env count fPos
    aesdRead env [] count fPos k =
      .ok { ret := r.1, fPos := r.2.1, state := k, ubuf := r.2.2 } := by
  unfold CommandLog.read
  rcases Int.lt_or_le fPos 0 with hneg | hnonneg
  · rw [if_pos hneg]
    exact aesdRead_neg h env [] count hpos hneg
  · obtain ⟨off, rfl⟩ := Int.eq_ofNat_of_zero_le hnonneg
    have hoff : off < 2 ^ 63 := by exact_mod_cast hpos.2
    rw [if_neg (Int.not_lt.mpr hnonneg)]
    exact aesdRead_eq h env [] count hoff

/-- The driver `s` does what the machine `t` does. -/
def Driver.Refines (kmalloc : Kmalloc) (s : Driver) (t : LogDriver) : Prop :=
  (∃ cmds, s.Ready kmalloc cmds t.log) ∧ s.filePos = t.filePos

theorem Driver.refines_loaded (kmalloc : Kmalloc) : Driver.loaded.Refines kmalloc .loaded :=
  ⟨⟨_, Driver.ready_loaded kmalloc⟩, rfl⟩

/-- Every call gives the event of the machine, and the states go on to
agree. -/
theorem Driver.Refines.step {s : Driver} {t : LogDriver} (h : s.Refines kmalloc t) (call : Call) :
    ∃ s', s.step kmalloc call = .ok ((t.step kmalloc call).1, s') ∧
      s'.Refines kmalloc (t.step kmalloc call).2 := by
  obtain ⟨⟨cmds, hready⟩, hpos⟩ := h
  have hidle := hready.idle
  cases call with
  | openFile file =>
    refine ⟨_, rfl, ⟨cmds, hready.after file isSigned64_zero hidle⟩, ?_⟩
    rw [LogDriver.step, LogDriver.move, Driver.after, hpos]
  | read file count env =>
    have hread := hidle.read_eq env count (hready.pos file)
    obtain ⟨r, hread', -, hsigned⟩ := aesdRead_state hidle env [] count (hready.pos file)
    obtain rfl := Except.ok.inj (hread.symm.trans hread')
    refine ⟨_, ?_, ⟨cmds, hready.after file hsigned hidle⟩, ?_⟩
    · simp only [Driver.step, hread, ok_bind, pure_eq_ok, LogDriver.step, ← hpos]
    · simp only [LogDriver.step, LogDriver.move, Driver.after, CallResult.filePos, hpos]
  | write file buf env =>
    rw [LogDriver.step]
    by_cases hg : env.Grants kmalloc t.log.pending.length buf.length
    · obtain ⟨k', cmds', hwrite, hidle'⟩ := aesdWrite_granted hidle hg (s.filePos file)
      rw [if_pos hg]
      refine ⟨s.after file (signed64 (s.filePos file + buf.length)) k', ?_,
        ⟨cmds', hready.after file (isSigned64_signed64 _) hidle'⟩, ?_⟩
      · simp only [Driver.step, hwrite, ok_bind, pure_eq_ok, CallResult.filePos,
          Int.natCast_nonneg, if_true]
      · simp only [LogDriver.move, Driver.after, hpos]
    · obtain ⟨heap, hwrite, hidle'⟩ := aesdWrite_refused_eq hidle hg (s.filePos file)
      rw [if_neg hg]
      refine ⟨s.after file (s.filePos file) { s.k with heap := heap }, ?_,
        ⟨cmds, hready.after file (hready.pos file) hidle'⟩, ?_⟩
      · simp only [Driver.step, hwrite, ok_bind, pure_eq_ok, CallResult.filePos, ite_self]
      · rw [Driver.after, Function.update_eq_self, hpos]
  | llseek file offset whence =>
    have hoffset : IsSigned64 offset.toInt := isSigned64_toInt offset
    have hseek := hidle.llseek_eq (s.filePos file) whence hoffset
    obtain ⟨r, hseek', -, hsigned⟩ :=
      aesdLlseek_state hidle.unlocked whence (hready.pos file) hoffset
    obtain rfl := Except.ok.inj (hseek.symm.trans hseek')
    refine ⟨_, ?_, ⟨cmds, hready.after file hsigned hidle⟩, ?_⟩
    · simp only [Driver.step, hseek, ok_bind, pure_eq_ok, LogDriver.step, ← hpos]
    · simp only [LogDriver.step, LogDriver.move, Driver.after, hpos]
  | ioctl file uncopied cmd seekto =>
    have hioctl := hidle.ioctl_eq uncopied cmd seekto (s.filePos file)
    obtain ⟨r, hioctl', -, hsigned⟩ :=
      aesdUnlockedIoctl_state hidle.unlocked uncopied cmd seekto (hready.pos file)
    obtain rfl := Except.ok.inj (hioctl.symm.trans hioctl')
    refine ⟨_, ?_, ⟨cmds, hready.after file hsigned hidle⟩, ?_⟩
    · simp only [Driver.step, hioctl, ok_bind, pure_eq_ok, LogDriver.step, ← hpos]
    · simp only [LogDriver.step, LogDriver.move, Driver.after, hpos]

/-- A run of the driver is a run of an implementation. -/
theorem Driver.run_eq_runExcept (s : Driver) (calls : List Call) :
    s.run kmalloc calls = Mealy.runExcept (Driver.step kmalloc) s calls := by
  induction calls generalizing s with
  | nil => rfl
  | cons call calls ih =>
    rw [Driver.run, Mealy.runExcept]
    cases s.step kmalloc call with
    | error _ => rfl
    | ok r =>
      rw [ok_bind]
      dsimp only
      rw [ih]
      cases Mealy.runExcept (Driver.step kmalloc) r.2 calls with
      | error _ => rfl
      | ok _ => rfl

/-- Every run gives the events of the machine. -/
theorem Driver.Refines.run {s : Driver} {t : LogDriver} (h : s.Refines kmalloc t)
    (calls : List Call) :
    ∃ s', s.run kmalloc calls = .ok ((Mealy.run (LogDriver.step kmalloc) t calls).1, s') ∧
      s'.Refines kmalloc (Mealy.run (LogDriver.step kmalloc) t calls).2 := by
  obtain ⟨s', hrun, h'⟩ :=
    Mealy.simulates (R := Driver.Refines kmalloc) (fun _ _ call h => h.step call) h calls
  exact ⟨s', by rw [Driver.run_eq_runExcept, hrun], h'⟩

/-- What the device stores is what the log of the machine says. -/
theorem Driver.Refines.contents {s : Driver} {t : LogDriver} (h : s.Refines kmalloc t) :
    s.k.commands = .ok t.log.visible ∧ s.k.pending = .ok t.log.pending := by
  obtain ⟨⟨cmds, hready⟩, -⟩ := h
  exact ⟨hready.idle.commands_eq, hready.idle.pending_eq⟩

end Refinement

/-! ## Failed calls leave no trace -/

/-- Nothing has happened between two states of the driver: the ring, the
accumulator and the lock, their contents, the positions of the files and the
live blocks are the same. -/
structure NoTrace (s s' : Driver) : Prop where
  dev : s'.k.dev = s.k.dev
  unlocked : s'.k.dev.lock = .unlocked
  commands : s'.k.commands = s.k.commands
  pending : s'.k.pending = s.k.pending
  filePos : s'.filePos = s.filePos
  live : s'.k.heap.liveAddrs.Perm s.k.heap.liveAddrs

section Failed

variable {kmalloc : Kmalloc} {k k' : KState} {cmds : Slots} {log : CommandLog} {s s' : Driver}

/-- Two heaps that store a log in the same blocks have the same live blocks. -/
theorem Stores.perm_liveAddrs (h : Stores kmalloc k cmds log) (h' : Stores kmalloc k' cmds log)
    (hptr : k'.dev.bufferPartial = k.dev.bufferPartial) :
    k'.heap.liveAddrs.Perm k.heap.liveAddrs := by
  have hlive' := h'.owns.perm_liveAddrs
  rw [hptr] at hlive'
  exact hlive'.trans h.owns.perm_liveAddrs.symm

/-- The device and the live blocks after a call that failed. -/
private theorem Driver.Ready.step_failed_dev (h : s.Ready kmalloc cmds log) {call : Call}
    {e : Event} (hstep : s.step kmalloc call = .ok (e, s')) (hret : e.ret < 0) :
    s'.k.dev = s.k.dev ∧ s'.k.heap.liveAddrs.Perm s.k.heap.liveAddrs := by
  have hidle := h.idle
  -- All calls but a write leave the kernel state as it is.
  have hsame : s'.k = s.k → s'.k.dev = s.k.dev ∧
      s'.k.heap.liveAddrs.Perm s.k.heap.liveAddrs := by
    intro heq
    rw [heq]
    exact ⟨rfl, List.Perm.refl _⟩
  cases call with
  | openFile file =>
    cases hstep
    exact hsame rfl
  | read file count env =>
    obtain ⟨r, hread, hstate, -⟩ := aesdRead_state hidle env [] count (h.pos file)
    simp only [Driver.step, hread, ok_bind, pure_eq_ok] at hstep
    cases hstep
    exact hsame hstate
  | write file buf env =>
    by_cases hg : env.Grants kmalloc log.pending.length buf.length
    · obtain ⟨s'', cmds', hstep', -⟩ := h.step_granted file hg
      rw [hstep', Except.ok.injEq, Prod.mk.injEq] at hstep
      rw [← hstep.1] at hret
      exact absurd hret (Int.not_lt.mpr (Int.natCast_nonneg _))
    · obtain ⟨heap, hwrite, hidle'⟩ := aesdWrite_refused_eq hidle hg (s.filePos file)
      simp only [Driver.step, hwrite, ok_bind, pure_eq_ok] at hstep
      cases hstep
      exact ⟨rfl, hidle.toStores.perm_liveAddrs hidle'.toStores rfl⟩
  | llseek file offset whence =>
    obtain ⟨r, hseek, hstate, -⟩ := aesdLlseek_state hidle.unlocked whence (h.pos file)
      (isSigned64_toInt offset)
    simp only [Driver.step, hseek, ok_bind, pure_eq_ok] at hstep
    cases hstep
    exact hsame hstate
  | ioctl file uncopied cmd seekto =>
    obtain ⟨r, hioctl, hstate, -⟩ :=
      aesdUnlockedIoctl_state hidle.unlocked uncopied cmd seekto (h.pos file)
    simp only [Driver.step, hioctl, ok_bind, pure_eq_ok] at hstep
    cases hstep
    exact hsame hstate

/-- A call that fails leaves no trace. -/
theorem Driver.Refines.step_failed {t : LogDriver} (h : s.Refines kmalloc t) {call : Call}
    {e : Event} (hstep : s.step kmalloc call = .ok (e, s')) (hret : e.ret < 0) : NoTrace s s' := by
  obtain ⟨s'', hstep', h'⟩ := h.step call
  rw [hstep', Except.ok.injEq, Prod.mk.injEq] at hstep
  obtain ⟨rfl, rfl⟩ := hstep
  rw [t.step_failed kmalloc call hret] at h'
  obtain ⟨⟨cmds, hready⟩, hpos⟩ := h
  obtain ⟨hdev, hlive⟩ := hready.step_failed_dev hstep' hret
  obtain ⟨hcommands, hpending⟩ := h'.contents
  exact
    { dev := hdev
      unlocked := by
        rw [hdev]
        exact hready.idle.unlocked
      commands := by rw [hcommands, hready.idle.commands_eq]
      pending := by rw [hpending, hready.idle.pending_eq]
      filePos := h'.2.trans hpos.symm
      live := hlive }

/-- A write that fails does not touch `*f_pos` either. -/
theorem Driver.Refines.write_failed {t : LogDriver} (h : s.Refines kmalloc t) {file : Nat}
    {buf : List Byte} {env : WriteEnv} {e : Event}
    (hstep : s.step kmalloc (.write file buf env) = .ok (e, s')) (hret : e.ret < 0) :
    ∃ r, aesdWrite kmalloc env buf (s.filePos file) s.k = .ok r ∧ r.ret = e.ret ∧
      r.fPos = s.filePos file := by
  obtain ⟨⟨cmds, hready⟩, -⟩ := h
  by_cases hg : env.Grants kmalloc t.log.pending.length buf.length
  · obtain ⟨s'', cmds', hstep', -⟩ := hready.step_granted file hg
    rw [hstep', Except.ok.injEq, Prod.mk.injEq] at hstep
    rw [← hstep.1] at hret
    exact absurd hret (Int.not_lt.mpr (Int.natCast_nonneg _))
  · obtain ⟨heap, hwrite, -⟩ := aesdWrite_refused_eq hready.idle hg (s.filePos file)
    refine ⟨_, hwrite, ?_, rfl⟩
    simp only [Driver.step, hwrite, ok_bind, pure_eq_ok] at hstep
    cases hstep
    rfl

/-- A call that did not fail. -/
def Event.succeeded (e : Event) : Bool := decide (0 ≤ e.ret)

/-- Calls that fail leave no trace, at any place of any run, and can be deleted
from the run: the other calls alone have the same results, and leave the same
positions, commands and pending bytes. -/
theorem run_failed_calls_deleted (kmalloc : Kmalloc) (calls : List Call) :
    (∀ before call after, calls = before ++ call :: after →
      ∃ events s e s', Driver.loaded.run kmalloc before = .ok (events, s) ∧
        s.step kmalloc call = .ok (e, s') ∧
        (e.ret < 0 → NoTrace s s' ∧
          ∀ file buf env, call = .write file buf env →
            ∃ r, aesdWrite kmalloc env buf (s.filePos file) s.k = .ok r ∧ r.ret = e.ret ∧
              r.fPos = s.filePos file)) ∧
    ∃ events s s', Driver.loaded.run kmalloc calls = .ok (events, s) ∧
      events.map Event.call = calls ∧
      Driver.loaded.run kmalloc ((events.filter Event.succeeded).map Event.call) =
        .ok (events.filter Event.succeeded, s') ∧
      s'.filePos = s.filePos ∧ s'.k.commands = s.k.commands ∧ s'.k.pending = s.k.pending := by
  have hloaded := Driver.refines_loaded kmalloc
  constructor
  · rintro before call after -
    obtain ⟨s, hrun, h⟩ := hloaded.run before
    obtain ⟨s', hstep, -⟩ := h.step call
    refine ⟨_, s, _, s', hrun, hstep, fun hret => ⟨h.step_failed hstep hret, ?_⟩⟩
    rintro file buf env rfl
    exact h.write_failed hstep hret
  · obtain ⟨s, hrun, h⟩ := hloaded.run calls
    have hdeleted := Mealy.run_good (LogDriver.step kmalloc) Event.succeeded Event.call
      (fun t call => t.step_call kmalloc call)
      (fun t call hbad => t.step_failed kmalloc call (by simpa [Event.succeeded] using hbad))
      .loaded calls
    obtain ⟨s', hrun', h'⟩ := hloaded.run
      (((Mealy.run (LogDriver.step kmalloc) .loaded calls).1.filter Event.succeeded).map Event.call)
    obtain ⟨events', s'', cmds', hrun'', hcalls, -⟩ := Driver.run_loaded kmalloc calls
    rw [hrun, Except.ok.injEq, Prod.mk.injEq] at hrun''
    rw [hdeleted] at hrun' h'
    refine ⟨_, s, s', hrun, by rw [hrun''.1, hcalls], hrun', h'.2.trans h.2.symm, ?_, ?_⟩
    · rw [h'.contents.1, h.contents.1]
    · rw [h'.contents.2, h.contents.2]

end Failed

end AesdChar
