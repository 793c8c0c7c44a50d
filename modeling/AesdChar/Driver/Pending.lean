import AesdChar.Driver.LogDriver

/-!
# The open command and the limit of the allocator

The accumulator of the device only grows until a newline arrives, and each
write asks for a block that holds all of it.  While it is smaller than the
largest block that `kmalloc` can serve, one byte more fits and a newline
finishes the command.  A command that is exactly as large is stuck: no write
with data fits any more, a newline included, and a write that is refused
changes nothing.  `LogDriver.run_full` carries this through every later run.
-/

namespace AesdChar

open CodeLib CodeLib.CInt CodeLib.Ring

variable {kmalloc : Kmalloc} {s : Driver} {k : KState} {cmds : Slots} {log : CommandLog}

/-! ## The accumulator after a write -/

/-- `append` notes the sum of the sizes. -/
theorem append_sizePartial {newbuf kbuf : Ptr} {count : Nat} {k' : KState}
    (h : append newbuf kbuf count k = .ok k') :
    k'.dev.sizePartial = sizeT ((k.dev.sizePartial : Int) + count) := by
  unfold append at h
  obtain ⟨_, -, h⟩ := bind_eq_ok h
  obtain ⟨_, -, h⟩ := bind_eq_ok h
  obtain ⟨_, -, h⟩ := bind_eq_ok h
  cases h
  rfl

/-- `finalize` clears the accumulator. -/
theorem finalize_bufferPartial {k' : KState} (h : finalize k = .ok k') :
    k'.dev.bufferPartial = .null := by
  unfold finalize at h
  obtain ⟨_, -, h⟩ := bind_eq_ok h
  cases h
  rfl

/-- A write that succeeds clears the accumulator or adds to its size. -/
theorem writeBody_accumulator {env : WriteEnv} {buf : List Byte} {fPos : Int}
    {r : CallResult KState} (h : writeBody kmalloc env buf fPos k = .ok r) (hret : 0 ≤ r.ret) :
    r.state.dev.bufferPartial = .null ∨
      r.state.dev.sizePartial = sizeT ((k.dev.sizePartial : Int) + buf.length) := by
  have hneg : ∀ {code : Int} {pos : Int} {k' : KState}, 0 < code →
      (pure ⟨-code, pos, k'⟩ : Except Fault (CallResult KState)) = .ok r →
      r.state.dev.bufferPartial = .null ∨
        r.state.dev.sizePartial = sizeT ((k.dev.sizePartial : Int) + buf.length) := by
    intro code pos k' hcode hr
    cases hr
    exact absurd hret (by dsimp only; omega)
  unfold writeBody at h
  dsimp only at h
  by_cases hkbuf : (k.heap.alloc kmalloc.maxSize env.kbufOk buf.length).1 = .null
  · rw [if_pos hkbuf] at h
    exact hneg (by decide : (0 : Int) < ENOMEM) h
  rw [if_neg hkbuf] at h
  by_cases hcopy : min env.uncopied buf.length ≠ 0
  · rw [if_pos hcopy] at h
    obtain ⟨_, -, h⟩ := bind_eq_ok h
    exact hneg (by decide : (0 : Int) < EFAULT) h
  rw [if_neg hcopy] at h
  obtain ⟨heap, -, h⟩ := bind_eq_ok h
  obtain ⟨kdata, -, h⟩ := bind_eq_ok h
  by_cases hnewbuf : (heap.alloc kmalloc.maxSize env.newbufOk
      (sizeT ((k.dev.sizePartial : Int) + buf.length))).1 = .null
  · rw [if_pos hnewbuf] at h
    obtain ⟨_, -, h⟩ := bind_eq_ok h
    exact hneg (by decide : (0 : Int) < ENOMEM) h
  rw [if_neg hnewbuf] at h
  obtain ⟨k₁, happend, h⟩ := bind_eq_ok h
  obtain ⟨k₂, hfin, h⟩ := bind_eq_ok h
  rw [pure_eq_ok, Except.ok.injEq] at h
  subst h
  by_cases hnl : scanNewline kdata = true
  · rw [if_pos hnl] at hfin
    exact Or.inl (finalize_bufferPartial hfin)
  · rw [if_neg hnl] at hfin
    cases hfin
    have hsize := append_sizePartial happend
    exact Or.inr hsize

/-- The same for the whole call. -/
theorem aesdWrite_accumulator {env : WriteEnv} {buf : List Byte} {fPos : Int}
    {r : CallResult KState} (hlock : k.dev.lock = .unlocked)
    (h : aesdWrite kmalloc env buf fPos k = .ok r) (hret : 0 ≤ r.ret) :
    r.state.dev.bufferPartial = .null ∨
      r.state.dev.sizePartial = sizeT ((k.dev.sizePartial : Int) + buf.length) := by
  unfold aesdWrite at h
  rw [mutexLock_of_unlocked hlock, ok_bind] at h
  obtain ⟨r₁, hbody, h⟩ := bind_eq_ok h
  obtain ⟨dev, hunlock, h⟩ := bind_eq_ok h
  rw [pure_eq_ok, Except.ok.injEq] at h
  subst h
  unfold AesdDev.mutexUnlock at hunlock
  split at hunlock
  · cases hunlock
    have hbody := writeBody_accumulator hbody hret
    exact hbody
  · cases hunlock

/-- A write that finishes the open command leaves no buffer behind. -/
theorem Driver.Ready.step_finishes (h : s.Ready kmalloc cmds log) (file : Nat) {buf : List Byte}
    {env : WriteEnv} (hg : env.Grants kmalloc log.pending.length buf.length)
    (hnl : newline ∈ buf) :
    ∃ s' cmds', s.step kmalloc (.write file buf env) =
        .ok (⟨.write file buf env, buf.length, []⟩, s') ∧
      s'.Ready kmalloc cmds' (log.write buf) ∧ s'.k.dev.bufferPartial = .null := by
  obtain ⟨k', cmds', hwrite, hidle⟩ := aesdWrite_granted h.idle hg (s.filePos file)
  refine ⟨_, cmds', ?_, h.after file (isSigned64_signed64 (s.filePos file + buf.length)) hidle, ?_⟩
  · simp only [Driver.step, hwrite, ok_bind, pure_eq_ok, CallResult.filePos, Int.natCast_nonneg,
      if_true]
  · rcases aesdWrite_accumulator h.idle.unlocked hwrite (Int.natCast_nonneg _) with hnull | hsize
    · exact hnull
    · -- Something would be pending, but the open command is empty now.
      have hpos := List.length_pos_of_mem hnl
      have hcount : buf.length ≤ kmalloc.maxSize := by
        have := hg.1
        omega
      have hzero : k'.dev.sizePartial = 0 := by
        rw [hidle.size, (log.write_of_mem hnl).2]
        rfl
      rw [h.idle.toStores.size_add hcount] at hsize
      dsimp only at hsize
      omega

/-! ## A command that is as large as a block can be -/

/-- A call that writes at least one byte. -/
def Call.WritesData : Call → Prop
  | .write _ buf _ => buf ≠ []
  | _ => False

/-- In a full machine no write with data succeeds, and the log stays. -/
theorem LogDriver.step_full {t : LogDriver} (hfull : t.log.pending.length = kmalloc.maxSize)
    (call : Call) :
    (t.step kmalloc call).2.log = t.log ∧
      (call.WritesData → (t.step kmalloc call).1.ret < 0) := by
  cases call with
  | write file buf env =>
    rw [LogDriver.step]
    by_cases hnil : buf = []
    · subst hnil
      refine ⟨?_, fun hdata => absurd rfl hdata⟩
      split
      · have hwrite := t.log.write_of_notMem (w := []) (by simp)
        exact CommandLog.ext hwrite.1 (by rw [hwrite.2, List.append_nil])
      · rfl
    · have hpos := List.length_pos_iff.mpr hnil
      have hg : ¬ env.Grants kmalloc t.log.pending.length buf.length := by
        intro hg
        have := hg.2.2
        omega
      rw [if_neg hg]
      refine ⟨rfl, fun _ => ?_⟩
      show env.refusal kmalloc buf.length < 0
      rcases env.refusal_cases kmalloc buf.length with hret | hret
      · rw [hret]
        decide
      · rw [hret]
        decide
  | openFile | read | llseek | ioctl => exact ⟨rfl, False.elim⟩

/-- A full machine stays full, whatever is called. -/
theorem LogDriver.run_full {t : LogDriver} (hfull : t.log.pending.length = kmalloc.maxSize)
    (calls : List Call) :
    ∀ e ∈ (Mealy.run (LogDriver.step kmalloc) t calls).1, e.call.WritesData → e.ret < 0 := by
  induction calls generalizing t with
  | nil =>
    intro e he
    cases he
  | cons call calls ih =>
    obtain ⟨hlog, hret⟩ := LogDriver.step_full hfull call
    rw [Mealy.run_cons]
    intro e he hdata
    rcases List.mem_cons.mp he with rfl | he
    · rw [LogDriver.step_call] at hdata
      exact hret hdata
    · exact ih (by rw [hlog, hfull]) e he hdata

/-- No write with data succeeds from here on. -/
def Driver.Wedged (kmalloc : Kmalloc) (s : Driver) : Prop :=
  ∀ calls events s', s.run kmalloc calls = .ok (events, s') →
    ∀ e ∈ events, e.call.WritesData → e.ret < 0

/-- A newline that is written to `file` now succeeds, finishes the open
command and leaves nothing open. -/
def Driver.NewlineFinishes (kmalloc : Kmalloc) (s : Driver) (file : Nat) : Prop :=
  ∃ pending entries e s', s.k.pending = .ok pending ∧ s.k.commands = .ok entries ∧
    s.step kmalloc (.write file [newline] .granting) = .ok (e, s') ∧ e.ret = 1 ∧
    s'.k.commands = .ok ((entries ++ [pending ++ [newline]]).rtake maxWriteOperations) ∧
    s'.k.pending = .ok [] ∧ s'.k.dev.bufferPartial = .null ∧ s'.k.dev.sizePartial = 0

/-- The open command can be finished exactly if it is shorter than a block can
be. -/
theorem Driver.Ready.newlineFinishes_iff (h : s.Ready kmalloc cmds log) (file : Nat) :
    s.NewlineFinishes kmalloc file ↔ s.k.dev.sizePartial < kmalloc.maxSize := by
  rw [h.idle.size]
  constructor
  · intro ⟨_, _, e, s', _, _, hstep, hret, _⟩
    by_contra hle
    have hg : ¬ WriteEnv.granting.Grants kmalloc log.pending.length [newline].length := by
      intro hg
      have hlen : [newline].length = 1 := rfl
      have := hg.2.2
      omega
    obtain ⟨ret, s'', hstep', hneg, -⟩ := h.step_refused file hg
    rw [hstep, Except.ok.injEq, Prod.mk.injEq] at hstep'
    rw [hstep'.1] at hret
    dsimp only at hret
    omega
  · intro hlt
    have hg : WriteEnv.granting.Grants kmalloc log.pending.length [newline].length := by
      have hle : log.pending.length + 1 ≤ kmalloc.maxSize := hlt
      exact ⟨Or.inr ⟨rfl, Nat.le_trans (Nat.le_add_left _ _) hle⟩, Nat.zero_min _,
        Or.inr ⟨rfl, hle⟩⟩
    have hnl : newline ∈ [newline] := List.mem_singleton_self _
    obtain ⟨s', cmds', hstep, h', hnull⟩ := h.step_finishes file hg hnl
    have hpending := (log.write_of_mem hnl).2
    refine ⟨_, _, _, s', h.idle.pending_eq, h.idle.commands_eq, hstep, rfl, ?_, ?_, hnull, ?_⟩
    · rw [h'.idle.commands_eq, log.visible_write_of_mem hnl]
    · rw [h'.idle.pending_eq, hpending]
    · rw [h'.idle.size, hpending]
      rfl

/-- A device is wedged exactly if its open command is as long as a block can
be. -/
theorem Driver.Ready.wedged_iff (h : s.Ready kmalloc cmds log) :
    s.Wedged kmalloc ↔ s.k.dev.sizePartial = kmalloc.maxSize := by
  constructor
  · intro hwedged
    by_contra hne
    have hle : s.k.dev.sizePartial ≤ kmalloc.maxSize := by
      rw [h.idle.size]
      exact h.idle.pending_le
    obtain ⟨_, _, e, s', _, _, hstep, hret, _⟩ :=
      (h.newlineFinishes_iff 0).mpr (Nat.lt_of_le_of_ne hle hne)
    have hcall : e.call = .write 0 [newline] .granting := by
      obtain ⟨e', _, _, hstep', hcall, _⟩ := h.step (.write 0 [newline] .granting)
      rw [hstep, Except.ok.injEq, Prod.mk.injEq] at hstep'
      rw [hstep'.1, hcall]
    have hdata : e.call.WritesData := by
      rw [hcall]
      exact List.cons_ne_nil _ _
    have hneg := hwedged _ _ _ (Driver.run_singleton hstep) e List.mem_cons_self hdata
    omega
  · intro hfull calls events s' hrun
    have hrefines : s.Refines kmalloc ⟨log, s.filePos⟩ := ⟨⟨cmds, h⟩, rfl⟩
    obtain ⟨s'', hrun', -⟩ := hrefines.run calls
    rw [hrun, Except.ok.injEq, Prod.mk.injEq] at hrun'
    rw [hrun'.1]
    refine LogDriver.run_full ?_ calls
    rw [← hfull, h.idle.size]

/-- After any run of calls, a newline finishes the open command exactly if the
accumulator holds less than the largest block that `kmalloc` can serve.  In
every other state that can be reached no write with data ever succeeds. -/
theorem pending_finishes_iff (kmalloc : Kmalloc) (calls : List Call) :
    ∃ events s, Driver.loaded.run kmalloc calls = .ok (events, s) ∧
      events.map Event.call = calls ∧
      (∀ file, s.NewlineFinishes kmalloc file ↔ s.k.dev.sizePartial < kmalloc.maxSize) ∧
      (¬ s.Wedged kmalloc ↔ s.k.dev.sizePartial < kmalloc.maxSize) := by
  obtain ⟨events, s, cmds, hrun, hcalls, h⟩ := Driver.run_loaded kmalloc calls
  refine ⟨events, s, hrun, hcalls, h.newlineFinishes_iff, ?_⟩
  have hle : s.k.dev.sizePartial ≤ kmalloc.maxSize := by
    rw [h.idle.size]
    exact h.idle.pending_le
  rw [h.wedged_iff]
  omega

/-- One write that fills a block and holds no newline wedges the device. -/
theorem Driver.wedged_of_write {buf : List Byte} (hlen : buf.length = kmalloc.maxSize)
    (hnl : newline ∉ buf) (file : Nat) :
    ∃ e s, Driver.loaded.run kmalloc [.write file buf .granting] = .ok ([e], s) ∧
      e.ret = buf.length ∧ s.Wedged kmalloc ∧ ∀ file, ¬ s.NewlineFinishes kmalloc file := by
  have hle : 0 + buf.length ≤ kmalloc.maxSize := by omega
  have hg : WriteEnv.granting.Grants kmalloc CommandLog.empty.pending.length buf.length :=
    ⟨Or.inr ⟨rfl, Nat.le_of_eq hlen⟩, Nat.zero_min _, Or.inr ⟨rfl, hle⟩⟩
  obtain ⟨s, cmds, hstep, h, -⟩ := (Driver.ready_loaded kmalloc).step_granted file hg
  have hfull : s.k.dev.sizePartial = kmalloc.maxSize := by
    rw [h.idle.size, (CommandLog.empty.write_of_notMem hnl).2, ← hlen]
    rfl
  refine ⟨_, s, Driver.run_singleton hstep, rfl, h.wedged_iff.mpr hfull, fun file' hfin => ?_⟩
  have := (h.newlineFinishes_iff file').mp hfin
  omega

/-- An allocator that serves blocks of up to four megabytes. -/
def Kmalloc.fourMegabytes : Kmalloc := ⟨2 ^ 22, by decide⟩

/-- A client that writes four megabytes without a newline wedges the device. -/
theorem four_megabytes_wedge :
    ∃ e s, Driver.loaded.run .fourMegabytes
        [.write 0 (List.replicate (2 ^ 22) 97) .granting] = .ok ([e], s) ∧
      e.ret = 2 ^ 22 ∧ s.Wedged .fourMegabytes ∧
      ∀ file, ¬ s.NewlineFinishes .fourMegabytes file := by
  have hlen : (List.replicate (2 ^ 22) (97 : Byte)).length = 2 ^ 22 := List.length_replicate
  have hnl : newline ∉ List.replicate (2 ^ 22) (97 : Byte) := by
    intro hmem
    exact absurd (List.eq_of_mem_replicate hmem) (by decide)
  obtain ⟨e, s, hrun, hret, hwedged, hfin⟩ :=
    Driver.wedged_of_write (show _ = Kmalloc.fourMegabytes.maxSize from hlen) hnl 0
  refine ⟨e, s, hrun, ?_, hwedged, hfin⟩
  rw [hret, hlen]
  rfl

end AesdChar
