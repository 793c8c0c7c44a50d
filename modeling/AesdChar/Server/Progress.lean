import AesdChar.Driver.History
import AesdChar.Server.Worker

/-!
# Workers on the character device: every step is safe and makes progress

The rounds of a worker on `/dev/aesdchar`, one lemma for each: what a write
round, a read round and a send round do to the worker and to the log, for any
answers of the operating system.

`Running` is the invariant of any number of workers, and `Running.step` its
step lemma.  It also says that a step that does not wait makes `Worker.rank`
smaller, so no loop of `threadfunc` runs forever: `Running.run` bounds the
number of steps that each worker takes in any run.
-/

namespace AesdChar

open CodeLib CodeLib.CInt CodeLib.Ring CodeLib.CString

variable {kmalloc : Kmalloc} {k : KState} {cmds : Slots} {log : CommandLog}
  {env : WorkerEnv} {w : Worker}

/-! ## Seek requests -/

/-- A command that is treated as a seek request. -/
def IsSeek (c : List Byte) : Prop := ioctlPrefix <+: c

instance (c : List Byte) : Decidable (IsSeek c) := by
  unfold IsSeek
  infer_instance

/-- The prefix test looks at the received bytes only. -/
theorem strncmp_received_iff {c : List Byte} (h : c.length ≤ fullBufSize) :
    strncmp ioctlPrefix.length (received c) ioctlPrefix = 0 ↔ IsSeek c := by
  have hzero : (0 : Byte) ∉ ioctlPrefix := by decide
  have hlen : ioctlPrefix.length ≤ (received c).length := by
    rw [length_received h]
    decide
  rw [strncmp_eq_zero_iff hlen hzero, IsSeek]
  constructor
  · intro hpre
    rcases Nat.lt_or_ge c.length ioctlPrefix.length with hlt | hge
    · -- The byte behind the command is zero, and the prefix holds no zero byte.
      have hget := hpre.getElem hlt
      have hroom : c.length < (received c).length := Nat.lt_of_lt_of_le hlt hlen
      have hbehind : (received c)[c.length] = 0 := by simp [received]
      rw [hbehind] at hget
      exact absurd (hget ▸ List.getElem_mem hlt) hzero
    · exact List.prefix_of_prefix_length_le hpre (List.prefix_append _ _) hge
  · intro hpre
    exact hpre.trans (List.prefix_append _ _)

/-! ## The rounds of a worker -/

/-- A seek request moves the open file at most. -/
theorem Worker.request_seek (env : WorkerEnv) (h : Idle kmalloc k cmds log)
    (hpos : IsSigned64 w.fPos)
    (hseek : strncmp ioctlPrefix.length w.fullBuf ioctlPrefix = 0) :
    ∃ pos, w.request (aesdFops kmalloc) env k = .ok ({ w with pc := .read, fPos := pos }, k) ∧
      IsSigned64 pos := by
  unfold Worker.request
  rw [if_pos hseek]
  split
  · rename_i cmdIdx cmdOffset _
    obtain ⟨r, hioctl, hstate, hr⟩ := aesdUnlockedIoctl_state h.unlocked env.ioctlUncopied
      AESDCHAR_IOCSEEKTO ⟨cmdIdx, cmdOffset⟩ hpos
    refine ⟨r.fPos, ?_, hr⟩
    simp only [aesdFops, hioctl, ok_bind, hstate, pure_eq_ok]
  · exact ⟨w.fPos, rfl, hpos⟩

/-- Any other command goes to the write loop. -/
theorem Worker.request_write {σ : Type} {ops : FileOps σ} {dev : σ} (env : WorkerEnv)
    (hseek : ¬ strncmp ioctlPrefix.length w.fullBuf ioctlPrefix = 0) :
    w.request ops env dev = .ok ({ w with pc := .write 0 }, dev) := by
  unfold Worker.request
  rw [if_neg hseek]
  rfl

/-- A write that the kernel grants takes everything that is left. -/
theorem Worker.writeRound_granted (h : Idle kmalloc k cmds log) {n : Nat} (hn : n < w.totalLen)
    (hlen : w.totalLen ≤ w.fullBuf.length) (hmax : w.totalLen < 2 ^ 63)
    (hg : (env.writes w.writes).Grants kmalloc log.pending.length (w.unwritten n).length) :
    ∃ k' cmds', w.writeRound (aesdFops kmalloc) env n k =
        .ok (.wrote (w.unwritten n) (w.unwritten n).length,
          { w with
            writes := w.writes + 1
            fPos := signed64 (w.fPos + (w.unwritten n).length)
            pc := .write w.totalLen }, k') ∧
      Idle kmalloc k' cmds' (log.write (w.unwritten n)) := by
  obtain ⟨k', cmds', hwrite, hidle⟩ := aesdWrite_granted h hg w.fPos
  refine ⟨k', cmds', ?_, hidle⟩
  have hrest : (w.unwritten n).length = w.totalLen - n := by
    rw [unwritten, List.length_take, List.length_drop]
    omega
  have hnonneg : ¬ ((w.unwritten n).length : Int) < 0 := by omega
  have htotal : sizeT ((n : Int) + (w.unwritten n).length) = w.totalLen := by
    rw [show (n : Int) + (w.unwritten n).length = (w.totalLen : Nat) by omega]
    exact sizeT_of_lt (Nat.lt_trans hmax (by decide))
  unfold writeRound
  rw [if_pos hn]
  simp only [aesdFops, hwrite, ok_bind, hnonneg, if_false, htotal, pure_eq_ok,
    CallResult.filePos, Int.natCast_nonneg, if_true]

/-- The write loop ends when nothing is left. -/
theorem Worker.writeRound_done {σ : Type} {ops : FileOps σ} {dev : σ} {n : Nat}
    (hn : w.totalLen ≤ n) :
    w.writeRound ops env n dev = .ok (.internal, { w with pc := .rewind }, dev) := by
  unfold writeRound
  rw [if_neg (Nat.not_lt.mpr hn)]
  rfl

/-- A write that the kernel refuses ends the write loop. -/
theorem Worker.writeRound_refused (h : Idle kmalloc k cmds log) {n : Nat} (hn : n < w.totalLen)
    (hg : ¬ (env.writes w.writes).Grants kmalloc log.pending.length (w.unwritten n).length) :
    ∃ ret k', w.writeRound (aesdFops kmalloc) env n k =
        .ok (.wrote (w.unwritten n) ret, { w with writes := w.writes + 1, pc := .rewind }, k') ∧
      ret < 0 ∧ Idle kmalloc k' cmds log := by
  obtain ⟨ret, heap, hwrite, hret, hidle⟩ := aesdWrite_refused h hg w.fPos
  have hneg : ret < 0 := by
    rcases hret with rfl | rfl <;> decide
  refine ⟨ret, _, ?_, hneg, hidle⟩
  unfold writeRound
  rw [if_pos hn]
  simp only [aesdFops, hwrite, ok_bind, hneg, if_true, pure_eq_ok, CallResult.filePos,
    Int.not_le.mpr hneg, if_false]

/-- A read round either ends the reply or hands a window of the content to the
send loop. -/
theorem Worker.readRound_spec (env : WorkerEnv) (h : Idle kmalloc k cmds log)
    (hpos : IsSigned64 w.fPos) :
    (∃ pos, w.readRound (aesdFops kmalloc) env k =
        .ok ({ w with reads := w.reads + 1, fPos := pos, pc := .closeDev }, k) ∧
      IsSigned64 pos ∧
      ((∀ i, (env.reads w.reads).uncopied i = 0) →
        ∀ off : Nat, w.fPos = off → log.content.drop off = [])) ∨
    ∃ off : Nat, w.fPos = off ∧ (log.content.drop off).take bufSize ≠ [] ∧
      w.readRound (aesdFops kmalloc) env k =
        .ok ({ w with
          reads := w.reads + 1
          fPos := (off + ((log.content.drop off).take bufSize).length : Nat)
          pc := .send ((log.content.drop off).take bufSize) 0 }, k) := by
  rcases Int.lt_or_le w.fPos 0 with hneg | hnonneg
  · refine Or.inl ⟨w.fPos, ?_, hpos, fun _ off hoff => by omega⟩
    unfold readRound
    simp only [aesdFops, aesdRead_neg h _ _ _ hpos hneg, ok_bind, pure_eq_ok, CallResult.filePos,
      Int.le_refl, if_true, Int.lt_irrefl, if_false]
  · obtain ⟨off, hoff⟩ := Int.eq_ofNat_of_zero_le hnonneg
    have hlt : off < 2 ^ 63 := by
      have := hpos.2
      rw [hoff] at this
      exact_mod_cast this
    obtain ⟨r, hread, hstate, hres⟩ := aesdRead_spec h (env.reads w.reads) [] bufSize hlt
    unfold readRound
    simp only [aesdFops, hoff, hread, ok_bind, pure_eq_ok, hstate]
    rcases hres with ⟨hfault, hret⟩ | ⟨hret, hfPos, hubuf⟩
    · refine Or.inl ⟨off, ?_, isSigned64_of_lt hlt, fun hok => ?_⟩
      · have hneg : r.ret < 0 := by
          rw [hret]
          decide
        rw [if_neg (Int.not_lt.mpr (Int.le_of_lt hneg)), CallResult.filePos,
          if_neg (Int.not_le.mpr hneg)]
      · obtain ⟨i, hi⟩ := hfault
        exact absurd (hok i) hi
    · have hfile : r.filePos off = (off + ((log.content.drop off).take bufSize).length : Nat) := by
        rw [CallResult.filePos, if_pos (by rw [hret]; exact Int.natCast_nonneg _), hfPos]
      rw [hfile]
      by_cases hnil : (log.content.drop off).take bufSize = []
      · refine Or.inl ⟨off, ?_, isSigned64_of_lt hlt, fun _ off' hoff' => ?_⟩
        · rw [hret, hnil]
          simp
        · obtain rfl : off = off' := by exact_mod_cast hoff'
          rcases List.take_eq_nil_iff.mp hnil with hzero | hdrop
          · exact absurd hzero (by decide)
          · exact hdrop
      · refine Or.inr ⟨off, rfl, hnil, ?_⟩
        have hpositive : 0 < r.ret := by
          rw [hret]
          exact_mod_cast List.length_pos_iff.mpr hnil
        have htake : r.ubuf.take r.ret.toNat = (log.content.drop off).take bufSize := by
          rw [hret, Int.toNat_natCast, hubuf, List.take_left]
        rw [if_pos hpositive, htake]

/-- The way to the reply loop leaves the device alone. -/
theorem Worker.rewind_spec (build : Build) (env : WorkerEnv) (h : Idle kmalloc k cmds log)
    (hpos : IsSigned64 w.fPos) :
    ∃ pc pos, w.rewind build (aesdFops kmalloc) env k = .ok ({ w with pc := pc, fPos := pos }, k) ∧
      IsSigned64 pos ∧ (pc = .read ∨ pc = .abort) := by
  obtain ⟨copy, charDevice⟩ := build
  cases charDevice with
  | true =>
    cases copy with
    | server => exact ⟨.read, w.fPos, rfl, hpos, Or.inl rfl⟩
    | metaAesd =>
      cases hopen : env.reopenOk with
      | true =>
        refine ⟨.read, 0, ?_, isSigned64_zero, Or.inl rfl⟩
        simp only [rewind, hopen]
        rfl
      | false =>
        refine ⟨.abort, w.fPos, ?_, hpos, Or.inr rfl⟩
        simp only [rewind, hopen]
        rfl
  | false =>
    obtain ⟨r, hseek, hstate, hr⟩ := aesdLlseek_state h.unlocked SEEK_SET hpos isSigned64_zero
    refine ⟨.read, r.fPos, ?_, hr, Or.inl rfl⟩
    simp only [rewind, aesdFops, hseek, ok_bind, hstate]
    rfl

/-- A `send` sends at least one byte and at most all of them. -/
theorem sendCount_pos_le (left : Nat) {len : Nat} (h : 0 < len) :
    0 < sendCount left len ∧ sendCount left len ≤ len := by
  unfold sendCount
  omega

/-! ## One step -/

/-- The places where a worker holds `file_mutex`. -/
def Pc.holds : Pc → Bool
  | .openDev | .request | .write _ | .rewind | .read | .send _ _ | .closeDev | .unlock
  | .complete | .unlockDone | .abort => true
  | .recv | .lock | .closeSocket | .lockDone | .abortClose | .done => false

/-- The log after an action. -/
def CommandLog.record (log : CommandLog) : Action → CommandLog
  | .wrote buf ret => if 0 ≤ ret then log.write buf else log
  | _ => log

/-- A write that returned its count is recorded. -/
theorem CommandLog.record_wrote (log : CommandLog) (buf : List Byte) {ret : Int} (h : 0 ≤ ret) :
    log.record (.wrote buf ret) = log.write buf := by
  show (if 0 ≤ ret then log.write buf else log) = log.write buf
  rw [if_pos h]

/-- A write that failed is not. -/
theorem CommandLog.record_failed (log : CommandLog) (buf : List Byte) {ret : Int} (h : ret < 0) :
    log.record (.wrote buf ret) = log := by
  show (if 0 ≤ ret then log.write buf else log) = log
  rw [if_neg (Int.not_le.mpr h)]

/-- An upper bound for the number of steps that a worker still takes.  `most`
bounds what the device can hold, and `content` is what it holds now. -/
def Worker.rank (most content : Nat) (w : Worker) : Nat :=
  match w.pc with
  | .recv => 3 * most + 13 + fullBufSize
  | .lock => 3 * most + 12 + w.totalLen
  | .openDev => 3 * most + 11 + w.totalLen
  | .request => 3 * most + 10 + w.totalLen
  | .write writtenTotal => 3 * most + 9 + (w.totalLen - writtenTotal)
  | .rewind => 3 * most + 8
  | .send sendBuf sentTotal =>
    3 * (content - w.fPos.toNat) + (sendBuf.length - sentTotal) + 8
  | .read => 3 * (content - w.fPos.toNat) + 7
  | .closeDev => 6
  | .unlock => 5
  | .closeSocket => 4
  | .lockDone => 3
  | .complete => 2
  | .abort => 2
  | .unlockDone => 1
  | .abortClose => 1
  | .done => 0

/-- What is true of a worker at every step. -/
structure Worker.Ok (env : WorkerEnv) (w : Worker) : Prop where
  buf : w.pc ≠ .recv →
    w.fullBuf = received (command env.recv) ∧ w.totalLen = (command env.recv).length
  pos : IsSigned64 w.fPos

/-- The buffer has room for the command, and its length does not wrap. -/
theorem Worker.Ok.totalLen_le (h : w.Ok env) (hpc : w.pc ≠ .recv) :
    w.totalLen ≤ w.fullBuf.length ∧ w.totalLen < 2 ^ 63 := by
  obtain ⟨hbuf, htotal⟩ := h.buf hpc
  have hle := length_command_le env.recv
  rw [htotal, hbuf, length_received hle]
  exact ⟨hle, Nat.lt_of_le_of_lt hle (by decide)⟩

theorem Worker.Ok.totalLen_pos (h : w.Ok env) (hpc : w.pc ≠ .recv) (hne : command env.recv ≠ []) :
    0 < w.totalLen := by
  rw [(h.buf hpc).2]
  exact List.length_pos_iff.mpr hne

/-- At first the whole command is unwritten. -/
theorem Worker.Ok.unwritten_zero (h : w.Ok env) (hpc : w.pc ≠ .recv) :
    w.unwritten 0 = command env.recv := by
  obtain ⟨hbuf, htotal⟩ := h.buf hpc
  rw [unwritten, List.drop_zero, Nat.sub_zero, hbuf, htotal, take_received]

theorem Worker.ok_start (env : WorkerEnv) : Worker.start.Ok env :=
  ⟨fun h => absurd rfl h, isSigned64_zero⟩

/-- The most that the device can hold. -/
def Kmalloc.most (kmalloc : Kmalloc) : Nat := maxWriteOperations * kmalloc.maxSize

section Step

variable {ι : Type} {me : ι} {sh : Shared ι KState} {build : Build}

/-- A step of a worker, seen from outside. -/
structure Turn (kmalloc : Kmalloc) (env : WorkerEnv) (me : ι) (log : CommandLog)
    (w : Worker) (sh : Shared ι KState) (a : Action) (w' : Worker) (sh' : Shared ι KState) :
    Prop where
  idle : ∃ cmds, Idle kmalloc sh'.dev cmds (log.record a)
  ok : w'.Ok env
  mutex : w'.pc.holds = true ↔ sh'.mutex = some me
  others : ∀ j, j ≠ me → (sh'.mutex = some j ↔ sh.mutex = some j)
  record : w.pc.holds = false → log.record a = log
  progress : (a = .wait ∧ w' = w ∧ sh' = sh ∧
      (w.pc = .done ∨ w.pc.holds = false ∧ sh.mutex ≠ none)) ∨
    a ≠ .wait ∧ w'.rank kmalloc.most (log.record a).content.length <
      w.rank kmalloc.most log.content.length

/-- A step that leaves what is shared alone. -/
private theorem Turn.keep (h : Idle kmalloc sh.dev cmds log)
    (hm : w.pc.holds = true ↔ sh.mutex = some me) {w' : Worker} (hok : w'.Ok env)
    (hpc : w'.pc.holds = w.pc.holds)
    (hrank : w'.rank kmalloc.most log.content.length < w.rank kmalloc.most log.content.length) :
    Turn kmalloc env me log w sh .internal w' sh where
  idle := ⟨cmds, h⟩
  ok := hok
  mutex := by rwa [hpc]
  others _ _ := Iff.rfl
  record _ := rfl
  progress := Or.inr ⟨by simp, hrank⟩

/-- A step that releases the mutex. -/
private theorem Turn.release (h : Idle kmalloc sh.dev cmds log) (hm : sh.mutex = some me)
    {w' : Worker} (hok : w'.Ok env) (hpc' : w'.pc.holds = false)
    (hrank : w'.rank kmalloc.most log.content.length < w.rank kmalloc.most log.content.length) :
    Turn kmalloc env me log w sh .internal w' { sh with mutex := none } where
  idle := ⟨cmds, h⟩
  ok := hok
  mutex := by simp [hpc']
  others j hj := by simp [hm, hj.symm]
  record _ := rfl
  progress := Or.inr ⟨by simp, hrank⟩

/-- A step that takes the mutex. -/
private theorem Turn.take (h : Idle kmalloc sh.dev cmds log) (hm : sh.mutex = none) {a : Action}
    {w' : Worker} (hwait : a ≠ .wait) (ha : log.record a = log) (hok : w'.Ok env)
    (hpc' : w'.pc.holds = true)
    (hrank : w'.rank kmalloc.most log.content.length < w.rank kmalloc.most log.content.length) :
    Turn kmalloc env me log w sh a w' { sh with mutex := some me } where
  idle := ⟨cmds, by rwa [ha]⟩
  ok := hok
  mutex := by simp [hpc']
  others j hj := by simp [hm, hj.symm]
  record _ := ha
  progress := Or.inr ⟨hwait, by rwa [ha]⟩

/-- A step that waits: the worker is done, or another one holds the mutex. -/
private theorem Turn.wait (h : Idle kmalloc sh.dev cmds log) (hok : w.Ok env)
    (hm : w.pc.holds = true ↔ sh.mutex = some me)
    (hwait : w.pc = .done ∨ w.pc.holds = false ∧ sh.mutex ≠ none) :
    Turn kmalloc env me log w sh .wait w sh where
  idle := ⟨cmds, h⟩
  ok := hok
  mutex := hm
  others _ _ := Iff.rfl
  record _ := rfl
  progress := Or.inl ⟨rfl, rfl, rfl, hwait⟩

/-- A worker has a step to take, and it is a `Turn`. -/
def Worker.TakesTurn [DecidableEq ι] (kmalloc : Kmalloc) (build : Build) (env : WorkerEnv)
    (me : ι) (log : CommandLog) (w : Worker) (sh : Shared ι KState) : Prop :=
  ∃ a w' sh', w.step build (aesdFops kmalloc) env me sh = .ok (a, w', sh') ∧
    Turn kmalloc env me log w sh a w' sh'

section Stages

variable [DecidableEq ι]

/-- The command arrives. -/
theorem Worker.Ok.recvTurn (build : Build) (hw : w.Ok env) (h : Idle kmalloc sh.dev cmds log)
    (hm : w.pc.holds = true ↔ sh.mutex = some me) (hpc : w.pc = .recv) :
    w.TakesTurn kmalloc build env me log sh := by
  refine ⟨_, _, _, step_recv hpc (receive_eq _ _), ?_⟩
  refine Turn.keep h hm ⟨fun _ => ⟨rfl, rfl⟩, hw.pos⟩ (by rw [hpc]; rfl) ?_
  have := length_command_le env.recv
  simp only [rank, hpc]
  omega

/-- A worker takes the mutex, or waits for it. -/
theorem Worker.Ok.lockTurn (build : Build) (hw : w.Ok env) (h : Idle kmalloc sh.dev cmds log)
    (hm : w.pc.holds = true ↔ sh.mutex = some me) (hpc : w.pc = .lock ∨ w.pc = .lockDone) :
    w.TakesTurn kmalloc build env me log sh := by
  have hbuf := hw.buf (by rcases hpc with hpc | hpc <;> simp [hpc])
  by_cases hfree : sh.mutex = none
  · rcases hpc with hpc | hpc
    · refine ⟨_, _, _, step_lock_free hpc hfree, ?_⟩
      refine Turn.take h hfree (by simp) rfl ⟨fun _ => hbuf, hw.pos⟩ rfl ?_
      simp only [rank, hpc]
      omega
    · refine ⟨_, _, _, step_lockDone_free hpc hfree, ?_⟩
      refine Turn.take h hfree (by simp) rfl ⟨fun _ => hbuf, hw.pos⟩ rfl ?_
      simp only [rank, hpc]
      omega
  · rcases hpc with hpc | hpc
    · exact ⟨_, _, _, step_lock_taken hpc hfree,
        Turn.wait h hw hm (Or.inr ⟨by rw [hpc]; rfl, hfree⟩)⟩
    · exact ⟨_, _, _, step_lockDone_taken hpc hfree,
        Turn.wait h hw hm (Or.inr ⟨by rw [hpc]; rfl, hfree⟩)⟩

/-- The device is opened, or not. -/
theorem Worker.Ok.openTurn (build : Build) (hw : w.Ok env) (h : Idle kmalloc sh.dev cmds log)
    (hm : w.pc.holds = true ↔ sh.mutex = some me) (hpc : w.pc = .openDev) :
    w.TakesTurn kmalloc build env me log sh := by
  have hbuf := hw.buf (by simp [hpc])
  cases hopen : env.openOk with
  | true =>
    refine ⟨_, _, _, step_openDev hpc hopen, ?_⟩
    refine Turn.keep h hm ⟨fun _ => hbuf, isSigned64_zero⟩ (by rw [hpc]; rfl) ?_
    simp only [rank, hpc]
    omega
  | false =>
    refine ⟨_, _, _, step_openDev_fail hpc hopen, ?_⟩
    refine Turn.keep h hm ⟨fun _ => hbuf, hw.pos⟩ (by rw [hpc]; rfl) ?_
    simp only [rank, hpc]
    omega

/-- The command is looked at, and a seek request is done. -/
theorem Worker.Ok.requestTurn (build : Build) (hw : w.Ok env) (h : Idle kmalloc sh.dev cmds log)
    (hm : w.pc.holds = true ↔ sh.mutex = some me) (hpc : w.pc = .request) :
    w.TakesTurn kmalloc build env me log sh := by
  have hmost : log.content.length ≤ kmalloc.most := h.content_le
  have hbuf := hw.buf (by simp [hpc])
  by_cases hseek : strncmp ioctlPrefix.length w.fullBuf ioctlPrefix = 0
  · obtain ⟨pos, hrequest, hpos⟩ := request_seek env h hw.pos hseek
    refine ⟨_, _, _, step_request hpc hrequest, ?_⟩
    refine Turn.keep h hm ⟨fun _ => hbuf, hpos⟩ (by rw [hpc]; rfl) ?_
    simp only [rank, hpc]
    omega
  · refine ⟨_, _, _, step_request hpc (request_write env hseek), ?_⟩
    refine Turn.keep h hm ⟨fun _ => hbuf, hw.pos⟩ (by rw [hpc]; rfl) ?_
    simp only [rank, hpc]
    omega

/-- A round of the write loop, or its end. -/
theorem Worker.Ok.writeTurn (build : Build) (hw : w.Ok env) (h : Idle kmalloc sh.dev cmds log)
    (hm : w.pc.holds = true ↔ sh.mutex = some me) {n : Nat} (hpc : w.pc = .write n) :
    w.TakesTurn kmalloc build env me log sh := by
  have hbuf := hw.buf (by simp [hpc])
  rcases Nat.lt_or_ge n w.totalLen with hn | hn
  · by_cases hg :
        (env.writes w.writes).Grants kmalloc log.pending.length (w.unwritten n).length
    · obtain ⟨hlen, hmax⟩ := hw.totalLen_le (by simp [hpc])
      obtain ⟨k', cmds', hround, hidle⟩ := writeRound_granted h hn hlen hmax hg
      refine ⟨_, _, _, step_write hpc hround, ⟨cmds', ?_⟩, ⟨fun _ => hbuf, ?_⟩, ?_, ?_, ?_, ?_⟩
      · rwa [log.record_wrote _ (Int.natCast_nonneg _)]
      · exact isSigned64_signed64 _
      · rw [← hm, hpc]
        rfl
      · exact fun _ _ => Iff.rfl
      · simp [hpc, Pc.holds]
      · refine Or.inr ⟨by simp, ?_⟩
        simp only [rank, hpc]
        omega
    · obtain ⟨ret, k', hround, hneg, hidle⟩ := writeRound_refused h hn hg
      have hrecord := log.record_failed (w.unwritten n) hneg
      refine ⟨_, _, _, step_write hpc hround, ⟨cmds, by rwa [hrecord]⟩,
        ⟨fun _ => hbuf, hw.pos⟩, ?_, fun _ _ => Iff.rfl, fun _ => hrecord, Or.inr ⟨by simp, ?_⟩⟩
      · rw [← hm, hpc]
        rfl
      · simp only [rank, hpc]
        omega
  · refine ⟨_, _, _, step_write hpc (writeRound_done hn), ?_⟩
    refine Turn.keep h hm ⟨fun _ => hbuf, hw.pos⟩ (by rw [hpc]; rfl) ?_
    simp only [rank, hpc]
    omega

/-- The way from the write loop to the reply. -/
theorem Worker.Ok.rewindTurn (build : Build) (hw : w.Ok env) (h : Idle kmalloc sh.dev cmds log)
    (hm : w.pc.holds = true ↔ sh.mutex = some me) (hpc : w.pc = .rewind) :
    w.TakesTurn kmalloc build env me log sh := by
  have hmost : log.content.length ≤ kmalloc.most := h.content_le
  have hbuf := hw.buf (by simp [hpc])
  obtain ⟨pc', pos, hrewind, hpos, hpc'⟩ := rewind_spec build env h hw.pos
  refine ⟨_, _, _, step_rewind hpc hrewind, ?_⟩
  rcases hpc' with rfl | rfl
  · refine Turn.keep h hm ⟨fun _ => hbuf, hpos⟩ (by rw [hpc]; rfl) ?_
    simp only [rank, hpc]
    omega
  · refine Turn.keep h hm ⟨fun _ => hbuf, hpos⟩ (by rw [hpc]; rfl) ?_
    simp only [rank, hpc]
    omega

/-- A `read` of the reply. -/
theorem Worker.Ok.readTurn (build : Build) (hw : w.Ok env) (h : Idle kmalloc sh.dev cmds log)
    (hm : w.pc.holds = true ↔ sh.mutex = some me) (hpc : w.pc = .read) :
    w.TakesTurn kmalloc build env me log sh := by
  have hmost : log.content.length ≤ kmalloc.most := h.content_le
  have hbuf := hw.buf (by simp [hpc])
  rcases readRound_spec env h hw.pos with
    ⟨pos, hround, hpos, -⟩ | ⟨off, hoff, hne, hround⟩
  · refine ⟨_, _, _, step_read hpc hround, ?_⟩
    refine Turn.keep h hm ⟨fun _ => hbuf, hpos⟩ (by rw [hpc]; rfl) ?_
    simp only [rank, hpc]
    omega
  · have hoff_lt : off < 2 ^ 63 := by
      have := hw.pos.2
      rw [hoff] at this
      exact_mod_cast this
    refine ⟨_, _, _, step_read hpc hround, ?_⟩
    refine Turn.keep h hm ⟨fun _ => hbuf, isSigned64_of_lt (h.window_lt bufSize hoff_lt)⟩
      (by rw [hpc]; rfl) ?_
    have hlen := List.length_pos_iff.mpr hne
    have hle : ((log.content.drop off).take bufSize).length ≤ log.content.length - off := by
      rw [List.length_take, List.length_drop]
      exact Nat.min_le_right _ _
    simp only [rank, hpc, hoff, Int.toNat_natCast]
    omega

/-- A round of the send loop, or its end. -/
theorem Worker.Ok.sendTurn (build : Build) (hw : w.Ok env) (h : Idle kmalloc sh.dev cmds log)
    (hm : w.pc.holds = true ↔ sh.mutex = some me) {buf : List Byte} {n : Nat}
    (hpc : w.pc = .send buf n) : w.TakesTurn kmalloc build env me log sh := by
  have hbuf := hw.buf (by simp [hpc])
  refine ⟨_, _, _, step_send hpc, ?_⟩
  unfold sendRound
  split
  · rename_i hn
    split
    · refine Turn.keep h hm ⟨fun _ => hbuf, hw.pos⟩ (by rw [hpc]; rfl) ?_
      simp only [rank, hpc]
      omega
    · rename_i left _
      have hcount := sendCount_pos_le left (Nat.sub_pos_of_lt hn)
      refine Turn.keep h hm ⟨fun _ => hbuf, hw.pos⟩ (by rw [hpc]; rfl) ?_
      simp only [rank, hpc]
      omega
  · refine Turn.keep h hm ⟨fun _ => hbuf, hw.pos⟩ (by rw [hpc]; rfl) ?_
    simp only [rank, hpc]
    omega

/-- The steps that neither touch the device nor the mutex. -/
theorem Worker.Ok.closeTurn (build : Build) (hw : w.Ok env) (h : Idle kmalloc sh.dev cmds log)
    (hm : w.pc.holds = true ↔ sh.mutex = some me)
    (hpc : w.pc = .closeDev ∨ w.pc = .closeSocket ∨ w.pc = .complete ∨ w.pc = .abortClose) :
    w.TakesTurn kmalloc build env me log sh := by
  have hbuf := hw.buf (by rcases hpc with hpc | hpc | hpc | hpc <;> simp [hpc])
  rcases hpc with hpc | hpc | hpc | hpc
  · refine ⟨_, _, _, step_closeDev hpc, ?_⟩
    refine Turn.keep h hm ⟨fun _ => hbuf, hw.pos⟩ (by rw [hpc]; rfl) ?_
    simp only [rank, hpc]
    omega
  · refine ⟨_, _, _, step_closeSocket hpc, ?_⟩
    refine Turn.keep h hm ⟨fun _ => hbuf, hw.pos⟩ (by rw [hpc]; rfl) ?_
    simp only [rank, hpc]
    omega
  · refine ⟨_, _, _, step_complete hpc, ?_⟩
    refine Turn.keep h hm ⟨fun _ => hbuf, hw.pos⟩ (by rw [hpc]; rfl) ?_
    simp only [rank, hpc]
    omega
  · refine ⟨_, _, _, step_abortClose hpc, ?_⟩
    refine Turn.keep h hm ⟨fun _ => hbuf, hw.pos⟩ (by rw [hpc]; rfl) ?_
    simp only [rank, hpc]
    omega

/-- The steps that release the mutex. -/
theorem Worker.Ok.unlockTurn (build : Build) (hw : w.Ok env) (h : Idle kmalloc sh.dev cmds log)
    (hm : w.pc.holds = true ↔ sh.mutex = some me)
    (hpc : w.pc = .unlock ∨ w.pc = .unlockDone ∨ w.pc = .abort) :
    w.TakesTurn kmalloc build env me log sh := by
  have hbuf := hw.buf (by rcases hpc with hpc | hpc | hpc <;> simp [hpc])
  have hmine := hm.mp (by rcases hpc with hpc | hpc | hpc <;> rw [hpc] <;> rfl)
  rcases hpc with hpc | hpc | hpc
  · refine ⟨_, _, _, step_unlock hpc hmine, ?_⟩
    refine Turn.release h hmine ⟨fun _ => hbuf, hw.pos⟩ rfl ?_
    simp only [rank, hpc]
    omega
  · refine ⟨_, _, _, step_unlockDone hpc hmine, ?_⟩
    refine Turn.release h hmine ⟨fun _ => hbuf, hw.pos⟩ rfl ?_
    simp only [rank, hpc]
    omega
  · refine ⟨_, _, _, step_abort hpc hmine, ?_⟩
    refine Turn.release h hmine ⟨fun _ => hbuf, hw.pos⟩ rfl ?_
    simp only [rank, hpc]
    omega

/-- Every step of a worker on the character device is a `Turn`. -/
theorem Worker.Ok.step (build : Build) (hw : w.Ok env) (h : Idle kmalloc sh.dev cmds log)
    (hm : w.pc.holds = true ↔ sh.mutex = some me) :
    w.TakesTurn kmalloc build env me log sh := by
  cases hpc : w.pc with
  | recv => exact hw.recvTurn build h hm hpc
  | lock => exact hw.lockTurn build h hm (Or.inl hpc)
  | openDev => exact hw.openTurn build h hm hpc
  | request => exact hw.requestTurn build h hm hpc
  | write n => exact hw.writeTurn build h hm hpc
  | rewind => exact hw.rewindTurn build h hm hpc
  | read => exact hw.readTurn build h hm hpc
  | send buf n => exact hw.sendTurn build h hm hpc
  | closeDev => exact hw.closeTurn build h hm (Or.inl hpc)
  | unlock => exact hw.unlockTurn build h hm (Or.inl hpc)
  | closeSocket => exact hw.closeTurn build h hm (Or.inr (Or.inl hpc))
  | lockDone => exact hw.lockTurn build h hm (Or.inr hpc)
  | complete => exact hw.closeTurn build h hm (Or.inr (Or.inr (Or.inl hpc)))
  | unlockDone => exact hw.unlockTurn build h hm (Or.inr (Or.inl hpc))
  | abort => exact hw.unlockTurn build h hm (Or.inr (Or.inr hpc))
  | abortClose => exact hw.closeTurn build h hm (Or.inr (Or.inr (Or.inr hpc)))
  | done => exact ⟨_, _, _, step_done hpc, Turn.wait h hw hm (Or.inl hpc)⟩

end Stages

end Step

/-! ## Runs -/

section Run

variable {ι : Type} {env : ι → WorkerEnv} {s : System ι KState} {build : Build}

/-- The invariant of any number of workers on the character device. -/
structure Running (kmalloc : Kmalloc) (env : ι → WorkerEnv) (s : System ι KState)
    (log : CommandLog) : Prop where
  idle : ∃ cmds, Idle kmalloc s.shared.dev cmds log
  ok : ∀ i, (s.workers i).Ok (env i)
  mutex : ∀ i, (s.workers i).pc.holds = true ↔ s.shared.mutex = some i

/-- The workers start on a device that stores a log. -/
theorem running_start (env : ι → WorkerEnv) (h : Idle kmalloc k cmds log) :
    Running kmalloc env (System.start k) log where
  idle := ⟨cmds, h⟩
  ok i := Worker.ok_start (env i)
  mutex i := by simp [System.start, Worker.start, Pc.holds]

/-- Two workers never hold the mutex at once. -/
theorem Running.holder_unique (h : Running kmalloc env s log) {i j : ι}
    (hi : (s.workers i).pc.holds = true) (hj : (s.workers j).pc.holds = true) : i = j := by
  have heq := ((h.mutex i).mp hi).symm.trans ((h.mutex j).mp hj)
  exact Option.some.inj heq

theorem Running.not_holds (h : Running kmalloc env s log) {i j : ι} (hij : j ≠ i)
    (hi : (s.workers i).pc.holds = true) : (s.workers j).pc.holds = false := by
  by_contra hcon
  exact hij (h.holder_unique (by simpa using hcon) hi)

variable [DecidableEq ι]

/-- One step of any worker. -/
theorem Running.step (build : Build) (h : Running kmalloc env s log) (i : ι) :
    ∃ a s', s.step build (aesdFops kmalloc) env i = .ok (a, s') ∧
      Running kmalloc env s' (log.record a) ∧
      Turn kmalloc (env i) i log (s.workers i) s.shared a (s'.workers i) s'.shared ∧
      ∀ j, j ≠ i → s'.workers j = s.workers j := by
  obtain ⟨cmds, hidle⟩ := h.idle
  obtain ⟨a, w', sh', hstep, hturn⟩ := (h.ok i).step build hidle (h.mutex i)
  have hself : Function.update s.workers i w' i = w' := Function.update_self _ _ _
  have hother : ∀ j, j ≠ i → Function.update s.workers i w' j = s.workers j :=
    fun j hj => Function.update_of_ne hj _ _
  refine ⟨a, ⟨sh', Function.update s.workers i w'⟩, ?_, ⟨hturn.idle, ?_, ?_⟩, ?_, hother⟩
  · rw [System.step, hstep, ok_bind]
    rfl
  · intro j
    by_cases hj : j = i
    · subst hj
      simpa only [hself] using hturn.ok
    · simpa only [hother j hj] using h.ok j
  · intro j
    by_cases hj : j = i
    · subst hj
      simpa only [hself] using hturn.mutex
    · simpa only [hother j hj, hturn.others j hj] using h.mutex j
  · simpa only [hself] using hturn

/-- The step of the system is the step of its worker. -/
theorem System.step_inv {σ : Type} {ops : FileOps σ} {s s' : System ι σ} {i : ι} {a : Action}
    (hstep : s.step build ops env i = .ok (a, s')) :
    (s.workers i).step build ops (env i) i s.shared = .ok (a, s'.workers i, s'.shared) := by
  obtain ⟨⟨a', w', sh'⟩, hw, hstep⟩ := bind_eq_ok hstep
  cases hstep
  simp only [hw, Function.update_self]

/-- A run takes its first step, then the others. -/
theorem System.run_cons {σ : Type} {ops : FileOps σ} {s s₁ s₂ : System ι σ} {i : ι} {a : Action}
    {schedule : List ι} {actions : List (ι × Action)}
    (hstep : s.step build ops env i = .ok (a, s₁))
    (hrun : s₁.run build ops env schedule = .ok (actions, s₂)) :
    s.run build ops env (i :: schedule) = .ok ((i, a) :: actions, s₂) := by
  rw [System.run, hstep, ok_bind]
  simp only [hrun, ok_bind, pure_eq_ok]

/-- The first step of a run, and the rest. -/
theorem System.run_cons_inv {σ : Type} {ops : FileOps σ} {s s₂ : System ι σ} {i : ι}
    {schedule : List ι} {actions : List (ι × Action)}
    (hrun : s.run build ops env (i :: schedule) = .ok (actions, s₂)) :
    ∃ a s₁ rest, s.step build ops env i = .ok (a, s₁) ∧
      s₁.run build ops env schedule = .ok (rest, s₂) ∧ actions = (i, a) :: rest := by
  obtain ⟨⟨a, s₁⟩, hstep, hrun⟩ := bind_eq_ok hrun
  obtain ⟨⟨rest, s₂'⟩, hrest, hrun⟩ := bind_eq_ok hrun
  cases hrun
  exact ⟨a, s₁, rest, hstep, hrest, rfl⟩

/-- The log after a row of actions. -/
def CommandLog.recordAll (log : CommandLog) (actions : List (ι × Action)) : CommandLog :=
  actions.foldl (fun log a => log.record a.2) log

/-- The number of steps of worker `i` that did not wait. -/
def stepsOf (i : ι) (actions : List (ι × Action)) : Nat :=
  actions.countP fun a => a.1 = i ∧ a.2 ≠ .wait

/-- The rank of a worker does not depend on what others write. -/
private theorem Worker.rank_of_not_holds {w : Worker} (h : w.pc.holds = false)
    (most content content' : Nat) : w.rank most content = w.rank most content' := by
  cases hpc : w.pc <;> simp_all [rank, Pc.holds]

/-- The rank after a step of worker `i`: a step that does not wait makes its
own rank smaller, and no step makes any rank larger. -/
theorem Running.rank_step (h : Running kmalloc env s log) {s' : System ι KState} {i : ι}
    {a : Action}
    (hturn : Turn kmalloc (env i) i log (s.workers i) s.shared a (s'.workers i) s'.shared)
    (hother : ∀ j, j ≠ i → s'.workers j = s.workers j) (j : ι) :
    (s'.workers j).rank kmalloc.most (log.record a).content.length + stepsOf j [(i, a)] ≤
      (s.workers j).rank kmalloc.most log.content.length := by
  by_cases hj : j = i
  · subst hj
    rcases hturn.progress with ⟨rfl, hw, -, -⟩ | ⟨-, hlt⟩
    · rw [hw]
      simp [stepsOf, CommandLog.record]
    · have hcount : stepsOf j [(j, a)] ≤ 1 := List.countP_le_length
      omega
  · have hcount : stepsOf j [(i, a)] = 0 := by
      simp [stepsOf, Ne.symm hj]
    rw [hother j hj, hcount, Nat.add_zero]
    by_cases hholds : (s.workers i).pc.holds = true
    · rw [Worker.rank_of_not_holds (h.not_holds hj hholds)]
    · rw [hturn.record (by simpa using hholds)]

/-- Every run is safe, and every worker takes a bounded number of steps. -/
theorem Running.run (build : Build) (h : Running kmalloc env s log) (schedule : List ι) :
    ∃ actions s', s.run build (aesdFops kmalloc) env schedule = .ok (actions, s') ∧
      Running kmalloc env s' (log.recordAll actions) ∧
      ∀ j, (s'.workers j).rank kmalloc.most (log.recordAll actions).content.length +
        stepsOf j actions ≤ (s.workers j).rank kmalloc.most log.content.length := by
  induction schedule generalizing s log with
  | nil => exact ⟨[], s, rfl, h, fun j => Nat.le_refl _⟩
  | cons i schedule ih =>
    obtain ⟨a, s₁, hstep, h₁, hturn, hother⟩ := h.step build i
    obtain ⟨actions, s₂, hrun, h₂, hrank⟩ := ih h₁
    refine ⟨(i, a) :: actions, s₂, System.run_cons hstep hrun, h₂, fun j => ?_⟩
    have hfirst := h.rank_step hturn hother j
    have hrest := hrank j
    have hcount : stepsOf j ((i, a) :: actions) = stepsOf j [(i, a)] + stepsOf j actions := by
      rw [stepsOf, stepsOf, stepsOf, ← List.countP_append]
      rfl
    rw [hcount]
    have hlog : log.recordAll ((i, a) :: actions) = (log.record a).recordAll actions := rfl
    rw [hlog]
    omega

end Run

end AesdChar
