import AesdChar.Driver.LogDriver
import AesdChar.Server.Reply

/-!
# The two copies of the server

The copies of `threadfunc` differ in what they do between the write loop and
the reply.  One closes the device and opens it again, and so reads from
position zero.  In the other one the same two calls are commented out, and it
reads on from where its write ended.

They are also two programs, so the memory behind `full_buf` need not be the
same.  It matters where a request fills the buffer up: then `sscanf` reads on
behind it.

`Worker.Ends` is the outcome of a single worker: its reply and the device it
leaves.  `Idle.reaches_rewind` runs both copies to the point where they differ,
and `Worker.Ends.change_copy` says that behind it they are the same.
`SameReply` are the requests for which neither difference matters.
-/

namespace AesdChar

open CodeLib CodeLib.CInt CodeLib.Ring CodeLib.CString

variable {kmalloc : Kmalloc} {k : KState} {cmds : Slots} {log : CommandLog}
  {env : WorkerEnv} {copy : Copy}

/-! ## The outcome of a single worker -/

section Ends

variable {σ : Type} (build : Build) (ops : FileOps σ) (env : WorkerEnv)

/-- A single worker comes to its end with this reply and this device. -/
inductive Worker.Ends : Worker → Shared Unit σ → List Byte → σ → Prop
  | done {w : Worker} {sh : Shared Unit σ} (hpc : w.pc = .done) : Ends w sh w.reply sh.dev
  | step {w w' : Worker} {sh sh' : Shared Unit σ} {a : Action} {reply : List Byte} {dev : σ}
      (hpc : w.pc ≠ .done) (hstep : w.step build ops env () sh = .ok (a, w', sh'))
      (hends : Ends w' sh' reply dev) : Ends w sh reply dev

variable {build ops env} {w w' : Worker} {sh sh' : Shared Unit σ} {a : Action}
  {reply reply' : List Byte} {dev dev' : σ}

/-- The outcome is the outcome after any step. -/
theorem Worker.ends_iff_of_step (hpc : w.pc ≠ .done)
    (hstep : w.step build ops env () sh = .ok (a, w', sh')) :
    w.Ends build ops env sh reply dev ↔ w'.Ends build ops env sh' reply dev := by
  constructor
  · intro h
    cases h with
    | done hdone => exact absurd hdone hpc
    | step _ hstep' hends =>
      obtain ⟨-, rfl, rfl⟩ := step_unique hstep hstep'
      exact hends
  · exact .step hpc hstep

/-- There is one outcome at most. -/
theorem Worker.Ends.unique (h : w.Ends build ops env sh reply dev)
    (h' : w.Ends build ops env sh reply' dev') : reply = reply' ∧ dev = dev' := by
  induction h with
  | done hpc =>
    cases h' with
    | done => exact ⟨rfl, rfl⟩
    | step hne => exact absurd hpc hne
  | step hpc hstep _ ih => exact ih ((Worker.ends_iff_of_step hpc hstep).mp h')

/-- A run that ends has its outcome. -/
theorem Worker.ends_of_run {n : Nat} {actions : List (Unit × Action)} {t : System Unit σ}
    (hrun : (single w sh).run build ops (fun _ => env) (List.replicate n ()) = .ok (actions, t))
    (hdone : (t.workers ()).pc = .done) :
    w.Ends build ops env sh (t.workers ()).reply t.shared.dev := by
  induction n generalizing w sh actions with
  | zero =>
    cases hrun
    exact .done hdone
  | succ n ih =>
    obtain ⟨a, s₁, rest, hfirst, hrest, -⟩ := System.run_cons_inv hrun
    cases hstep : w.step build ops env () sh with
    | error _ =>
      rw [System.step, single, hstep] at hfirst
      cases hfirst
    | ok r =>
      obtain ⟨a', w', sh'⟩ := r
      rw [single_step (fun _ => env) hstep, Except.ok.injEq, Prod.mk.injEq] at hfirst
      obtain ⟨-, rfl⟩ := hfirst
      by_cases hpc : w.pc = .done
      · -- The worker stays where it is.
        obtain ⟨-, rfl, rfl⟩ := Worker.step_unique hstep (Worker.step_done hpc)
        exact ih hrest
      · exact .step hpc hstep (ih hrest)

/-! ## Where the copies are the same -/

/-- From a late place on the copies have the same outcome. -/
theorem Worker.Ends.change_copy (h : w.Ends build ops env sh reply dev) (build' : Build)
    (behind : List Byte) (hlate : w.pc.late = true) :
    w.Ends build' ops { env with behind := behind } sh reply dev := by
  induction h with
  | done hpc => exact .done hpc
  | step hpc hstep _ ih =>
    exact .step hpc ((Worker.step_late hlate build' behind).symm.trans hstep)
      (ih (Worker.late_step hlate hstep).1)

/-! ## The way there, and the way out -/

/-- The first three steps of a worker that can open the device. -/
theorem Worker.ends_start_iff (hopen : env.openOk = true) :
    Worker.start.Ends build ops env ⟨dev', none⟩ reply dev ↔
      (Worker.opened env.recv).Ends build ops env ⟨dev', some ()⟩ reply dev := by
  rw [ends_iff_of_step (by simp [start]) (step_recv rfl (receive_eq _ _)),
    ends_iff_of_step (by simp) (step_lock_free rfl rfl),
    ends_iff_of_step (by simp) (step_openDev rfl hopen)]
  rfl

/-- The same, for any memory behind the buffer. -/
theorem Worker.ends_start_behind (hopen : env.openOk = true) (behind : List Byte) :
    Worker.start.Ends build ops { env with behind := behind } ⟨dev', none⟩ reply dev ↔
      (Worker.opened env.recv).Ends build ops { env with behind := behind } ⟨dev', some ()⟩
        reply dev := ends_start_iff hopen

/-- A worker that gives up sends nothing more. -/
theorem Worker.ends_abort (hpc : w.pc = .abort) (hm : sh.mutex = some ()) :
    w.Ends build ops env sh w.reply sh.dev := by
  apply Worker.Ends.step (by simp [hpc]) (step_abort hpc hm)
  apply Worker.Ends.step (by simp) (step_abortClose rfl)
  exact .done rfl

/-- A worker that cannot open the device does nothing. -/
theorem Worker.ends_start_fail (hopen : env.openOk = false) :
    Worker.start.Ends build ops env ⟨dev, none⟩ [] dev := by
  apply Worker.Ends.step (by simp [start]) (step_recv rfl (receive_eq _ _))
  apply Worker.Ends.step (by simp) (step_lock_free rfl rfl)
  apply Worker.Ends.step (by simp) (step_openDev_fail rfl hopen)
  exact ends_abort rfl rfl

/-- A worker whose reply is complete goes to its end. -/
theorem Worker.ends_closeDev (hpc : w.pc = .closeDev) (hm : sh.mutex = some ()) :
    w.Ends build ops env sh w.reply sh.dev := by
  apply Worker.Ends.step (by simp [hpc]) (step_closeDev hpc)
  apply Worker.Ends.step (by simp) (step_unlock rfl hm)
  apply Worker.Ends.step (by simp) (step_closeSocket rfl)
  apply Worker.Ends.step (by simp) (step_lockDone_free rfl rfl)
  apply Worker.Ends.step (by simp) (step_complete rfl)
  apply Worker.Ends.step (by simp) (step_unlockDone rfl rfl)
  exact .done rfl

end Ends

/-! ## Workers on the character device -/

section CharDevice

variable {w : Worker} {build : Build} {reply : List Byte} {dev : KState}

/-- Every worker that has the mutex comes to its end. -/
theorem Idle.ends (build : Build) (env : WorkerEnv) (h : Idle kmalloc k cmds log)
    (hok : w.Ok env) (hpc : w.pc.holds = true) :
    ∃ reply dev, w.Ends build (aesdFops kmalloc) env ⟨k, some ()⟩ reply dev := by
  obtain ⟨n, actions, t, hrun, hdone, -⟩ :=
    (running_single (fun _ => env) h hok hpc).finishes build
      (fun _ _ _ => True) (fun _ _ _ => trivial) trivial
  exact ⟨_, _, Worker.ends_of_run hrun hdone⟩

/-- A worker that replies ends with its reply. -/
theorem Idle.ends_replying (h : Idle kmalloc k cmds log) (hok : w.Ok env)
    (hpc : w.pc.holds = true) (hs : env.Delivers)
    (hreopen : copy = .metaAesd → env.reopenOk = true) {target : List Byte}
    (hr : w.Replying copy log.content target) :
    w.Ends (charBuild copy) (aesdFops kmalloc) env ⟨k, some ()⟩ target k := by
  obtain ⟨n, actions, t, hrun, hdone, hreply, hdev⟩ :=
    (running_single (fun _ => env) h hok hpc).finishes_reply copy hs hreopen hr
  have hends := Worker.ends_of_run hrun hdone
  rw [hreply, hdev] at hends
  exact hends

/-- A worker that finds nothing to read sends nothing more. -/
theorem Idle.ends_read_nil (h : Idle kmalloc k cmds log) (hok : w.Ok env) (hpc : w.pc = .read)
    {off : Nat} (hoff : w.fPos = off) (hnil : log.content.drop off = []) :
    w.Ends build (aesdFops kmalloc) env ⟨k, some ()⟩ w.reply k := by
  rcases Worker.readRound_spec env h hok.pos with
    ⟨pos, hround, -, -⟩ | ⟨off', hoff', hne, -⟩
  · apply Worker.Ends.step (by simp [hpc]) (Worker.step_read hpc hround)
    exact Worker.ends_closeDev rfl rfl
  · obtain rfl : off' = off := by
      rw [hoff'] at hoff
      exact_mod_cast hoff
    rw [hnil] at hne
    exact absurd rfl hne

/-- The worker stores its command. -/
def WorkerEnv.StoresCommand (kmalloc : Kmalloc) (k : KState) (env : WorkerEnv) : Prop :=
  command env.recv ≠ [] ∧ ¬ IsSeek (command env.recv) ∧
    (env.writes 0).Grants kmalloc k.dev.sizePartial (command env.recv).length

instance (kmalloc : Kmalloc) (k : KState) (env : WorkerEnv) :
    Decidable (env.StoresCommand kmalloc k) := by
  unfold WorkerEnv.StoresCommand
  infer_instance

/-- What the write loop leaves: the log, and the position of the file. -/
def WorkerEnv.Leaves (kmalloc : Kmalloc) (k : KState) (env : WorkerEnv) (log log' : CommandLog)
    (off : Nat) : Prop :=
  env.StoresCommand kmalloc k ∧ off = (command env.recv).length ∧
      log' = log.write (command env.recv) ∨
    ¬ env.StoresCommand kmalloc k ∧ off = 0 ∧ log' = log

/-- Behind the position there is nothing to read exactly if the device holds
no bytes but those of the command. -/
theorem Idle.unread_eq_nil_iff (h : Idle kmalloc k cmds log) {log' : CommandLog} {off : Nat}
    (hleaves : env.Leaves kmalloc k log log' off) :
    log'.content.drop off = [] ↔
      k.commands = .ok [] ∧ (env.StoresCommand kmalloc k → k.pending = .ok []) := by
  rw [h.commands_eq, h.pending_eq, Except.ok.injEq, Except.ok.injEq]
  rcases hleaves with ⟨hst, rfl, rfl⟩ | ⟨hnot, rfl, rfl⟩
  · rw [log.drop_content_write_eq_nil_iff (newline_mem_command hst.1)]
    exact and_congr_right fun _ => ⟨fun hnil _ => hnil, fun hnil => hnil hst⟩
  · rw [List.drop_zero, CommandLog.content_eq_nil_iff]
    exact ⟨fun hnil => ⟨hnil, fun hst => absurd hst hnot⟩, And.left⟩

/-- A command that the kernel grants is written at once. -/
theorem Idle.ends_write_granted (h : Idle kmalloc k cmds log) (hok : w.Ok env)
    (hpc : w.pc = .write 0) (hne : command env.recv ≠ [])
    (hg : (env.writes w.writes).Grants kmalloc log.pending.length (command env.recv).length) :
    ∃ k' cmds', Idle kmalloc k' cmds' (log.write (command env.recv)) ∧
      ∀ build behind reply dev,
        w.Ends build (aesdFops kmalloc) { env with behind := behind } ⟨k, some ()⟩ reply dev ↔
          { w with
            writes := w.writes + 1
            fPos := signed64 (w.fPos + (command env.recv).length)
            pc := .rewind }.Ends build (aesdFops kmalloc) { env with behind := behind }
              ⟨k', some ()⟩ reply dev := by
  have hrecv : w.pc ≠ .recv := by simp [hpc]
  have hpositive := hok.totalLen_pos hrecv hne
  obtain ⟨hlen, hmax⟩ := hok.totalLen_le hrecv
  rw [← hok.unwritten_zero hrecv] at hg ⊢
  obtain ⟨k', cmds', hround, hidle⟩ := Worker.writeRound_granted h hpositive hlen hmax hg
  refine ⟨k', cmds', hidle, fun build behind reply dev => ?_⟩
  rw [Worker.ends_iff_of_step (by simp [hpc]) (Worker.step_write hpc hround)]
  exact Worker.ends_iff_of_step (by simp)
    (Worker.step_write rfl (Worker.writeRound_done (Nat.le_refl w.totalLen)))

/-- A command that the kernel refuses is not written. -/
theorem Idle.ends_write_refused (h : Idle kmalloc k cmds log) (hok : w.Ok env)
    (hpc : w.pc = .write 0) (hne : command env.recv ≠ [])
    (hg : ¬ (env.writes w.writes).Grants kmalloc log.pending.length
      (command env.recv).length) :
    ∃ k', Idle kmalloc k' cmds log ∧
      ∀ build behind reply dev,
        w.Ends build (aesdFops kmalloc) { env with behind := behind } ⟨k, some ()⟩ reply dev ↔
          { w with writes := w.writes + 1, pc := .rewind }.Ends build (aesdFops kmalloc)
            { env with behind := behind } ⟨k', some ()⟩ reply dev := by
  have hrecv : w.pc ≠ .recv := by simp [hpc]
  have hpositive := hok.totalLen_pos hrecv hne
  rw [← hok.unwritten_zero hrecv] at hg
  obtain ⟨ret, k', hround, -, hidle⟩ := Worker.writeRound_refused h hpositive hg
  exact ⟨k', hidle, fun build behind reply dev =>
    Worker.ends_iff_of_step (by simp [hpc]) (Worker.step_write hpc hround)⟩

/-- Both copies come to the end of the write loop with the same worker and the
same device: the command is stored and the position is behind it, or nothing
is stored and the position is zero. -/
theorem Idle.reaches_rewind (h : Idle kmalloc k cmds log) (env : WorkerEnv)
    (hseek : ¬ IsSeek (command env.recv)) :
    ∃ (w : Worker) (k' : KState) (cmds' : Slots) (log' : CommandLog) (off : Nat),
      (∀ build behind reply dev,
        (Worker.opened env.recv).Ends build (aesdFops kmalloc) { env with behind := behind }
            ⟨k, some ()⟩ reply dev ↔
          w.Ends build (aesdFops kmalloc) { env with behind := behind } ⟨k', some ()⟩ reply dev) ∧
      Idle kmalloc k' cmds' log' ∧ w.Ok env ∧ w.pc = .rewind ∧ w.reply = [] ∧ w.fPos = off ∧
      env.Leaves kmalloc k log log' off := by
  have hle := length_command_le env.recv
  have hpre : ¬ strncmp ioctlPrefix.length (Worker.opened env.recv).fullBuf ioctlPrefix = 0 := by
    rwa [Worker.opened, strncmp_received_iff hle]
  have hok : { Worker.opened env.recv with pc := .write 0 }.Ok env :=
    ⟨fun _ => ⟨rfl, rfl⟩, isSigned64_zero⟩
  have hrequest : ∀ build behind reply dev,
      (Worker.opened env.recv).Ends build (aesdFops kmalloc) { env with behind := behind }
          ⟨k, some ()⟩ reply dev ↔
        { Worker.opened env.recv with pc := .write 0 }.Ends build (aesdFops kmalloc)
          { env with behind := behind } ⟨k, some ()⟩ reply dev := fun _ _ _ _ =>
    Worker.ends_iff_of_step (by simp [Worker.opened])
      (Worker.step_request rfl (Worker.request_write _ hpre))
  by_cases hnil : command env.recv = []
  · have htotal : (command env.recv).length ≤ 0 := by simp [hnil]
    refine ⟨{ Worker.opened env.recv with pc := .rewind }, k, cmds, log, 0,
      fun build behind reply dev => ?_, h, ⟨fun _ => ⟨rfl, rfl⟩, hok.pos⟩, rfl, rfl, rfl,
      Or.inr ⟨fun hst => hst.1 hnil, rfl, rfl⟩⟩
    rw [hrequest]
    exact Worker.ends_iff_of_step (by simp) (Worker.step_write rfl (Worker.writeRound_done htotal))
  by_cases hg : (env.writes 0).Grants kmalloc k.dev.sizePartial (command env.recv).length
  · obtain ⟨k', cmds', hidle, hends⟩ := h.ends_write_granted hok rfl hnil (by rwa [← h.size])
    have hlt : (command env.recv).length < 2 ^ 63 := Nat.lt_of_le_of_lt hle (by decide)
    refine ⟨_, k', cmds', _, (command env.recv).length,
      fun build behind reply dev =>
        (hrequest build behind reply dev).trans (hends build behind reply dev), hidle,
      ⟨fun _ => ⟨rfl, rfl⟩, ?_⟩, rfl, rfl, ?_, Or.inl ⟨⟨hnil, hseek, hg⟩, rfl, rfl⟩⟩
    · dsimp only
      exact isSigned64_signed64 _
    · dsimp only [Worker.opened, Worker.start]
      rw [Int.zero_add]
      exact signed64_of_lt hlt
  · obtain ⟨k', hidle, hends⟩ := h.ends_write_refused hok rfl hnil (by rwa [← h.size])
    exact ⟨_, k', cmds, log, 0,
      fun build behind reply dev =>
        (hrequest build behind reply dev).trans (hends build behind reply dev), hidle,
      ⟨fun _ => ⟨rfl, rfl⟩, hok.pos⟩, rfl, rfl, rfl, Or.inr ⟨fun hst => hg hst.2.2, rfl, rfl⟩⟩

/-! ## Where the copies differ -/

/-- One copy reads on from where it is. -/
theorem Worker.ends_rewind_server (hpc : w.pc = .rewind) :
    w.Ends (charBuild .server) (aesdFops kmalloc) env ⟨k, some ()⟩ reply dev ↔
      { w with pc := .read }.Ends (charBuild .server) (aesdFops kmalloc) env ⟨k, some ()⟩
        reply dev :=
  ends_iff_of_step (by simp [hpc]) (step_rewind hpc rfl)

/-- The other copy starts at position zero again. -/
theorem Worker.ends_rewind_metaAesd (hpc : w.pc = .rewind) (hreopen : env.reopenOk = true) :
    w.Ends (charBuild .metaAesd) (aesdFops kmalloc) env ⟨k, some ()⟩ reply dev ↔
      { w with pc := .read, fPos := 0 }.Ends (charBuild .metaAesd) (aesdFops kmalloc) env
        ⟨k, some ()⟩ reply dev := by
  refine ends_iff_of_step (by simp [hpc]) (step_rewind hpc ?_)
  simp only [rewind, charBuild, hreopen]
  rfl

/-- Without the device there is no reply. -/
theorem Worker.ends_rewind_metaAesd_fail (hpc : w.pc = .rewind) (hreopen : env.reopenOk = false) :
    w.Ends (charBuild .metaAesd) (aesdFops kmalloc) env ⟨k, some ()⟩ w.reply k := by
  have hround : w.rewind (charBuild .metaAesd) (aesdFops kmalloc) env k =
      .ok ({ w with pc := .abort }, k) := by
    simp only [rewind, charBuild, hreopen]
    rfl
  apply Worker.Ends.step (by simp [hpc]) (step_rewind hpc hround)
  exact ends_abort rfl rfl

/-- The copies send the same reply and leave the same device.  The memory
behind the buffer is `behind` in one of them and `behind'` in the other one. -/
def CopiesAgree (kmalloc : Kmalloc) (k : KState) (env : WorkerEnv) (behind behind' : List Byte) :
    Prop :=
  ∃ reply dev,
    Worker.start.Ends (charBuild .server) (aesdFops kmalloc) { env with behind := behind }
      ⟨k, none⟩ reply dev ∧
    Worker.start.Ends (charBuild .metaAesd) (aesdFops kmalloc) { env with behind := behind' }
      ⟨k, none⟩ reply dev

/-- The numbers of a seek request, as `sscanf` finds them. -/
def WorkerEnv.seekto (env : WorkerEnv) (behind : List Byte) : Option (Nat × Nat) :=
  sscanfPair (str ((received (command env.recv)).drop ioctlPrefix.length ++ behind))

/-- The position at which a seek request leaves the file. -/
def WorkerEnv.soughtPos (k : KState) (env : WorkerEnv) (behind : List Byte) : Int :=
  match env.seekto behind with
  | none => 0
  | some (cmdIdx, cmdOffset) =>
    match aesdUnlockedIoctl env.ioctlUncopied AESDCHAR_IOCSEEKTO ⟨cmdIdx, cmdOffset⟩ 0 k with
    | .ok r => r.fPos
    | .error _ => 0

/-- What the device holds from that position on. -/
def WorkerEnv.sought (k : KState) (env : WorkerEnv) (behind : List Byte) :
    Except Fault (List Byte) :=
  k.commands.map fun entries => entries.flatten.drop (env.soughtPos k behind).toNat

/-- The requests for which it makes no difference where the reply starts: there
is no device, the request is a seek request for the same bytes whatever lies
behind the buffer, or nothing was stored.  If the device cannot be opened
again, there must be nothing to read either. -/
def SameReply (kmalloc : Kmalloc) (k : KState) (env : WorkerEnv) : Prop :=
  env.openOk = false ∨
    (IsSeek (command env.recv) ∧
      ∀ behind behind', env.sought k behind = env.sought k behind') ∨
    (¬ IsSeek (command env.recv) ∧ env.reopenOk = true ∧ ¬ env.StoresCommand kmalloc k) ∨
    (¬ IsSeek (command env.recv) ∧ env.reopenOk = false ∧ k.commands = .ok [] ∧
      (env.StoresCommand kmalloc k → k.pending = .ok []))

/-- The numbers of a request that leaves a zero byte in the buffer do not
depend on the memory behind it. -/
theorem WorkerEnv.seekto_of_length_lt (h : (command env.recv).length < fullBufSize)
    (behind : List Byte) : env.seekto behind = env.seekto [] := by
  have hzero : (0 : Byte) ∈ (received (command env.recv)).drop ioctlPrefix.length := by
    -- The last byte of the buffer is one.
    have hlast : ioctlPrefix.length + (fullBufSize - 1 - ioctlPrefix.length) = fullBufSize - 1 := by
      decide
    refine List.mem_of_getElem? (i := fullBufSize - 1 - ioctlPrefix.length) ?_
    rw [List.getElem?_drop, hlast, received, List.getElem?_append_right (Nat.le_sub_one_of_lt h),
      List.getElem?_replicate, if_pos (by omega)]
  unfold WorkerEnv.seekto
  rw [str_append_of_mem hzero, str_append_of_mem hzero]

/-- A seek request leaves the file at a position that is not negative. -/
theorem Idle.soughtPos_eq (h : Idle kmalloc k cmds log) (env : WorkerEnv) (behind : List Byte) :
    ∃ off : Nat, env.soughtPos k behind = off := by
  unfold WorkerEnv.soughtPos
  split
  · exact ⟨0, rfl⟩
  · rw [h.ioctl_eq]
    dsimp only
    unfold CommandLog.ioctl CommandLog.seek
    split_ifs
    · exact ⟨0, rfl⟩
    · exact ⟨0, rfl⟩
    · split
      · exact ⟨0, rfl⟩
      · split_ifs
        · exact ⟨0, rfl⟩
        · exact ⟨_, rfl⟩

theorem Idle.isSigned64_soughtPos (h : Idle kmalloc k cmds log) (env : WorkerEnv)
    (behind : List Byte) : IsSigned64 (env.soughtPos k behind) := by
  unfold WorkerEnv.soughtPos
  split
  · exact isSigned64_zero
  · rename_i cmdIdx cmdOffset _
    obtain ⟨r, hioctl, -, hpos⟩ := aesdUnlockedIoctl_state h.unlocked env.ioctlUncopied
      AESDCHAR_IOCSEEKTO ⟨cmdIdx, cmdOffset⟩ isSigned64_zero
    rw [hioctl]
    exact hpos

/-- A worker behind a seek request is in order. -/
theorem Idle.ok_sought (h : Idle kmalloc k cmds log) (env : WorkerEnv) (behind : List Byte) :
    { Worker.opened env.recv with pc := .read, fPos := env.soughtPos k behind }.Ok
      { env with behind := behind } :=
  ⟨fun _ => ⟨rfl, rfl⟩, h.isSigned64_soughtPos env behind⟩

/-- A seek request comes to the reply loop at once. -/
theorem Idle.ends_seek (h : Idle kmalloc k cmds log) (hseek : IsSeek (command env.recv))
    (behind : List Byte) :
    (Worker.opened env.recv).Ends build (aesdFops kmalloc) { env with behind := behind }
        ⟨k, some ()⟩ reply dev ↔
      { Worker.opened env.recv with pc := .read, fPos := env.soughtPos k behind }.Ends build
        (aesdFops kmalloc) { env with behind := behind } ⟨k, some ()⟩ reply dev := by
  have hpre : strncmp ioctlPrefix.length (Worker.opened env.recv).fullBuf ioctlPrefix = 0 := by
    rwa [Worker.opened, strncmp_received_iff (length_command_le env.recv)]
  apply Worker.ends_iff_of_step (by simp [Worker.opened])
  apply Worker.step_request rfl
  have hseekto : sscanfPair (str ((Worker.opened env.recv).fullBuf.drop ioctlPrefix.length ++
      behind)) = env.seekto behind := rfl
  unfold Worker.request WorkerEnv.soughtPos
  rw [if_pos hpre]
  dsimp only
  rw [hseekto]
  cases env.seekto behind with
  | none => rfl
  | some numbers =>
    have hioctl := h.ioctl_eq env.ioctlUncopied AESDCHAR_IOCSEEKTO ⟨numbers.1, numbers.2⟩ 0
    have hpos : (Worker.opened env.recv).fPos = 0 := rfl
    simp only [aesdFops, hpos, hioctl, ok_bind, pure_eq_ok]

/-- Two positions with the same bytes behind them are the same, or there are no
bytes. -/
theorem drop_eq_nil_of_ne {α : Type*} {xs : List α} {off off' : Nat} (hne : off ≠ off')
    (h : xs.drop off = xs.drop off') : xs.drop off = [] := by
  have hlen := congrArg List.length h
  rw [List.length_drop, List.length_drop] at hlen
  rw [List.drop_eq_nil_iff]
  omega

/-- Where a seek request starts its reply, and what it asks for. -/
theorem Idle.sought_eq (h : Idle kmalloc k cmds log) (env : WorkerEnv) (behind : List Byte)
    {off : Nat} (hoff : env.soughtPos k behind = off) :
    env.sought k behind = .ok (log.content.drop off) := by
  unfold WorkerEnv.sought
  rw [h.commands_eq, hoff]
  rfl

/-- The copies agree on every request of `SameReply`, whatever `read` and
`send` do and whatever lies behind the buffers. -/
theorem Idle.copiesAgree (h : Idle kmalloc k cmds log) (hsame : SameReply kmalloc k env)
    (behind behind' : List Byte) : CopiesAgree kmalloc k env behind behind' := by
  by_cases hopen : env.openOk = true
  swap
  · have hfail : env.openOk = false := by simpa using hopen
    exact ⟨[], k, Worker.ends_start_fail hfail, Worker.ends_start_fail hfail⟩
  unfold CopiesAgree
  simp only [Worker.ends_start_behind hopen]
  by_cases hseek : IsSeek (command env.recv)
  · simp only [h.ends_seek hseek]
    obtain ⟨off, hoff⟩ := h.soughtPos_eq env behind
    obtain ⟨off', hoff'⟩ := h.soughtPos_eq env behind'
    have hunread : log.content.drop off = log.content.drop off' := by
      rcases hsame with hfail | ⟨-, hsought⟩ | ⟨hnot, -⟩ | ⟨hnot, -⟩
      · rw [hopen] at hfail
        cases hfail
      · have heq := hsought behind behind'
        rwa [h.sought_eq env behind hoff, h.sought_eq env behind' hoff', Except.ok.injEq] at heq
      · exact absurd hseek hnot
      · exact absurd hseek hnot
    by_cases hsame : off = off'
    · -- Both read on from one position.
      obtain ⟨reply, dev, hends⟩ := h.ends (charBuild .server) { env with behind := behind }
        (h.ok_sought env behind) rfl
      refine ⟨reply, dev, hends, ?_⟩
      rw [hoff', ← hsame, ← hoff]
      exact hends.change_copy _ behind' rfl
    · -- Both find nothing to read.
      have hnil := drop_eq_nil_of_ne hsame hunread
      have hnil' := drop_eq_nil_of_ne (Ne.symm hsame) hunread.symm
      exact ⟨[], k, h.ends_read_nil (h.ok_sought env behind) rfl hoff hnil,
        h.ends_read_nil (h.ok_sought env behind') rfl hoff' hnil'⟩
  obtain ⟨w, k', cmds', log', off, hrewind, hidle, hok, hpc, hreply, hoff, hleaves⟩ :=
    h.reaches_rewind env hseek
  have hbuf := hok.buf (by simp [hpc])
  simp only [hrewind]
  rcases hsame with hfail | ⟨hseek', -⟩ | ⟨-, hreopen, hnot⟩ | ⟨-, hreopen, hnil, hpending⟩
  · rw [hopen] at hfail
    cases hfail
  · exact absurd hseek' hseek
  · -- Nothing was stored: the position is zero in both copies.
    obtain ⟨hstores, -, -⟩ | ⟨-, rfl, -⟩ := hleaves
    · exact absurd hstores hnot
    obtain ⟨reply, dev, hends⟩ := hidle.ends (charBuild .server) { env with behind := behind }
      (w := { w with pc := .read, fPos := 0 })
      ⟨fun _ => hbuf, isSigned64_zero⟩ rfl
    refine ⟨reply, dev, (Worker.ends_rewind_server hpc).mpr ?_,
      (Worker.ends_rewind_metaAesd hpc (by exact hreopen)).mpr
        (hends.change_copy _ behind' rfl)⟩
    rwa [show (0 : Int) = w.fPos from hoff.symm] at hends
  · -- One copy cannot open the device again, the other one finds nothing to read.
    refine ⟨w.reply, k', (Worker.ends_rewind_server hpc).mpr ?_,
      Worker.ends_rewind_metaAesd_fail hpc hreopen⟩
    exact hidle.ends_read_nil (w := { w with pc := .read }) ⟨fun _ => hbuf, hok.pos⟩ rfl hoff
      ((h.unread_eq_nil_iff hleaves).mpr ⟨hnil, hpending⟩)

theorem WorkerEnv.Delivers.of_behind (hs : env.Delivers) (behind : List Byte) :
    ({ env with behind := behind } : WorkerEnv).Delivers := ⟨hs.reads, hs.sends⟩

theorem Worker.Ok.of_behind (hok : w.Ok env) (behind : List Byte) :
    w.Ok { env with behind := behind } := ⟨hok.buf, hok.pos⟩

/-- A worker in front of the reply loop replies with what is behind its
position. -/
theorem Idle.ends_read (h : Idle kmalloc k cmds log) (hok : w.Ok env) (hpc : w.pc = .read)
    (hs : env.Delivers) (hreopen : copy = .metaAesd → env.reopenOk = true)
    (hreply : w.reply = []) {off : Nat} (hoff : w.fPos = off) :
    w.Ends (charBuild copy) (aesdFops kmalloc) env ⟨k, some ()⟩ (log.content.drop off) k := by
  apply h.ends_replying hok (by rw [hpc]; rfl) hs hreopen
  simp only [Worker.Replying, hpc]
  exact ⟨off, hoff, by rw [hreply, List.nil_append]⟩

/-- The reply of the copy that reads on. -/
theorem Idle.ends_server (h : Idle kmalloc k cmds log) (hok : w.Ok env) (hpc : w.pc = .rewind)
    (hs : env.Delivers) (hreply : w.reply = []) {off : Nat} (hoff : w.fPos = off) :
    w.Ends (charBuild .server) (aesdFops kmalloc) env ⟨k, some ()⟩ (log.content.drop off) k :=
  (Worker.ends_rewind_server hpc).mpr
    (h.ends_read (w := { w with pc := .read }) ⟨fun _ => hok.buf (by simp [hpc]), hok.pos⟩ rfl hs
      (fun hcopy => by cases hcopy) hreply hoff)

/-- A stored command: one copy replies with the whole content, the other one
leaves out as many bytes as it wrote. -/
theorem Idle.ends_stored (h : Idle kmalloc k cmds log) (hs : env.Delivers)
    (hopen : env.openOk = true) (hreopen : env.reopenOk = true)
    (hst : env.StoresCommand kmalloc k) :
    ∃ k' cmds', Idle kmalloc k' cmds' (log.write (command env.recv)) ∧
      ∀ behind,
        Worker.start.Ends (charBuild .server) (aesdFops kmalloc) { env with behind := behind }
          ⟨k, none⟩ ((log.write (command env.recv)).content.drop (command env.recv).length) k' ∧
        Worker.start.Ends (charBuild .metaAesd) (aesdFops kmalloc) { env with behind := behind }
          ⟨k, none⟩ (log.write (command env.recv)).content k' := by
  obtain ⟨w, k', cmds', log', off, hrewind, hidle, hok, hpc, hreply, hoff, hleaves⟩ :=
    h.reaches_rewind env hst.2.1
  obtain ⟨-, rfl, rfl⟩ | ⟨hnot, -⟩ := hleaves
  swap
  · exact absurd hst hnot
  refine ⟨k', cmds', hidle, fun behind => ⟨?_, ?_⟩⟩
  · refine (Worker.ends_start_behind hopen behind).mpr ((hrewind _ behind _ _).mpr ?_)
    exact hidle.ends_server (hok.of_behind behind) hpc (hs.of_behind behind) hreply hoff
  · refine (Worker.ends_start_behind hopen behind).mpr ((hrewind _ behind _ _).mpr ?_)
    refine (Worker.ends_rewind_metaAesd hpc (by exact hreopen)).mpr ?_
    have hok' : { w with pc := .read, fPos := 0 }.Ok { env with behind := behind } :=
      ⟨fun _ => hok.buf (by simp [hpc]), isSigned64_zero⟩
    exact hidle.ends_read hok' rfl (hs.of_behind behind) (fun _ => hreopen) hreply
      (show (0 : Int) = (0 : Nat) from rfl)

/-- For a stored command the replies differ in length. -/
theorem Idle.copies_differ (h : Idle kmalloc k cmds log) (hs : env.Delivers)
    (hopen : env.openOk = true) (hreopen : env.reopenOk = true)
    (hst : env.StoresCommand kmalloc k) (behind behind' : List Byte) :
    ¬ CopiesAgree kmalloc k env behind behind' := by
  intro ⟨reply, dev, hserver, hmeta⟩
  obtain ⟨k', cmds', -, hstored⟩ := h.ends_stored hs hopen hreopen hst
  have heq := ((hstored behind).1.unique hserver).1.trans (hmeta.unique (hstored behind').2).1
  have hlen := congrArg List.length heq
  have hpositive := List.length_pos_iff.mpr hst.1
  rw [List.length_drop, log.content_write (newline_mem_command hst.1), List.length_append,
    List.length_append] at hlen
  omega

/-- If `read` and `send` succeed, a seek request is answered with what it asks
for. -/
theorem Idle.ends_sought (h : Idle kmalloc k cmds log) (hs : env.Delivers)
    (hseek : IsSeek (command env.recv)) (hopen : env.openOk = true) (copy : Copy)
    (behind : List Byte) {off : Nat} (hoff : env.soughtPos k behind = off) :
    Worker.start.Ends (charBuild copy) (aesdFops kmalloc) { env with behind := behind } ⟨k, none⟩
      (log.content.drop off) k := by
  refine (Worker.ends_start_behind hopen behind).mpr ((h.ends_seek hseek behind).mpr ?_)
  -- Behind the request the copy does not matter.
  have hends : { Worker.opened env.recv with pc := .read, fPos := env.soughtPos k behind }.Ends
      (charBuild .server) (aesdFops kmalloc) { env with behind := behind } ⟨k, some ()⟩
      (log.content.drop off) k :=
    h.ends_read (h.ok_sought env behind) rfl (hs.of_behind behind) (fun hcopy => by cases hcopy)
      rfl hoff
  exact hends.change_copy _ behind rfl

/-- If `read` and `send` succeed, the copies agree on no other request. -/
theorem Idle.sameReply (h : Idle kmalloc k cmds log) (hs : env.Delivers)
    (hagree : ∀ behind behind', CopiesAgree kmalloc k env behind behind') :
    SameReply kmalloc k env := by
  cases hopen : env.openOk with
  | false => exact Or.inl hopen
  | true =>
    by_cases hseek : IsSeek (command env.recv)
    · refine Or.inr (Or.inl ⟨hseek, fun behind behind' => ?_⟩)
      obtain ⟨reply, dev, hserver, hmeta⟩ := hagree behind behind'
      obtain ⟨off, hoff⟩ := h.soughtPos_eq env behind
      obtain ⟨off', hoff'⟩ := h.soughtPos_eq env behind'
      rw [h.sought_eq env behind hoff, h.sought_eq env behind' hoff', Except.ok.injEq]
      have hreply := (hserver.unique (h.ends_sought hs hseek hopen .server behind hoff)).1
      have hreply' := (hmeta.unique (h.ends_sought hs hseek hopen .metaAesd behind' hoff')).1
      exact hreply.symm.trans hreply'
    cases hreopen : env.reopenOk with
    | true =>
      exact Or.inr (Or.inr (Or.inl ⟨hseek, hreopen,
        fun hst => h.copies_differ hs hopen hreopen hst [] [] (hagree [] [])⟩))
    | false =>
      refine Or.inr (Or.inr (Or.inr ⟨hseek, hreopen, ?_⟩))
      obtain ⟨reply, dev, hserver, hmeta⟩ := hagree [] []
      obtain ⟨w, k', cmds', log', off, hrewind, hidle, hok, hpc, hreply, hoff, hleaves⟩ :=
        h.reaches_rewind env hseek
      have hserver := (hrewind _ [] _ _).mp ((Worker.ends_start_behind hopen []).mp hserver)
      have hmeta := (hrewind _ [] _ _).mp ((Worker.ends_start_behind hopen []).mp hmeta)
      have hnil := (hmeta.unique (Worker.ends_rewind_metaAesd_fail hpc (by exact hreopen))).1
      have hrest := (hserver.unique
        (hidle.ends_server (hok.of_behind []) hpc (hs.of_behind []) hreply hoff)).1
      exact (h.unread_eq_nil_iff hleaves).mp (hrest.symm.trans (hnil.trans hreply))

/-- A seek request that is shorter than the buffer asks for the same bytes
whatever lies behind it. -/
theorem SameReply.of_length_lt (hseek : IsSeek (command env.recv))
    (hlt : (command env.recv).length < fullBufSize) : SameReply kmalloc k env := by
  refine Or.inr (Or.inl ⟨hseek, fun behind behind' => ?_⟩)
  unfold WorkerEnv.sought WorkerEnv.soughtPos
  rw [env.seekto_of_length_lt hlt behind, env.seekto_of_length_lt hlt behind']

/-- The copies agree exactly on the requests of `SameReply`: for all outcomes
of `read` and `send` together, and for each one in which these calls succeed.
The memory behind the buffer is no outcome, so it may be another one in each
copy.  Among these requests are all seek requests that are shorter than the
buffer.  For a stored command, one copy replies with the whole content of the
device and the other one without the first bytes, as many as the command has. -/
theorem copies_agree_iff {calls : List Call} {events : List Event} {s : Driver}
    (hrun : Driver.loaded.run kmalloc calls = .ok (events, s)) (env : WorkerEnv) :
    ((∀ reads sends behind behind',
        CopiesAgree kmalloc s.k { env with reads := reads, sends := sends } behind behind') ↔
      SameReply kmalloc s.k env) ∧
    (env.Delivers → ((∀ behind behind', CopiesAgree kmalloc s.k env behind behind') ↔
      SameReply kmalloc s.k env)) ∧
    (IsSeek (command env.recv) → (command env.recv).length < fullBufSize →
      SameReply kmalloc s.k env) ∧
    (env.Delivers → env.openOk = true → env.reopenOk = true → env.StoresCommand kmalloc s.k →
      ∃ k' entries, k'.commands = .ok entries ∧ command env.recv <:+ entries.flatten ∧
        ∀ behind,
          Worker.start.Ends (charBuild .server) (aesdFops kmalloc) { env with behind := behind }
            ⟨s.k, none⟩ (entries.flatten.drop (command env.recv).length) k' ∧
          Worker.start.Ends (charBuild .metaAesd) (aesdFops kmalloc) { env with behind := behind }
            ⟨s.k, none⟩ entries.flatten k') := by
  obtain ⟨cmds, hready⟩ := Driver.ready_of_run hrun
  have hidle := hready.idle
  refine ⟨⟨fun hall => ?_, fun hsame reads sends => ?_⟩,
    fun hs => ⟨hidle.sameReply hs, hidle.copiesAgree⟩, SameReply.of_length_lt, ?_⟩
  · have hs : ({ env with reads := fun _ => ⟨fun _ => 0⟩, sends := fun _ => some 0 } :
        WorkerEnv).Delivers := ⟨fun _ _ => rfl, fun _ => Option.some_ne_none 0⟩
    have hsame := hidle.sameReply hs (hall _ _)
    exact hsame
  · exact hidle.copiesAgree hsame
  · intro hs hopen hreopen hst
    obtain ⟨k', cmds', hidle', hstored⟩ := hidle.ends_stored hs hopen hreopen hst
    refine ⟨k', _, hidle'.commands_eq, ?_, hstored⟩
    rw [← CommandLog.content, CommandLog.content_write _ (newline_mem_command hst.1),
      ← List.append_assoc]
    exact List.suffix_append _ _

/-- A device that stores the command `ab`, and a client that sends `a`. -/
theorem copies_agree_iff_second_command :
    let env : WorkerEnv := .succeeding (singles [97, newline])
    ∃ events s, Driver.loaded.run ⟨4096, by decide⟩ [.write 0 [97, 98, newline] .granting] =
        .ok (events, s) ∧
      ∃ k' entries, k'.commands = .ok entries ∧ command env.recv <:+ entries.flatten ∧
        ∀ behind,
          Worker.start.Ends (charBuild .server) (aesdFops ⟨4096, by decide⟩)
            { env with behind := behind } ⟨s.k, none⟩
            (entries.flatten.drop (command env.recv).length) k' ∧
          Worker.start.Ends (charBuild .metaAesd) (aesdFops ⟨4096, by decide⟩)
            { env with behind := behind } ⟨s.k, none⟩ entries.flatten k' :=
  ⟨_, _, rfl, (copies_agree_iff
    (show Driver.loaded.run _ [.write 0 [97, 98, newline] .granting] = .ok (_, _) from rfl)
      (.succeeding (singles [97, newline]))).2.2.2
    (WorkerEnv.succeeds_succeeding _).toDelivers rfl rfl (by decide)⟩

/-- The first command on an empty device: only one copy sends it back, whatever
lies behind the buffers. -/
theorem copies_differ_first_command :
    ¬ ∃ behind behind', CopiesAgree ⟨4096, by decide⟩ loaded
      (.succeeding (singles [97, newline])) behind behind' := by
  rintro ⟨behind, behind', hagree⟩
  exact (idle_loaded _).copies_differ (WorkerEnv.succeeds_succeeding _).toDelivers rfl rfl
    (by decide) behind behind' hagree

end CharDevice

end AesdChar
