import AesdChar.Server.Main

/-!
# The control flow of a worker

`Pc.Next` is the control flow of `threadfunc`, and `Worker.Moves` is what a step
does besides talking to the device: it follows the control flow, only one place
sets the flag, and the mutex goes from hand to hand.  Whatever the device does, a
worker closes its socket once, and it leaves without its flag exactly if a call
of `open` failed.
-/

namespace AesdChar

open CodeLib CodeLib.CString

/-- The way from one place of `threadfunc` to the next. -/
inductive Pc.Next (build : Build) (env : WorkerEnv) (fullBuf : List Byte) : Pc → Pc → Prop
  | receives : Next build env fullBuf .recv .lock
  | locked : Next build env fullBuf .lock .openDev
  | waits {pc} (hpc : pc = .lock ∨ pc = .lockDone ∨ pc = .done) : Next build env fullBuf pc pc
  | opened (hopen : env.openOk = true) : Next build env fullBuf .openDev .request
  | openFailed (hopen : env.openOk = false) : Next build env fullBuf .openDev .abort
  | seek (hseek : strncmp ioctlPrefix.length fullBuf ioctlPrefix = 0) :
      Next build env fullBuf .request .read
  | message (hseek : strncmp ioctlPrefix.length fullBuf ioctlPrefix ≠ 0) :
      Next build env fullBuf .request (.write 0)
  | wrote {n m} : Next build env fullBuf (.write n) (.write m)
  | written {n} : Next build env fullBuf (.write n) .rewind
  | rewound (hreopen : build = ⟨.metaAesd, true⟩ → env.reopenOk = true) :
      Next build env fullBuf .rewind .read
  | reopenFailed (hbuild : build = ⟨.metaAesd, true⟩) (hreopen : env.reopenOk = false) :
      Next build env fullBuf .rewind .abort
  | chunk {buf} : Next build env fullBuf .read (.send buf 0)
  | ended : Next build env fullBuf .read .closeDev
  | sent {buf n m} : Next build env fullBuf (.send buf n) (.send buf m)
  | chunkSent {buf n} : Next build env fullBuf (.send buf n) .read
  | closedDev : Next build env fullBuf .closeDev .unlock
  | unlocked : Next build env fullBuf .unlock .closeSocket
  | closedSocket : Next build env fullBuf .closeSocket .lockDone
  | lockedDone : Next build env fullBuf .lockDone .complete
  | completed : Next build env fullBuf .complete .unlockDone
  | unlockedDone : Next build env fullBuf .unlockDone .done
  | aborted : Next build env fullBuf .abort .abortClose
  | abortClosed : Next build env fullBuf .abortClose .done

section Worker

variable {ι σ : Type} {build : Build} {ops : FileOps σ} {env : WorkerEnv} {me : ι}
  {w w' : Worker} {s s' : Shared ι σ} {a : Action} {fullBuf : List Byte} {pc pc' : Pc}

/-- The fields that only few places change stay as they are. -/
structure Worker.Same (w w' : Worker) : Prop where
  fullBuf : w'.fullBuf = w.fullBuf
  flag : w'.bThreadCompleted = w.bThreadCompleted

/-- What a step does to the mutex. -/
inductive Shared.Passes (me : ι) (s s' : Shared ι σ) (held held' : Bool) : Prop
  | keeps (hmutex : s'.mutex = s.mutex) (hheld : held' = held)
  | takes (hfree : s.mutex = none) (hmutex : s'.mutex = some me) (hheld : held = false)
      (hheld' : held' = true)
  | releases (hmine : s.mutex = some me) (hmutex : s'.mutex = none) (hheld : held = true)
      (hheld' : held' = false)

/-- The mutex of the others. -/
theorem Shared.Passes.others {held held' : Bool} {other : ι} (h : s.Passes me s' held held')
    (hne : other ≠ me) : s'.mutex = some other ↔ s.mutex = some other := by
  cases h with
  | keeps hmutex => rw [hmutex]
  | takes hfree hmutex =>
    rw [hfree, hmutex]
    exact iff_of_false (fun heq => hne (Option.some.inj heq).symm) nofun
  | releases hmine hmutex =>
    rw [hmine, hmutex]
    exact iff_of_false nofun fun heq => hne (Option.some.inj heq).symm

/-- The mutex of the worker itself. -/
theorem Shared.Passes.mine {held held' : Bool} (h : s.Passes me s' held held')
    (hheld : held = true ↔ s.mutex = some me) : held' = true ↔ s'.mutex = some me := by
  cases h with
  | keeps hmutex hsame => rw [hmutex, hsame, hheld]
  | takes _ hmutex _ htrue => exact iff_of_true htrue hmutex
  | releases _ hmutex _ hfalse =>
    rw [hmutex, hfalse]
    exact iff_of_false nofun nofun

/-- What a step does besides talking to the device. -/
structure Worker.Moves (build : Build) (env : WorkerEnv) (me : ι) (w w' : Worker)
    (s s' : Shared ι σ) : Prop where
  next : Pc.Next build env w.fullBuf w.pc w'.pc
  fullBuf : w'.fullBuf = if w.pc = .recv then received (command env.recv) else w.fullBuf
  flag : w'.bThreadCompleted = (w.bThreadCompleted || decide (w.pc = .complete))
  mutex : s.Passes me s' w.pc.holds w'.pc.holds

/-- A step from a place that changes neither the buffer nor the flag. -/
theorem Worker.Moves.of_same (hpc : w.pc = pc) (hnext : Pc.Next build env w.fullBuf pc w'.pc)
    (hsame : w.Same w') (hmutex : s.Passes me s' pc.holds w'.pc.holds)
    (hne : pc ≠ .recv ∧ pc ≠ .complete := by simp) : w.Moves build env me w' s s' where
  next := by rwa [hpc]
  fullBuf := by
    rw [if_neg (by rw [hpc]; exact hne.1)]
    exact hsame.fullBuf
  flag := by
    rw [hpc, decide_eq_false hne.2, Bool.or_false]
    exact hsame.flag
  mutex := by rwa [hpc]

theorem Worker.request_next {dev dev' : σ} (h : w.request ops env dev = .ok (w', dev')) :
    Pc.Next build env w.fullBuf .request w'.pc ∧ w.Same w' ∧ w'.pc.holds = true := by
  unfold Worker.request at h
  split at h
  · rename_i hseek
    split at h
    · obtain ⟨r, -, h⟩ := bind_eq_ok h
      cases h
      exact ⟨.seek hseek, ⟨rfl, rfl⟩, rfl⟩
    · cases h
      exact ⟨.seek hseek, ⟨rfl, rfl⟩, rfl⟩
  · rename_i hseek
    cases h
    exact ⟨.message hseek, ⟨rfl, rfl⟩, rfl⟩

theorem Worker.writeRound_next {n : Nat} {dev dev' : σ}
    (h : w.writeRound ops env n dev = .ok (a, w', dev')) :
    Pc.Next build env w.fullBuf (.write n) w'.pc ∧ w.Same w' ∧ w'.pc.holds = true := by
  unfold Worker.writeRound at h
  split at h
  · obtain ⟨r, -, h⟩ := bind_eq_ok h
    simp only at h
    split at h
    · cases h
      exact ⟨.written, ⟨rfl, rfl⟩, rfl⟩
    · cases h
      exact ⟨.wrote, ⟨rfl, rfl⟩, rfl⟩
  · cases h
    exact ⟨.written, ⟨rfl, rfl⟩, rfl⟩

theorem Worker.rewind_next {dev dev' : σ} (h : w.rewind build ops env dev = .ok (w', dev')) :
    Pc.Next build env w.fullBuf .rewind w'.pc ∧ w.Same w' ∧ w'.pc.holds = true := by
  obtain ⟨copy, charDevice⟩ := build
  unfold Worker.rewind at h
  cases charDevice with
  | true =>
    cases copy with
    | server =>
      cases h
      exact ⟨.rewound nofun, ⟨rfl, rfl⟩, rfl⟩
    | metaAesd =>
      cases hreopen : env.reopenOk with
      | true =>
        simp only [hreopen] at h
        cases h
        exact ⟨.rewound fun _ => hreopen, ⟨rfl, rfl⟩, rfl⟩
      | false =>
        simp only [hreopen] at h
        cases h
        exact ⟨.reopenFailed rfl hreopen, ⟨rfl, rfl⟩, rfl⟩
  | false =>
    obtain ⟨r, -, h⟩ := bind_eq_ok h
    cases h
    exact ⟨.rewound nofun, ⟨rfl, rfl⟩, rfl⟩

theorem Worker.readRound_next {dev dev' : σ} (h : w.readRound ops env dev = .ok (w', dev')) :
    Pc.Next build env w.fullBuf .read w'.pc ∧ w.Same w' ∧ w'.pc.holds = true := by
  unfold Worker.readRound at h
  obtain ⟨r, -, h⟩ := bind_eq_ok h
  simp only at h
  split at h
  · cases h
    exact ⟨.chunk, ⟨rfl, rfl⟩, rfl⟩
  · cases h
    exact ⟨.ended, ⟨rfl, rfl⟩, rfl⟩

theorem Worker.sendRound_next (build : Build) (env : WorkerEnv) (w : Worker) (buf : List Byte)
    (n : Nat) : Pc.Next build env w.fullBuf (.send buf n) (w.sendRound env buf n).pc ∧
      w.Same (w.sendRound env buf n) ∧ (w.sendRound env buf n).pc.holds = true := by
  unfold Worker.sendRound
  split
  · split
    · exact ⟨.chunkSent, ⟨rfl, rfl⟩, rfl⟩
    · exact ⟨.sent, ⟨rfl, rfl⟩, rfl⟩
  · exact ⟨.chunkSent, ⟨rfl, rfl⟩, rfl⟩

variable [DecidableEq ι]

/-- Only who has the mutex releases it. -/
theorem Shared.eq_of_release (h : s.release me = .ok s') :
    s.mutex = some me ∧ s' = { s with mutex := none } := by
  unfold Shared.release at h
  split at h
  · rename_i hmine
    cases h
    exact ⟨hmine, rfl⟩
  · cases h

/-- Every step of a worker. -/
theorem Worker.step_moves (h : w.step build ops env me s = .ok (a, w', s')) :
    w.Moves build env me w' s s' := by
  cases hpc : w.pc with
  | recv =>
    rw [step_recv hpc (receive_eq _ _)] at h
    cases h
    constructor
    · rw [hpc]
      exact .receives
    · rw [if_pos hpc]
    · simp [hpc]
    · exact .keeps rfl (by rw [hpc]; rfl)
  | lock =>
    simp only [step, hpc] at h
    split at h
    · rename_i hfree
      cases h
      exact .of_same hpc .locked ⟨rfl, rfl⟩ (.takes hfree rfl rfl rfl)
    · cases h
      refine .of_same hpc ?_ ⟨rfl, rfl⟩ (.keeps rfl (by rw [hpc]))
      rw [hpc]
      exact .waits (Or.inl rfl)
  | openDev =>
    simp only [step, hpc] at h
    split at h
    · rename_i hopen
      cases h
      exact .of_same hpc (.opened hopen) ⟨rfl, rfl⟩ (.keeps rfl rfl)
    · rename_i hopen
      cases h
      exact .of_same hpc (.openFailed (by simpa using hopen)) ⟨rfl, rfl⟩
        (.keeps rfl rfl)
  | request =>
    simp only [step, hpc] at h
    obtain ⟨⟨w'', dev⟩, hround, h⟩ := bind_eq_ok h
    cases h
    obtain ⟨hnext, hsame, hholds⟩ := request_next hround
    exact .of_same hpc hnext hsame (.keeps rfl hholds)
  | write n =>
    simp only [step, hpc] at h
    obtain ⟨⟨a', w'', dev⟩, hround, h⟩ := bind_eq_ok h
    cases h
    obtain ⟨hnext, hsame, hholds⟩ := writeRound_next hround
    exact .of_same hpc hnext hsame (.keeps rfl hholds)
  | rewind =>
    simp only [step, hpc] at h
    obtain ⟨⟨w'', dev⟩, hround, h⟩ := bind_eq_ok h
    cases h
    obtain ⟨hnext, hsame, hholds⟩ := rewind_next hround
    exact .of_same hpc hnext hsame (.keeps rfl hholds)
  | read =>
    simp only [step, hpc] at h
    obtain ⟨⟨w'', dev⟩, hround, h⟩ := bind_eq_ok h
    cases h
    obtain ⟨hnext, hsame, hholds⟩ := readRound_next hround
    exact .of_same hpc hnext hsame (.keeps rfl hholds)
  | send buf n =>
    rw [step_send hpc] at h
    cases h
    obtain ⟨hnext, hsame, hholds⟩ := sendRound_next build env w buf n
    exact .of_same hpc hnext hsame (.keeps rfl hholds)
  | closeDev =>
    rw [step_closeDev hpc] at h
    cases h
    exact .of_same hpc .closedDev ⟨rfl, rfl⟩ (.keeps rfl rfl)
  | unlock =>
    simp only [step, hpc] at h
    obtain ⟨s'', hrelease, h⟩ := bind_eq_ok h
    cases h
    obtain ⟨hmine, rfl⟩ := Shared.eq_of_release hrelease
    exact .of_same hpc .unlocked ⟨rfl, rfl⟩ (.releases hmine rfl rfl rfl)
  | closeSocket =>
    rw [step_closeSocket hpc] at h
    cases h
    exact .of_same hpc .closedSocket ⟨rfl, rfl⟩ (.keeps rfl rfl)
  | lockDone =>
    simp only [step, hpc] at h
    split at h
    · rename_i hfree
      cases h
      exact .of_same hpc .lockedDone ⟨rfl, rfl⟩ (.takes hfree rfl rfl rfl)
    · cases h
      refine .of_same hpc ?_ ⟨rfl, rfl⟩ (.keeps rfl (by rw [hpc]))
      rw [hpc]
      exact .waits (Or.inr (Or.inl rfl))
  | complete =>
    rw [step_complete hpc] at h
    cases h
    constructor
    · rw [hpc]
      exact .completed
    · simp [hpc]
    · simp [hpc]
    · exact .keeps rfl (by rw [hpc]; rfl)
  | unlockDone =>
    simp only [step, hpc] at h
    obtain ⟨s'', hrelease, h⟩ := bind_eq_ok h
    cases h
    obtain ⟨hmine, rfl⟩ := Shared.eq_of_release hrelease
    exact .of_same hpc .unlockedDone ⟨rfl, rfl⟩ (.releases hmine rfl rfl rfl)
  | abort =>
    simp only [step, hpc] at h
    obtain ⟨s'', hrelease, h⟩ := bind_eq_ok h
    cases h
    obtain ⟨hmine, rfl⟩ := Shared.eq_of_release hrelease
    exact .of_same hpc .aborted ⟨rfl, rfl⟩ (.releases hmine rfl rfl rfl)
  | abortClose =>
    rw [step_abortClose hpc] at h
    cases h
    exact .of_same hpc .abortClosed ⟨rfl, rfl⟩ (.keeps rfl rfl)
  | done =>
    rw [step_done hpc] at h
    cases h
    refine .of_same hpc ?_ ⟨rfl, rfl⟩ (.keeps rfl (by rw [hpc]))
    rw [hpc]
    exact .waits (Or.inr (Or.inr rfl))

/-! ## The socket -/

/-- The places behind the `close` of the socket. -/
def Pc.closed : Pc → Bool
  | .lockDone | .complete | .unlockDone | .done => true
  | _ => false

/-- The socket is closed once. -/
theorem Pc.Next.closed_eq (h : Pc.Next build env fullBuf pc pc') :
    pc'.closed = (pc.closed || pc.closes) := by
  cases h with
  | waits hpc => rcases hpc with rfl | rfl | rfl <;> rfl
  | _ => rfl

/-- A worker that closes its socket has not closed it before. -/
theorem Pc.closed_of_closes (h : pc.closes = true) : pc.closed = false := by
  cases pc <;> first | rfl | cases h

theorem Pc.Next.of_done (h : Pc.Next build env fullBuf .done pc) : pc = .done := by
  cases h
  rfl

/-! ## The flag -/

/-- A call of `open` that a worker makes fails: the first one, or the one with which
a copy rewinds the device behind a command. -/
def WorkerEnv.OpenFails (build : Build) (env : WorkerEnv) : Prop :=
  env.openOk = false ∨
    build = ⟨.metaAesd, true⟩ ∧ env.reopenOk = false ∧ ¬ IsSeek (command env.recv)

/-- What the place of a worker says about its calls of `open`. -/
def Pc.Way (build : Build) (env : WorkerEnv) : Pc → Prop
  | .recv | .lock | .openDev | .done => True
  | .request => env.openOk = true
  | .write _ | .rewind => env.openOk = true ∧ ¬ IsSeek (command env.recv)
  | .abort | .abortClose => env.OpenFails build
  | .read | .send _ _ | .closeDev | .unlock | .closeSocket | .lockDone | .complete
  | .unlockDone => ¬ env.OpenFails build

/-- A worker sets its flag on its way out unless a call of `open` has failed. -/
structure Worker.Reports (build : Build) (env : WorkerEnv) (w : Worker) : Prop where
  fullBuf : w.pc ≠ .recv → w.fullBuf = received (command env.recv)
  way : w.pc.Way build env
  flag : w.bThreadCompleted = true ↔ w.pc = .unlockDone ∨ w.pc = .done ∧ ¬ env.OpenFails build

theorem Worker.reports_start (build : Build) (env : WorkerEnv) :
    Worker.start.Reports build env where
  fullBuf h := absurd rfl h
  way := trivial
  flag := by simp [Worker.start]

/-- The way goes on. -/
theorem Pc.Next.way (h : Pc.Next build env fullBuf pc pc') (hway : pc.Way build env)
    (hbuf : pc ≠ .recv → fullBuf = received (command env.recv)) : pc'.Way build env := by
  have hseek_iff := strncmp_received_iff (length_command_le env.recv)
  cases h with
  | receives | locked | unlockedDone | abortClosed => trivial
  | waits hpc => rcases hpc with rfl | rfl | rfl <;> exact hway
  | opened hopen => exact hopen
  | openFailed hopen => exact Or.inl hopen
  | seek hseek =>
    rw [hbuf nofun, hseek_iff] at hseek
    rintro (hopen | ⟨-, -, hne⟩)
    · exact absurd (hopen.symm.trans hway) nofun
    · exact hne hseek
  | message hseek =>
    rw [hbuf nofun, ne_eq, hseek_iff] at hseek
    exact ⟨hway, hseek⟩
  | wrote | written => exact hway
  | rewound hreopen =>
    rintro (hopen | ⟨hbuild, hfailed, -⟩)
    · exact absurd (hopen.symm.trans hway.1) nofun
    · exact absurd (hfailed.symm.trans (hreopen hbuild)) nofun
  | reopenFailed hbuild hreopen => exact Or.inr ⟨hbuild, hreopen, hway.2⟩
  | _ => exact hway

/-- The places behind the flag. -/
theorem Pc.Next.reported (h : Pc.Next build env fullBuf pc pc') (hway : pc.Way build env) :
    (pc' = .unlockDone ∨ pc' = .done ∧ ¬ env.OpenFails build) ↔
      (pc = .unlockDone ∨ pc = .done ∧ ¬ env.OpenFails build) ∨ pc = .complete := by
  cases h with
  | waits hpc => rcases hpc with rfl | rfl | rfl <;> simp
  | unlockedDone => exact iff_of_true (Or.inr ⟨rfl, hway⟩) (Or.inl (Or.inl rfl))
  | abortClosed =>
    have hfails : env.OpenFails build := hway
    simp [hfails]
  | _ => simp

theorem Worker.Reports.step (h : w.Reports build env)
    (hstep : w.step build ops env me s = .ok (a, w', s')) : w'.Reports build env := by
  obtain ⟨hnext, hbuf, hflag, -⟩ := step_moves hstep
  constructor
  · intro _
    by_cases hpc : w.pc = .recv
    · rw [hbuf, if_pos hpc]
    · rw [hbuf, if_neg hpc, h.fullBuf hpc]
  · exact hnext.way h.way h.fullBuf
  · rw [hnext.reported h.way, ← h.flag, hflag, Bool.or_eq_true, decide_eq_true_iff]

end Worker

end AesdChar
