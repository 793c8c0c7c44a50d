import AesdChar.Server.Progress

/-!
# The reply of a worker

`Replying build content target w` says that the reply of `w` will be `target`
if every call succeeds: what was sent so far, what is in the send buffer, and
what a reader at the position of the file still gets, are `target` together.
`Replying.step` is its step lemma.  It starts to hold when the command was
written (or when the seek request was made), and at the end of the worker it
says that the reply is `target`.

`Running.finishes` runs a single worker to its end.
-/

namespace AesdChar

open CodeLib CodeLib.CInt CodeLib.Ring CodeLib.CString

variable {kmalloc : Kmalloc} {k : KState} {cmds : Slots} {log : CommandLog}
  {env : WorkerEnv} {w w' : Worker} {copy : Copy}

/-- The build that uses the character device. -/
def charBuild (copy : Copy) : Build := ⟨copy, true⟩

/-- The calls of the reply loop succeed.  A `send` may still be short. -/
structure WorkerEnv.Delivers (env : WorkerEnv) : Prop where
  reads : ∀ n i, (env.reads n).uncopied i = 0
  sends : ∀ n, env.sends n ≠ none

/-- Every call of the worker succeeds. -/
structure WorkerEnv.Succeeds (env : WorkerEnv) : Prop extends env.Delivers where
  openOk : env.openOk = true
  reopenOk : env.reopenOk = true
  ioctl : env.ioctlUncopied = 0
  writes : ∀ n, (env.writes n).kbufOk = true ∧ (env.writes n).newbufOk = true ∧
    (env.writes n).uncopied = 0

/-- The answers to a worker for which everything succeeds at once. -/
def WorkerEnv.succeeding (recv : List Chunk) : WorkerEnv where
  recv := recv
  openOk := true
  ioctlUncopied := 0
  writes _ := .granting
  reopenOk := true
  reads _ := ⟨fun _ => 0⟩
  sends _ := some 0
  behind := []

theorem WorkerEnv.succeeds_succeeding (recv : List Chunk) : (succeeding recv).Succeeds where
  openOk := rfl
  reopenOk := rfl
  ioctl := rfl
  writes _ := ⟨rfl, rfl, rfl⟩
  reads _ _ := rfl
  sends _ := Option.some_ne_none 0

/-- Where the reply loop will start to read. -/
def Worker.replyFrom (copy : Copy) (w : Worker) : Int :=
  match copy with
  | .server => w.fPos
  | .metaAesd => 0

/-- The reply of `w` will be `target`. -/
def Worker.Replying (copy : Copy) (content target : List Byte) (w : Worker) : Prop :=
  match w.pc with
  | .write writtenTotal => w.totalLen ≤ writtenTotal ∧ w.reply = [] ∧
    ∃ off : Nat, w.replyFrom copy = off ∧ content.drop off = target
  | .rewind => w.reply = [] ∧ ∃ off : Nat, w.replyFrom copy = off ∧ content.drop off = target
  | .read => ∃ off : Nat, w.fPos = off ∧ w.reply ++ content.drop off = target
  | .send sendBuf sentTotal =>
    ∃ off : Nat, w.fPos = off ∧ w.reply ++ (sendBuf.drop sentTotal ++ content.drop off) = target
  | .closeDev | .unlock | .closeSocket | .lockDone | .complete | .unlockDone | .done =>
    w.reply = target
  | .recv | .lock | .openDev | .request | .abort | .abortClose => False

section Step

variable {ι : Type} [DecidableEq ι] {me : ι} {sh sh' : Shared ι KState} {a : Action}
  {target : List Byte}

/-- A worker that replies goes on to do so, and writes nothing more. -/
theorem Worker.Replying.step (hr : w.Replying copy log.content target) (hw : w.Ok env)
    (hs : env.Delivers) (hreopen : copy = .metaAesd → env.reopenOk = true)
    (h : Idle kmalloc sh.dev cmds log)
    (hm : w.pc.holds = true ↔ sh.mutex = some me)
    (hstep : w.step (charBuild copy) (aesdFops kmalloc) env me sh = .ok (a, w', sh')) :
    w'.Replying copy log.content target ∧ log.record a = log ∧ a ≠ .acquire ∧
      sh'.dev = sh.dev := by
  unfold Worker.Replying at hr
  cases hpc : w.pc with
  | recv => simp [hpc] at hr
  | lock => simp [hpc] at hr
  | openDev => simp [hpc] at hr
  | request => simp [hpc] at hr
  | write n =>
    simp only [hpc] at hr
    obtain ⟨rfl, rfl, rfl⟩ := step_unique hstep (step_write hpc (writeRound_done hr.1))
    exact ⟨hr.2, rfl, by simp, rfl⟩
  | rewind =>
    simp only [hpc] at hr
    obtain ⟨hnil, off, hoff, hdrop⟩ := hr
    cases copy with
    | server =>
      obtain ⟨rfl, rfl, rfl⟩ := step_unique hstep (step_rewind hpc rfl)
      exact ⟨⟨off, hoff, by rw [hnil, List.nil_append, hdrop]⟩, rfl, by simp, rfl⟩
    | metaAesd =>
      have hround : w.rewind (charBuild .metaAesd) (aesdFops kmalloc) env sh.dev =
          .ok ({ w with pc := .read, fPos := 0 }, sh.dev) := by
        simp only [rewind, charBuild, hreopen rfl]
        rfl
      obtain ⟨rfl, rfl, rfl⟩ := step_unique hstep (step_rewind hpc hround)
      have hzero : (off : Int) = 0 := hoff.symm
      obtain rfl : off = 0 := by exact_mod_cast hzero
      exact ⟨⟨0, rfl, by rw [hnil, List.nil_append, hdrop]⟩, rfl, by simp, rfl⟩
  | read =>
    simp only [hpc] at hr
    obtain ⟨off, hoff, htarget⟩ := hr
    rcases readRound_spec env h hw.pos with
      ⟨pos, hround, -, hend⟩ | ⟨off', hoff', -, hround⟩
    · obtain ⟨rfl, rfl, rfl⟩ := step_unique hstep (step_read hpc hround)
      refine ⟨?_, rfl, by simp, rfl⟩
      rwa [hend (hs.reads _) off hoff, List.append_nil] at htarget
    · obtain ⟨rfl, rfl, rfl⟩ := step_unique hstep (step_read hpc hround)
      obtain rfl : off' = off := by
        rw [hoff'] at hoff
        exact_mod_cast hoff
      refine ⟨⟨_, rfl, ?_⟩, rfl, by simp, rfl⟩
      rw [List.drop_zero, drop_window, ← List.drop_drop, List.take_append_drop]
      exact htarget
  | send buf n =>
    simp only [hpc] at hr
    obtain ⟨off, hoff, htarget⟩ := hr
    obtain ⟨rfl, rfl, rfl⟩ := step_unique hstep (step_send hpc)
    refine ⟨?_, rfl, by simp, rfl⟩
    unfold sendRound
    split
    · split
      · rename_i hnone
        exact absurd hnone (hs.sends _)
      · refine ⟨off, hoff, ?_⟩
        rw [List.append_assoc, ← List.append_assoc _ _ (log.content.drop off), ← List.drop_drop,
          List.take_append_drop]
        exact htarget
    · rename_i hn
      refine ⟨off, hoff, ?_⟩
      rwa [List.drop_eq_nil_of_le (Nat.le_of_not_lt hn), List.nil_append] at htarget
  | closeDev =>
    simp only [hpc] at hr
    obtain ⟨rfl, rfl, rfl⟩ := step_unique hstep (step_closeDev hpc)
    exact ⟨hr, rfl, by simp, rfl⟩
  | unlock =>
    simp only [hpc] at hr
    obtain ⟨rfl, rfl, rfl⟩ := step_unique hstep (step_unlock hpc (hm.mp (by rw [hpc]; rfl)))
    exact ⟨hr, rfl, by simp, rfl⟩
  | closeSocket =>
    simp only [hpc] at hr
    obtain ⟨rfl, rfl, rfl⟩ := step_unique hstep (step_closeSocket hpc)
    exact ⟨hr, rfl, by simp, rfl⟩
  | lockDone =>
    by_cases hfree : sh.mutex = none
    · simp only [hpc] at hr
      obtain ⟨rfl, rfl, rfl⟩ := step_unique hstep (step_lockDone_free hpc hfree)
      exact ⟨hr, rfl, by simp, rfl⟩
    · obtain ⟨rfl, rfl, rfl⟩ := step_unique hstep (step_lockDone_taken hpc hfree)
      exact ⟨hr, rfl, by simp, rfl⟩
  | complete =>
    simp only [hpc] at hr
    obtain ⟨rfl, rfl, rfl⟩ := step_unique hstep (step_complete hpc)
    exact ⟨hr, rfl, by simp, rfl⟩
  | unlockDone =>
    simp only [hpc] at hr
    obtain ⟨rfl, rfl, rfl⟩ := step_unique hstep (step_unlockDone hpc (hm.mp (by rw [hpc]; rfl)))
    exact ⟨hr, rfl, by simp, rfl⟩
  | abort => simp [hpc] at hr
  | abortClose => simp [hpc] at hr
  | done =>
    obtain ⟨rfl, rfl, rfl⟩ := step_unique hstep (step_done hpc)
    exact ⟨hr, rfl, by simp, rfl⟩

end Step

/-! ## A single worker -/

section Single

variable {env : Unit → WorkerEnv} {s : System Unit KState} {build : Build}

/-- A system with one worker. -/
def single {σ : Type} (w : Worker) (sh : Shared Unit σ) : System Unit σ := ⟨sh, fun _ => w⟩

/-- The steps of the system are those of its worker. -/
theorem single_step {σ : Type} {ops : FileOps σ} (env : Unit → WorkerEnv)
    {sh sh' : Shared Unit σ} {a : Action} (h : w.step build ops (env ()) () sh = .ok (a, w', sh')) :
    (single w sh).step build ops env () = .ok (a, single w' sh') := by
  have hupdate : Function.update (fun _ : Unit => w) () w' = fun _ => w' :=
    funext fun _ => Function.update_self _ _ _
  rw [System.step, single, h, ok_bind, single]
  simp only [hupdate, pure_eq_ok]

/-- Two runs in a row are one. -/
theorem System.run_append {σ : Type} {ops : FileOps σ} {s₀ s₁ s₂ : System Unit σ}
    {xs ys : List Unit} {as bs : List (Unit × Action)}
    (h₁ : s₀.run build ops env xs = .ok (as, s₁)) (h₂ : s₁.run build ops env ys = .ok (bs, s₂)) :
    s₀.run build ops env (xs ++ ys) = .ok (as ++ bs, s₂) := by
  induction xs generalizing s₀ as with
  | nil =>
    cases h₁
    exact h₂
  | cons x xs ih =>
    obtain ⟨a, s, rest, hstep, hrun, rfl⟩ := System.run_cons_inv h₁
    exact System.run_cons hstep (ih hrun)

/-- The worker that has received its command and opened the device. -/
def Worker.opened (chunks : List Chunk) : Worker :=
  { Worker.start with
    pc := .request
    fullBuf := received (command chunks)
    totalLen := (command chunks).length }

theorem Worker.ok_opened (env : WorkerEnv) : (Worker.opened env.recv).Ok env :=
  ⟨fun _ => ⟨rfl, rfl⟩, isSigned64_zero⟩

/-- The invariant holds when the worker has the mutex. -/
theorem running_single (env : Unit → WorkerEnv) (h : Idle kmalloc k cmds log)
    (hok : w.Ok (env ())) (hpc : w.pc.holds = true) :
    Running kmalloc env (single w ⟨k, some ()⟩) log where
  idle := ⟨cmds, h⟩
  ok _ := hok
  mutex _ := by simp [single, hpc]

/-- The first three steps of a single worker. -/
theorem run_opened {σ : Type} (build : Build) (ops : FileOps σ) (env : Unit → WorkerEnv)
    (dev : σ) (hopen : (env ()).openOk = true) :
    (System.start dev : System Unit σ).run build ops env (List.replicate 3 ()) =
      .ok ([((), .internal), ((), .acquire), ((), .internal)],
        single (Worker.opened (env ()).recv) ⟨dev, some ()⟩) := by
  let wlock : Worker := { Worker.opened (env ()).recv with pc := .lock }
  let wopen : Worker := { Worker.opened (env ()).recv with pc := .openDev }
  have hrecv : (single Worker.start ⟨dev, none⟩).step build ops env () =
      .ok (.internal, single wlock ⟨dev, none⟩) :=
    single_step env (Worker.step_recv rfl (receive_eq build.copy (env ()).recv))
  have hlock : (single wlock ⟨dev, none⟩).step build ops env () =
      .ok (.acquire, single wopen ⟨dev, some ()⟩) :=
    single_step env (Worker.step_lock_free rfl rfl)
  have hopenDev : (single wopen ⟨dev, some ()⟩).step build ops env () =
      .ok (.internal, single (Worker.opened (env ()).recv) ⟨dev, some ()⟩) :=
    single_step env (Worker.step_openDev rfl hopen)
  exact System.run_cons hrecv (System.run_cons hlock (System.run_cons hopenDev rfl))

/-- A single worker comes to its end, and an invariant of its steps holds
there. -/
theorem Running.finishes (build : Build) (P : Worker → Shared Unit KState → CommandLog → Prop)
    (hP : ∀ {s : System Unit KState} {log a s'}, Running kmalloc env s log →
      s.step build (aesdFops kmalloc) env () = .ok (a, s') →
      P (s.workers ()) s.shared log → P (s'.workers ()) s'.shared (log.record a))
    (h : Running kmalloc env s log) (hinit : P (s.workers ()) s.shared log) :
    ∃ n actions s', s.run build (aesdFops kmalloc) env (List.replicate n ()) = .ok (actions, s') ∧
      (s'.workers ()).pc = .done ∧ Running kmalloc env s' (log.recordAll actions) ∧
      P (s'.workers ()) s'.shared (log.recordAll actions) := by
  -- The rank of the worker is the induction measure.
  induction hrank : (s.workers ()).rank kmalloc.most log.content.length using Nat.strongRecOn
    generalizing s log with
  | ind rank ih =>
    by_cases hdone : (s.workers ()).pc = .done
    · exact ⟨0, [], s, rfl, hdone, h, hinit⟩
    · obtain ⟨a, s₁, hstep, h₁, hturn, -⟩ := h.step build ()
      rcases hturn.progress with ⟨-, -, -, hwait⟩ | ⟨-, hlt⟩
      · -- Nobody else could hold the mutex.
        rcases hwait with hpc | ⟨hholds, hmutex⟩
        · exact absurd hpc hdone
        · obtain ⟨u, hu⟩ := Option.ne_none_iff_exists'.mp hmutex
          rw [(h.mutex ()).mpr hu] at hholds
          cases hholds
      · rw [hrank] at hlt
        obtain ⟨n, actions, s₂, hrun, hpc, h₂, hend⟩ := ih _ hlt h₁ (hP h hstep hinit) rfl
        exact ⟨n + 1, ((), a) :: actions, s₂, System.run_cons hstep hrun, hpc, h₂, hend⟩

/-- The invariant holds after a step that is known. -/
theorem Running.of_step (h : Running kmalloc env s log) {s' : System Unit KState} {a : Action}
    (hstep : s.step build (aesdFops kmalloc) env () = .ok (a, s')) :
    Running kmalloc env s' (log.record a) := by
  obtain ⟨a', s'', hstep', h', -, -⟩ := h.step build ()
  rw [hstep, Except.ok.injEq, Prod.mk.injEq] at hstep'
  obtain ⟨rfl, rfl⟩ := hstep'
  exact h'

/-- A single worker that replies ends with its reply, and the device stays as
it is. -/
theorem Running.finishes_reply (copy : Copy) {target : List Byte}
    (h : Running kmalloc env s log) (hs : (env ()).Delivers)
    (hreopen : copy = .metaAesd → (env ()).reopenOk = true)
    (hr : (s.workers ()).Replying copy log.content target) :
    ∃ n actions s', s.run (charBuild copy) (aesdFops kmalloc) env (List.replicate n ()) =
        .ok (actions, s') ∧
      (s'.workers ()).pc = .done ∧ (s'.workers ()).reply = target ∧
      s'.shared.dev = s.shared.dev := by
  obtain ⟨n, actions, s', hrun, hdone, -, hend, hdev⟩ := h.finishes (charBuild copy)
    (fun w sh log' => w.Replying copy log'.content target ∧ sh.dev = s.shared.dev)
    (by
      rintro s₁ log₁ a s₂ h₁ hstep ⟨hr₁, hdev₁⟩
      obtain ⟨cmds, hidle⟩ := h₁.idle
      obtain ⟨hr', hlog, -, hdev'⟩ :=
        hr₁.step (h₁.ok ()) hs hreopen hidle (h₁.mutex ()) (System.step_inv hstep)
      rw [hlog]
      exact ⟨hr', hdev'.trans hdev₁⟩)
    ⟨hr, rfl⟩
  refine ⟨n, actions, s', hrun, hdone, ?_, hdev⟩
  unfold Worker.Replying at hend
  simpa only [hdone] using hend

end Single

end AesdChar
