import AesdChar.Server.Reply

/-!
# The critical section is serial

Any number of workers of the copy that opens the device again share one
device, and nobody else writes to it.  `Serial` is the invariant of such a
system.  It has two ghosts: `finished` are the workers that are behind their
write, and `entering` is the one that has the mutex and is in front of it.
Together they are the workers in the order in which they took the mutex, and
the finished commands of the device are the messages of `finished`.

A worker is `Waiting`, then `Entering`, then `Wrote`, and each of the three
has its own step lemma.
-/

namespace AesdChar

open CodeLib CodeLib.CInt CodeLib.Ring CodeLib.CString

variable {kmalloc : Kmalloc} {k : KState} {cmds : Slots} {log : CommandLog}

/-- The message that a worker writes: its command, if it has one that is not a
seek request. -/
def WorkerEnv.message (env : WorkerEnv) : Option (List Byte) :=
  if command env.recv ≠ [] ∧ ¬ IsSeek (command env.recv) then some (command env.recv) else none

/-- A message ends with its newline. -/
theorem WorkerEnv.newline_mem_message {env : WorkerEnv} {m : List Byte}
    (h : env.message = some m) : newline ∈ m := by
  unfold message at h
  split at h
  · rename_i hcommand
    obtain rfl := Option.some.inj h
    exact newline_mem_command hcommand.1
  · cases h

/-- A worker without a message has a seek request or nothing at all. -/
theorem WorkerEnv.message_eq_none_iff {env : WorkerEnv} :
    env.message = none ↔ command env.recv = [] ∨ IsSeek (command env.recv) := by
  unfold message
  split
  · rename_i h
    simp [h.1, h.2]
  · rename_i h
    rw [not_and_or, not_not, not_not] at h
    simp [h]

theorem WorkerEnv.message_eq_some {env : WorkerEnv} (hne : command env.recv ≠ [])
    (hseek : ¬ IsSeek (command env.recv)) : env.message = some (command env.recv) :=
  if_pos ⟨hne, hseek⟩

/-! ## The three phases of a worker -/

/-- A worker that did not enter the critical section yet. -/
def Worker.Waiting (w : Worker) : Prop := (w.pc = .recv ∨ w.pc = .lock) ∧ w.reply = []

/-- A worker in the critical section, in front of its write. -/
def Worker.Entering (env : WorkerEnv) (w : Worker) : Prop :=
  (w.pc = .openDev ∨ w.pc = .request ∨ w.pc = .write 0 ∧ ¬ IsSeek (command env.recv)) ∧
    w.reply = []

/-- A worker behind its write: its reply will be `target`, or it had nothing
to write. -/
def Worker.Wrote (env : WorkerEnv) (content target : List Byte) (w : Worker) : Prop :=
  w.Replying .metaAesd content target ∨
    env.message = none ∧ (w.pc = .rewind ∨ w.pc.late = true)

/-- Outside of the critical section the content does not matter any more. -/
theorem Worker.Replying.of_not_holds {w : Worker} {copy : Copy} {content target : List Byte}
    (h : w.Replying copy content target) (hpc : w.pc.holds = false) (content' : List Byte) :
    w.Replying copy content' target := by
  unfold Worker.Replying at *
  cases hw : w.pc <;> simp_all [Pc.holds]

section Step

variable {ι : Type} [DecidableEq ι] {me : ι} {env : WorkerEnv} {w w' : Worker}
  {sh sh' : Shared ι KState} {a : Action} {target : List Byte}

/-- A waiting worker takes the mutex, or it goes on to wait. -/
theorem Worker.Waiting.step (log : CommandLog) (h : w.Waiting) {build : Build}
    (hstep : w.step build (aesdFops kmalloc) env me sh = .ok (a, w', sh')) :
    (w'.Waiting ∧ a ≠ .acquire ∧ log.record a = log) ∨
      (w'.Entering env ∧ a = .acquire ∧ log.record a = log ∧ sh.mutex = none) := by
  obtain ⟨hpc | hpc, hreply⟩ := h
  · obtain ⟨rfl, rfl, rfl⟩ := step_unique hstep (step_recv hpc (receive_eq _ _))
    exact Or.inl ⟨⟨Or.inr rfl, hreply⟩, by simp, rfl⟩
  · by_cases hfree : sh.mutex = none
    · obtain ⟨rfl, rfl, rfl⟩ := step_unique hstep (step_lock_free hpc hfree)
      exact Or.inr ⟨⟨Or.inl rfl, hreply⟩, rfl, rfl, hfree⟩
    · obtain ⟨rfl, rfl, rfl⟩ := step_unique hstep (step_lock_taken hpc hfree)
      exact Or.inl ⟨⟨Or.inr hpc, hreply⟩, by simp, rfl⟩

/-- The write of a worker for which everything succeeds is granted if nothing
is pending. -/
theorem WorkerEnv.Succeeds.grants (hs : env.Succeeds) (hmax : fullBufSize ≤ kmalloc.maxSize)
    (n : Nat) {len : Nat} (hlen : len ≤ fullBufSize) : (env.writes n).Grants kmalloc 0 len := by
  obtain ⟨hkbuf, hnewbuf, hcopy⟩ := hs.writes n
  refine ⟨Or.inr ⟨hkbuf, ?_⟩, ?_, Or.inr ⟨hnewbuf, ?_⟩⟩
  · omega
  · rw [hcopy, Nat.zero_min]
  · omega

/-- An entering worker writes its message as one command, and then its reply
will be the whole content.  A worker without a message writes nothing. -/
theorem Worker.Entering.step (h : w.Entering env) (hok : w.Ok env) (hs : env.Succeeds)
    (hmax : fullBufSize ≤ kmalloc.maxSize) (hidle : Idle kmalloc sh.dev cmds log)
    (hpending : log.pending = []) {build : Build}
    (hstep : w.step build (aesdFops kmalloc) env me sh = .ok (a, w', sh')) :
    a ≠ .acquire ∧
      (w'.Entering env ∧ log.record a = log ∨
        (log.record a).pending = [] ∧
          (log.record a).closed = log.closed ++ env.message.toList ∧
          w'.Wrote env (log.record a).content (log.record a).content) := by
  have hle := length_command_le env.recv
  obtain ⟨hpc | hpc | ⟨hpc, hseek⟩, hreply⟩ := h
  · -- The device opens.
    obtain ⟨rfl, rfl, rfl⟩ := step_unique hstep (step_openDev hpc hs.openOk)
    exact ⟨by simp, Or.inl ⟨⟨Or.inr (Or.inl rfl), hreply⟩, rfl⟩⟩
  · obtain ⟨hbuf, -⟩ := hok.buf (by simp [hpc])
    by_cases hseek : strncmp ioctlPrefix.length w.fullBuf ioctlPrefix = 0
    · -- A seek request goes to the reply loop.
      obtain ⟨pos, hrequest, -⟩ := request_seek env hidle hok.pos hseek
      obtain ⟨rfl, rfl, rfl⟩ := step_unique hstep (step_request hpc hrequest)
      rw [hbuf, strncmp_received_iff hle] at hseek
      have hnone : env.message = none := WorkerEnv.message_eq_none_iff.mpr (Or.inr hseek)
      refine ⟨by simp, Or.inr ⟨hpending, ?_, Or.inr ⟨hnone, Or.inr rfl⟩⟩⟩
      rw [hnone]
      exact (List.append_nil _).symm
    · obtain ⟨rfl, rfl, rfl⟩ := step_unique hstep (step_request hpc (request_write env hseek))
      rw [hbuf, strncmp_received_iff hle] at hseek
      exact ⟨by simp, Or.inl ⟨⟨Or.inr (Or.inr ⟨rfl, hseek⟩), hreply⟩, rfl⟩⟩
  · have hrecv : w.pc ≠ .recv := by simp [hpc]
    obtain ⟨-, htotal⟩ := hok.buf hrecv
    by_cases hne : command env.recv = []
    · -- There is nothing to write.
      have hdone : w.totalLen ≤ 0 := by
        rw [htotal, hne]
        exact Nat.le_refl 0
      obtain ⟨rfl, rfl, rfl⟩ := step_unique hstep (step_write hpc (writeRound_done hdone))
      have hnone : env.message = none := WorkerEnv.message_eq_none_iff.mpr (Or.inl hne)
      refine ⟨by simp, Or.inr ⟨hpending, ?_, Or.inr ⟨hnone, Or.inl rfl⟩⟩⟩
      rw [hnone]
      exact (List.append_nil _).symm
    · have hpositive := hok.totalLen_pos hrecv hne
      obtain ⟨hroom, hlt⟩ := hok.totalLen_le hrecv
      have hsome := WorkerEnv.message_eq_some hne hseek
      have hnewline := WorkerEnv.newline_mem_message hsome
      have hgrants := hs.grants hmax w.writes hle
      rw [← hok.unwritten_zero hrecv] at hgrants hsome hnewline
      obtain ⟨k', cmds', hround, -⟩ :=
        writeRound_granted hidle hpositive hroom hlt (by rwa [hpending])
      obtain ⟨rfl, rfl, rfl⟩ := step_unique hstep (step_write hpc hround)
      have hrecord := log.record_wrote (w.unwritten 0) (Int.natCast_nonneg (w.unwritten 0).length)
      obtain ⟨hclosed, hnil⟩ := log.write_of_mem hnewline
      rw [hrecord, hclosed, hnil, hsome, hpending]
      exact ⟨by simp, Or.inr ⟨rfl, rfl, Or.inl ⟨Nat.le_refl _, hreply, 0, rfl, rfl⟩⟩⟩

/-- A worker behind its write writes nothing more. -/
theorem Worker.Wrote.step (h : w.Wrote env log.content target) (hok : w.Ok env)
    (hs : env.Succeeds) (hidle : Idle kmalloc sh.dev cmds log)
    (hm : w.pc.holds = true ↔ sh.mutex = some me)
    (hstep : w.step (charBuild .metaAesd) (aesdFops kmalloc) env me sh = .ok (a, w', sh')) :
    a ≠ .acquire ∧ log.record a = log ∧ w'.Wrote env log.content target := by
  rcases h with hreplying | ⟨hnone, hpc | hlate⟩
  · obtain ⟨hreplying', hrecord, hacquire, -⟩ :=
      hreplying.step hok hs.toDelivers (fun _ => hs.reopenOk) hidle hm hstep
    exact ⟨hacquire, hrecord, Or.inl hreplying'⟩
  · obtain ⟨pc, pos, hrewind, -, hpc'⟩ := rewind_spec (charBuild .metaAesd) env hidle hok.pos
    obtain ⟨rfl, rfl, rfl⟩ := step_unique hstep (step_rewind hpc hrewind)
    refine ⟨by simp, rfl, Or.inr ⟨hnone, Or.inr ?_⟩⟩
    rcases hpc' with rfl | rfl
    · rfl
    · rfl
  · obtain ⟨hlate', rfl | rfl⟩ := late_step hlate hstep
    · exact ⟨by simp, rfl, Or.inr ⟨hnone, Or.inr hlate'⟩⟩
    · exact ⟨by simp, rfl, Or.inr ⟨hnone, Or.inr hlate'⟩⟩

/-- An entering worker has the mutex. -/
theorem Worker.Entering.holds (h : w.Entering env) : w.pc.holds = true := by
  obtain ⟨hpc | hpc | ⟨hpc, -⟩, -⟩ := h
  · rw [hpc]
    rfl
  · rw [hpc]
    rfl
  · rw [hpc]
    rfl

/-- What others write does not matter to a worker outside of the critical
section. -/
theorem Worker.Wrote.of_not_holds {content : List Byte} (h : w.Wrote env content target)
    (hpc : w.pc.holds = false) (content' : List Byte) : w.Wrote env content' target :=
  h.imp_left fun hreplying => hreplying.of_not_holds hpc content'

end Step

/-! ## Any number of workers -/

section System

variable {ι : Type} {env : ι → WorkerEnv} {s s' : System ι KState} {finished : List ι}
  {entering : Option ι}

/-- The messages of a row of workers. -/
def messages (env : ι → WorkerEnv) (workers : List ι) : List (List Byte) :=
  workers.filterMap fun i => (env i).message

theorem messages_concat (env : ι → WorkerEnv) (workers : List ι) (i : ι) :
    messages env (workers ++ [i]) = messages env workers ++ (env i).message.toList := by
  unfold messages
  rw [List.filterMap_append]
  cases hm : (env i).message with
  | none => simp [hm]
  | some m => simp [hm]

/-- The content of the device behind the writes of a row of workers. -/
def contentAfter (env : ι → WorkerEnv) (workers : List ι) : List Byte :=
  ((messages env workers).rtake maxWriteOperations).flatten

/-- The invariant of the critical section. -/
structure Serial (kmalloc : Kmalloc) (env : ι → WorkerEnv) (s : System ι KState)
    (finished : List ι) (entering : Option ι) (log : CommandLog) : Prop
    extends Running kmalloc env s log where
  closed : log.closed = messages env finished
  pending : log.pending = []
  nodup : (finished ++ entering.toList).Nodup
  waiting : ∀ i, i ∉ finished → entering ≠ some i → (s.workers i).Waiting
  entered : ∀ i, entering = some i → (s.workers i).Entering (env i)
  wrote : ∀ before i after, finished = before ++ i :: after →
    (s.workers i).Wrote (env i) log.content (contentAfter env (before ++ [i]))

/-- Nobody has entered yet. -/
theorem serial_start (kmalloc : Kmalloc) (env : ι → WorkerEnv) :
    Serial kmalloc env (System.start loaded) [] none .empty where
  toRunning := running_start env (idle_loaded kmalloc)
  closed := rfl
  pending := rfl
  nodup := List.nodup_nil
  waiting _ _ _ := ⟨Or.inl rfl, rfl⟩
  entered _ h := by cases h
  wrote before i after h := by simp at h

namespace Serial

variable {i : ι}

theorem notMem_of_entering (h : Serial kmalloc env s finished entering log)
    (hi : entering = some i) : i ∉ finished := by
  have hnodup := h.nodup
  rw [hi, Option.toList_some, List.nodup_append] at hnodup
  exact fun hmem => hnodup.2.2 i hmem i (List.mem_singleton_self i) rfl

/-- While the mutex is free nobody is in front of a write. -/
theorem entering_eq_none (h : Serial kmalloc env s finished entering log)
    (hm : s.shared.mutex = none) : entering = none := by
  cases hentering : entering with
  | none => rfl
  | some i =>
    have hmutex := (h.mutex i).mp (h.entered i hentering).holds
    rw [hm] at hmutex
    cases hmutex

/-- A step of worker `i` that keeps its phase. -/
private theorem keep (h : Serial kmalloc env s finished entering log)
    (hrunning : Running kmalloc env s' log) (hother : ∀ j, j ≠ i → s'.workers j = s.workers j)
    (hwaiting : i ∉ finished → entering ≠ some i → (s'.workers i).Waiting)
    (hentered : entering = some i → (s'.workers i).Entering (env i))
    (hwrote : ∀ before after, finished = before ++ i :: after →
      (s'.workers i).Wrote (env i) log.content (contentAfter env (before ++ [i]))) :
    Serial kmalloc env s' finished entering log where
  toRunning := hrunning
  closed := h.closed
  pending := h.pending
  nodup := h.nodup
  waiting j hmem hj := by
    by_cases hji : j = i
    · subst hji
      exact hwaiting hmem hj
    · rw [hother j hji]
      exact h.waiting j hmem hj
  entered j hj := by
    by_cases hji : j = i
    · subst hji
      exact hentered hj
    · rw [hother j hji]
      exact h.entered j hj
  wrote before j after hsplit := by
    by_cases hji : j = i
    · subst hji
      exact hwrote before after hsplit
    · rw [hother j hji]
      exact h.wrote before j after hsplit

/-- A worker takes the mutex. -/
private theorem enter (h : Serial kmalloc env s finished none log)
    (hrunning : Running kmalloc env s' log) (hother : ∀ j, j ≠ i → s'.workers j = s.workers j)
    (hmem : i ∉ finished) (hentered : (s'.workers i).Entering (env i)) :
    Serial kmalloc env s' finished (some i) log where
  toRunning := hrunning
  closed := h.closed
  pending := h.pending
  nodup := by
    have hnodup := h.nodup
    rw [Option.toList_none, List.append_nil] at hnodup
    rw [Option.toList_some, List.nodup_append]
    refine ⟨hnodup, List.nodup_singleton i, fun j hj l hl => ?_⟩
    rw [List.mem_singleton.mp hl]
    exact fun hji => hmem (hji ▸ hj)
  waiting j hj hne := by
    rw [hother j fun hji => hne (congrArg some hji.symm)]
    exact h.waiting j hj (by simp)
  entered j hj := by
    obtain rfl := Option.some.inj hj
    exact hentered
  wrote before j after hsplit := by
    have hj : j ∈ finished := by
      rw [hsplit]
      exact List.mem_append_right _ List.mem_cons_self
    rw [hother j fun hji => hmem (hji ▸ hj)]
    exact h.wrote before j after hsplit

/-- The entering worker writes its message. -/
private theorem finish (h : Serial kmalloc env s finished (some i) log) {log' : CommandLog}
    (hrunning : Running kmalloc env s' log') (hother : ∀ j, j ≠ i → s'.workers j = s.workers j)
    (hclosed : log'.closed = log.closed ++ (env i).message.toList) (hpending : log'.pending = [])
    (hwrote : (s'.workers i).Wrote (env i) log'.content log'.content) :
    Serial kmalloc env s' (finished ++ [i]) none log' := by
  have hmessages : log'.closed = messages env (finished ++ [i]) := by
    rw [hclosed, messages_concat, h.closed]
  have hcontent : log'.content = contentAfter env (finished ++ [i]) := by
    rw [CommandLog.content, CommandLog.visible, hmessages, contentAfter]
  refine ⟨hrunning, hmessages, hpending, ?_, ?_, ?_, ?_⟩
  · rw [Option.toList_none, List.append_nil]
    exact h.nodup
  · intro j hj _
    rw [List.mem_append, List.mem_singleton, not_or] at hj
    rw [hother j hj.2]
    exact h.waiting j hj.1 fun hji => hj.2 (Option.some.inj hji).symm
  · intro j hj
    cases hj
  · intro before j after hsplit
    rcases List.eq_nil_or_concat after with rfl | ⟨after', l, rfl⟩
    · -- The worker that has just written.
      obtain ⟨rfl, hlast⟩ := List.append_inj' hsplit rfl
      obtain rfl := (List.cons.inj hlast).1
      rw [← hcontent]
      exact hwrote
    · -- A worker that has left the critical section before.
      rw [List.concat_eq_append, ← List.cons_append, ← List.append_assoc] at hsplit
      obtain ⟨rfl, -⟩ := List.append_inj' hsplit rfl
      have hj : j ∈ before ++ j :: after' := List.mem_append_right _ List.mem_cons_self
      have hji : j ≠ i := fun hji => h.notMem_of_entering rfl (hji ▸ hj)
      rw [hother j hji]
      exact (h.wrote before j after' rfl).of_not_holds (h.not_holds hji (h.entered i rfl).holds) _

variable [DecidableEq ι]

/-- One step of any worker: it keeps its phase, or it goes on to the next one
and the ghosts follow. -/
theorem step (h : Serial kmalloc env s finished entering log) (hs : ∀ i, (env i).Succeeds)
    (hmax : fullBufSize ≤ kmalloc.maxSize) (i : ι) :
    ∃ a s' finished' entering',
      s.step (charBuild .metaAesd) (aesdFops kmalloc) env i = .ok (a, s') ∧
      Serial kmalloc env s' finished' entering' (log.record a) ∧
      finished' ++ entering'.toList =
        finished ++ entering.toList ++ (if a = .acquire then [i] else []) := by
  obtain ⟨a, s', hstep, hrunning, -, hother⟩ := h.toRunning.step (charBuild .metaAesd) i
  obtain ⟨cmds, hidle⟩ := h.idle
  have hown := System.step_inv hstep
  by_cases hentering : entering = some i
  · -- The worker in front of its write.
    subst hentering
    have hnot := h.notMem_of_entering rfl
    obtain ⟨hacquire, ⟨hentered, hrecord⟩ | ⟨hpending, hclosed, hwrote⟩⟩ :=
      (h.entered i rfl).step (h.ok i) (hs i) hmax hidle h.pending hown
    · rw [hrecord] at hrunning
      refine ⟨a, s', finished, some i, hstep, ?_, by simp [hacquire]⟩
      rw [hrecord]
      apply h.keep hrunning hother
      · exact fun _ hne => absurd rfl hne
      · exact fun _ => hentered
      · intro before after hsplit
        exact absurd (hsplit ▸ List.mem_append_right _ List.mem_cons_self) hnot
    · refine ⟨a, s', finished ++ [i], none, hstep, ?_, by simp [hacquire]⟩
      exact h.finish hrunning hother hclosed hpending hwrote
  by_cases hmem : i ∈ finished
  · -- A worker behind its write.
    have hwrote : ∀ before after, finished = before ++ i :: after →
        a ≠ .acquire ∧ log.record a = log ∧
          (s'.workers i).Wrote (env i) log.content (contentAfter env (before ++ [i])) :=
      fun before after hsplit =>
        (h.wrote before i after hsplit).step (h.ok i) (hs i) hidle (h.mutex i) hown
    obtain ⟨before, after, hsplit⟩ := List.append_of_mem hmem
    obtain ⟨hacquire, hrecord, -⟩ := hwrote before after hsplit
    rw [hrecord] at hrunning
    refine ⟨a, s', finished, entering, hstep, ?_, by simp [hacquire]⟩
    rw [hrecord]
    apply h.keep hrunning hother
    · exact fun hnot _ => absurd hmem hnot
    · exact fun hi => absurd hi hentering
    · exact fun before after hsplit => (hwrote before after hsplit).2.2
  · -- A worker that did not enter yet.
    obtain ⟨hwaiting, hacquire, hrecord⟩ | ⟨hentered, hacquire, hrecord, hfree⟩ :=
      (h.waiting i hmem hentering).step log hown
    · rw [hrecord] at hrunning
      refine ⟨a, s', finished, entering, hstep, ?_, by simp [hacquire]⟩
      rw [hrecord]
      apply h.keep hrunning hother
      · exact fun _ _ => hwaiting
      · exact fun hi => absurd hi hentering
      · intro before after hsplit
        exact absurd (hsplit ▸ List.mem_append_right _ List.mem_cons_self) hmem
    · obtain rfl := h.entering_eq_none hfree
      rw [hrecord] at hrunning
      refine ⟨a, s', finished, some i, hstep, ?_, by simp [hacquire]⟩
      rw [hrecord]
      exact h.enter hrunning hother hmem hentered

end Serial

/-! ## Runs -/

/-- The workers of a run in the order in which they took the mutex. -/
def acquired (actions : List (ι × Action)) : List ι :=
  actions.filterMap fun a => if a.2 = .acquire then some a.1 else none

theorem acquired_cons (i : ι) (a : Action) (actions : List (ι × Action)) :
    acquired ((i, a) :: actions) = (if a = .acquire then [i] else []) ++ acquired actions := by
  unfold acquired
  by_cases ha : a = .acquire
  · simp [ha]
  · simp [ha]

/-- The payload that an action added to the device, if it added one. -/
def Action.payload? : Action → Option (List Byte)
  | .wrote buf ret => if 0 ≤ ret then some buf else none
  | _ => none

/-- The payloads of the writes of a run that succeeded, in order. -/
def written (actions : List (ι × Action)) : List (List Byte) :=
  actions.filterMap fun a => a.2.payload?

/-- The log of a run can be read off its payloads. -/
theorem recordAll_eq (log : CommandLog) (actions : List (ι × Action)) :
    log.recordAll actions = (written actions).foldl CommandLog.write log := by
  induction actions generalizing log with
  | nil => rfl
  | cons a actions ih =>
    have hhead : log.record a.2 = a.2.payload?.elim log log.write := by
      cases ha : a.2 with
      | wrote buf ret =>
        by_cases hret : 0 ≤ ret
        · rw [log.record_wrote buf hret]
          simp [Action.payload?, hret]
        · rw [log.record_failed buf (Int.not_le.mp hret)]
          simp [Action.payload?, hret]
      | _ => rfl
    show (log.record a.2).recordAll actions = _
    rw [ih, hhead, written, written]
    cases hp : a.2.payload? with
    | none => simp [hp]
    | some w => simp [hp]

variable [DecidableEq ι]

/-- Every run keeps the invariant, and the ghosts are the workers in the order
in which they took the mutex. -/
theorem Serial.run (h : Serial kmalloc env s finished entering log)
    (hs : ∀ i, (env i).Succeeds) (hmax : fullBufSize ≤ kmalloc.maxSize) (schedule : List ι) :
    ∃ actions s' finished' entering',
      s.run (charBuild .metaAesd) (aesdFops kmalloc) env schedule = .ok (actions, s') ∧
      Serial kmalloc env s' finished' entering' (log.recordAll actions) ∧
      finished' ++ entering'.toList = finished ++ entering.toList ++ acquired actions := by
  induction schedule generalizing s finished entering log with
  | nil => exact ⟨[], s, finished, entering, rfl, h, (List.append_nil _).symm⟩
  | cons i schedule ih =>
    obtain ⟨a, s₁, finished₁, entering₁, hstep, h₁, horder₁⟩ := h.step hs hmax i
    obtain ⟨actions, s₂, finished₂, entering₂, hrun, h₂, horder₂⟩ := ih h₁
    refine ⟨(i, a) :: actions, s₂, finished₂, entering₂, System.run_cons hstep hrun, h₂, ?_⟩
    rw [horder₂, horder₁, acquired_cons, List.append_assoc]

/-- What is true of a run with its actions, its last state and the workers
that wrote, in the order of their writes. -/
structure RunsSerially (kmalloc : Kmalloc) (env : ι → WorkerEnv) (actions : List (ι × Action))
    (s : System ι KState) (finished : List ι) : Prop where
  /-- The workers wrote in the order in which they took the mutex.  The one
  that has it now may be in front of its write. -/
  order : acquired actions = finished ∨
    ∃ i, s.shared.mutex = some i ∧ acquired actions = finished ++ [i]
  /-- No worker takes the mutex twice. -/
  once : (acquired actions).Nodup
  /-- The commands that were ever finished are the messages, one by one. -/
  commands : (cut hasNewline (written actions)).1.map List.flatten = messages env finished
  /-- The device holds the last ten of them, and nothing else. -/
  device : s.shared.dev.commands = .ok ((messages env finished).rtake maxWriteOperations) ∧
    s.shared.dev.pending = .ok []
  /-- A worker with a message gets the last ten messages as of its own write. -/
  reply : ∀ i m, (env i).message = some m → (s.workers i).pc = .done →
    ∃ before after, finished = before ++ i :: after ∧
      (s.workers i).reply = ((messages env before ++ [m]).rtake maxWriteOperations).flatten
  /-- The loops of a worker take a bounded number of rounds. -/
  terminates : ∀ i, stepsOf i actions ≤ 3 * kmalloc.most + 13 + fullBufSize
  /-- A worker only waits for the mutex, which somebody else has. -/
  waits : ∀ i s', s.step (charBuild .metaAesd) (aesdFops kmalloc) env i = .ok (.wait, s') →
    (s.workers i).pc = .done ∨ ∃ j, j ≠ i ∧ s.shared.mutex = some j

/-- Whatever the order of their steps, the workers run one after the other. -/
theorem run_serial {kmalloc : Kmalloc} {env : ι → WorkerEnv} (hs : ∀ i, (env i).Succeeds)
    (hmax : fullBufSize ≤ kmalloc.maxSize) (schedule : List ι) :
    ∃ actions s finished, (System.start loaded).run (charBuild .metaAesd) (aesdFops kmalloc) env
        schedule = .ok (actions, s) ∧
      RunsSerially kmalloc env actions s finished := by
  obtain ⟨actions, s, finished, entering, hrun, h, horder⟩ :=
    (serial_start kmalloc env).run hs hmax schedule
  have hlog : CommandLog.empty.recordAll actions = .ofWrites (written actions) :=
    recordAll_eq _ _
  have horder : acquired actions = finished ++ entering.toList := horder.symm
  obtain ⟨cmds, hidle⟩ := h.idle
  refine ⟨actions, s, finished, hrun, ?_, ?_, ?_, ⟨?_, ?_⟩, ?_, ?_, ?_⟩
  · cases hentering : entering with
    | none =>
      rw [horder, hentering]
      exact Or.inl (List.append_nil _)
    | some i =>
      rw [horder, hentering]
      exact Or.inr ⟨i, (h.mutex i).mp (h.entered i hentering).holds, rfl⟩
  · rw [horder]
    exact h.nodup
  · rw [← (CommandLog.ofWrites_eq_cut _).1, ← hlog]
    exact h.closed
  · rw [hidle.commands_eq, CommandLog.visible, h.closed]
  · rw [hidle.pending_eq, h.pending]
  · intro i m hm hdone
    by_cases hmem : i ∈ finished
    · obtain ⟨before, after, hsplit⟩ := List.append_of_mem hmem
      refine ⟨before, after, hsplit, ?_⟩
      rcases h.wrote before i after hsplit with hreplying | ⟨hnone, -⟩
      · simp only [Worker.Replying, hdone] at hreplying
        rw [hreplying, contentAfter, messages_concat, hm, Option.toList_some]
      · rw [hm] at hnone
        cases hnone
    · by_cases hentering : entering = some i
      · have hholds := (h.entered i hentering).holds
        rw [hdone] at hholds
        cases hholds
      · obtain ⟨hpc | hpc, -⟩ := h.waiting i hmem hentering
        · rw [hdone] at hpc
          cases hpc
        · rw [hdone] at hpc
          cases hpc
  · intro i
    obtain ⟨actions', s', hrun', -, hrank⟩ :=
      (running_start env (idle_loaded kmalloc)).run (charBuild .metaAesd) schedule
    rw [hrun, Except.ok.injEq, Prod.mk.injEq] at hrun'
    obtain ⟨rfl, rfl⟩ := hrun'
    have hbound : (Worker.start).rank kmalloc.most CommandLog.empty.content.length =
        3 * kmalloc.most + 13 + fullBufSize := rfl
    have := hrank i
    rw [show (System.start loaded : System ι KState).workers i = Worker.start from rfl,
      hbound] at this
    omega
  · intro i s' hstep
    obtain ⟨a, s'', hstep', -, hturn, -⟩ := h.toRunning.step (charBuild .metaAesd) i
    rw [hstep, Except.ok.injEq, Prod.mk.injEq] at hstep'
    obtain ⟨rfl, rfl⟩ := hstep'
    rcases hturn.progress with ⟨-, -, -, hdone | ⟨hholds, hmutex⟩⟩ | ⟨hwait, -⟩
    · exact Or.inl hdone
    · obtain ⟨j, hj⟩ := Option.ne_none_iff_exists'.mp hmutex
      refine Or.inr ⟨j, fun hji => ?_, hj⟩
      rw [(h.mutex i).mpr (hji ▸ hj)] at hholds
      cases hholds
    · exact absurd rfl hwait

/-- Two clients that send one line each. -/
def twoClients (i : Bool) : WorkerEnv := .succeeding (singles [if i then 97 else 98, newline])

/-- Their workers take turns up to their ends.  The second reply has both lines. -/
theorem run_serial_two_clients :
    ∃ actions s finished, (System.start loaded).run (charBuild .metaAesd)
        (aesdFops ⟨4096, by decide⟩) twoClients (List.replicate 30 [true, false]).flatten =
          .ok (actions, s) ∧
      RunsSerially ⟨4096, by decide⟩ twoClients actions s finished ∧
      (∀ i, (s.workers i).pc = .done) ∧ (s.workers true).reply = [97, newline] ∧
      (s.workers false).reply = [97, newline, 98, newline] := by
  obtain ⟨actions, s, finished, hrun, hserial⟩ :=
    @run_serial _ _ ⟨4096, by decide⟩ twoClients (fun _ => WorkerEnv.succeeds_succeeding _)
      (by decide) (List.replicate 30 [true, false]).flatten
  have hview : ((System.start loaded).run (charBuild .metaAesd) (aesdFops ⟨4096, by decide⟩)
      twoClients (List.replicate 30 [true, false]).flatten).toOption.map (fun r =>
        (decide (∀ i, (r.2.workers i).pc = .done), (r.2.workers true).reply,
          (r.2.workers false).reply)) =
        some (true, [97, newline], [97, newline, 98, newline]) := by
    decide +kernel
  obtain ⟨r, hrun', hend⟩ := exists_of_view hview
  obtain rfl := Except.ok.inj (hrun.symm.trans hrun')
  obtain ⟨hdone, hreplies⟩ := Prod.mk.inj hend
  obtain ⟨htrue, hfalse⟩ := Prod.mk.inj hreplies
  exact ⟨actions, s, finished, hrun, hserial, of_decide_eq_true hdone, htrue, hfalse⟩

end System

end AesdChar
