import AesdChar.Driver.InitModule

/-!
# Nothing is lost while the module starts

A step is safe if no call arrives at the lock before `mutex_init` has returned,
and if the last `memset` of `aesd_init_module` finds zero bytes.
`Startup.Inv` is what a run keeps as long as its steps are safe: the log is
stored, or it is as soon as the write in flight has put its entry into the
buffer.  `startup_keeps_writes` is the result: in a run of safe steps nothing
is lost.
-/

namespace AesdChar

open CodeLib CodeLib.CInt CodeLib.Ring

/-! ## Safe steps -/

/-- A step that is safe: no call arrives at the lock before `mutex_init` has
returned, and the `memset` of `aesd_circular_buffer_init` finds zero bytes. -/
def Startup.SafeStep (s : Startup) : StartupAct → Prop
  | .init _ => True
  | .clear field =>
    match s.pc with
    | .circularBufferInit left => field ∈ left → s.driver.k.dev.buffer.IsZero field
    | _ => True
  | .enter call => s.published = true → call.takesLock = true → s.pc.lockReady = true
  | .goOn => True

instance (s : Startup) (act : StartupAct) : Decidable (s.SafeStep act) := by
  unfold Startup.SafeStep
  split
  · infer_instance
  · split <;> infer_instance
  · infer_instance
  · infer_instance

/-- A run of safe steps. -/
def Startup.SafeRun (kmalloc : Kmalloc) : Startup → List StartupAct → Prop
  | _, [] => True
  | s, act :: acts => s.SafeStep act ∧
    match s.step kmalloc act with
    | .ok (_, s) => s.SafeRun kmalloc acts
    | .error _ => True

instance decidableSafeRun (kmalloc : Kmalloc) :
    (s : Startup) → (acts : List StartupAct) → Decidable (s.SafeRun kmalloc acts)
  | _, [] => inferInstanceAs (Decidable True)
  | s, act :: acts =>
    match h : s.step kmalloc act with
    | .ok (_, s') =>
      have := decidableSafeRun kmalloc s' acts
      decidable_of_iff (s.SafeStep act ∧ s'.SafeRun kmalloc acts) (by rw [Startup.SafeRun, h])
    | .error _ => decidable_of_iff (s.SafeStep act ∧ True) (by rw [Startup.SafeRun, h])

/-- Nothing of the log is lost: the buffer holds its last ten commands, and the
live blocks are those that the device owns. -/
structure Startup.NothingLost (s : Startup) (log : CommandLog) : Prop where
  commands : s.driver.k.commands = .ok log.visible
  owned : (s.driver.k.heap.liveAddrs.map Ptr.block).Perm (s.driver.k.dev.owned.map Prod.fst)

/-- The call that holds the lock returns if it is left alone, and then nothing
is lost. -/
def Startup.Keeps (kmalloc : Kmalloc) (s : Startup) (log : CommandLog) : Prop :=
  ∃ n events s', s.run kmalloc (List.replicate n .goOn) = .ok (events, s') ∧
    s'.inFlight = none ∧ s'.NothingLost ((payloads events).foldl CommandLog.write log)

/-- With no call in flight there is nothing to wait for. -/
theorem Startup.keeps_iff (kmalloc : Kmalloc) {s : Startup} (hidle : s.inFlight = none)
    (log : CommandLog) : s.Keeps kmalloc log ↔ s.NothingLost log := by
  have hstay : s.step kmalloc .goOn = .ok (none, s) := by
    simp only [Startup.step, hidle]
  have hrun : ∀ n, s.run kmalloc (List.replicate n .goOn) = .ok ([], s) := by
    intro n
    induction n with
    | zero => rfl
    | succ n ih =>
      rw [List.replicate_succ, Startup.run, hstay, ok_bind]
      simp only [ih, ok_bind, pure_eq_ok, Option.toList_none, List.append_nil]
  constructor
  · rintro ⟨n, events, s', h, -, hkept⟩
    obtain ⟨rfl, rfl⟩ := Prod.mk.inj (Except.ok.inj ((hrun n).symm.trans h))
    exact hkept
  · intro hkept
    exact ⟨0, [], s, rfl, hidle, hkept⟩

/-- What the lock is. -/
def Startup.lock (s : Startup) : Mutex :=
  if s.pc.lockReady = false then .zeroed
  else if s.inFlight.isSome then .locked
  else .unlocked

/-- The log is stored.  A command on its way into the buffer is stored when the
rest of `aesd_write` is done. -/
def Flight.Stores (kmalloc : Kmalloc) (k : KState) (cmds : Slots) (log : CommandLog) :
    Option Flight → Prop
  | none | some (.entered _) => AesdChar.Stores kmalloc k cmds log
  | some (.adding file buf env e pc) =>
    ∃ k', finalizeRest e pc k = .ok k' ∧
      AesdChar.Stores kmalloc k' cmds (log.after ⟨.write file buf env, signed64 buf.length, []⟩)

/-- The state between two steps.  Until `mutex_init` has returned no call has
got further than the lock. -/
structure Startup.Inv (kmalloc : Kmalloc) (s : Startup) (cmds : Slots) (log : CommandLog) :
    Prop where
  stores : Flight.Stores kmalloc s.driver.k cmds log s.inFlight
  pos : ∀ file, IsSigned64 (s.driver.filePos file)
  static : s.pc = .memset → s.driver.k = .static
  unpublished : s.pc = .memset ∨ s.pc = .setupCdev → s.published = false
  early : s.pc.lockReady = false → s.inFlight = none
  lock : s.driver.k.dev.lock = s.lock

section Steps

variable {kmalloc : Kmalloc} {s : Startup} {cmds : Slots} {log : CommandLog}

/-! ## The invariant -/

/-- Nothing is lost where the log is stored. -/
theorem Startup.nothingLost_of_stores (h : Stores kmalloc s.driver.k cmds log) :
    s.NothingLost log :=
  ⟨h.commands_eq, h.perm_owned⟩

/-- The events of a step that ended at most one call. -/
theorem payloads_one_foldl (log : CommandLog) (e : Event) :
    (payloads [e]).foldl CommandLog.write log = log.after e :=
  payloads_cons_foldl log e []

/-- While a call holds the lock, the lock is ready. -/
theorem Startup.Inv.lockReady (h : s.Inv kmalloc cmds log) {flight : Flight}
    (hflight : s.inFlight = some flight) : s.pc.lockReady = true := by
  by_contra hnot
  have hnone := h.early (by simpa using hnot)
  rw [hflight] at hnone
  cases hnone

/-- A call that is in flight has the lock. -/
theorem Startup.Inv.locked (h : s.Inv kmalloc cmds log) {flight : Flight}
    (hflight : s.inFlight = some flight) : s.driver.k.dev.lock = .locked := by
  rw [h.lock, Startup.lock, h.lockReady hflight, hflight]
  rfl

/-- With the lock lifted, the call that has taken it starts between two calls. -/
theorem Startup.Inv.ready (h : s.Inv kmalloc cmds log) {call : Call}
    (hflight : s.inFlight = some (.entered call)) :
    (s.driver.withLock .unlocked).Ready kmalloc cmds log := by
  have hstores := h.stores
  rw [hflight] at hstores
  exact ⟨⟨Stores.of_lock hstores .unlocked, rfl⟩, h.pos⟩

/-- What is left of a write on its way into the buffer, and how it returns. -/
theorem Startup.Inv.adding (h : s.Inv kmalloc cmds log) {file : Nat} {buf : List Byte}
    {env : WriteEnv} {e : AesdBufferEntry} {pc : AddEntryPc}
    (hflight : s.inFlight = some (.adding file buf env e pc)) :
    ∃ k' r, finalizeRest e pc s.driver.k = .ok k' ∧
      s.driver.returnWrite file buf env (signed64 buf.length)
        (signed64 (s.driver.filePos file + buf.length)) k' = .ok r ∧
      r.2.Ready kmalloc cmds (log.after r.1) := by
  have hstores := h.stores
  rw [hflight] at hstores
  obtain ⟨k', hrest, hstores⟩ := hstores
  have hlock := (finalizeRest_lock hrest).trans (h.locked hflight)
  refine ⟨k', _, hrest, s.driver.returnWrite_of_locked hlock file buf env _ _, ?_⟩
  refine ⟨⟨hstores.of_lock .unlocked, rfl⟩, Driver.isSigned64_after h.pos file ?_⟩
  split_ifs
  · exact isSigned64_signed64 _
  · exact h.pos file

/-- Nothing is lost in a state between two steps. -/
theorem Startup.Inv.keeps (h : s.Inv kmalloc cmds log) : s.Keeps kmalloc log := by
  cases hflight : s.inFlight with
  | none =>
    have hstores := h.stores
    rw [hflight] at hstores
    exact ⟨0, [], s, rfl, hflight, Startup.nothingLost_of_stores hstores⟩
  | some flight =>
    cases flight with
    | entered call =>
      obtain ⟨e, d', cmds', hstep, -, hready⟩ := (h.ready hflight).step call
      obtain ⟨n, hrun⟩ := Startup.run_entered hflight (h.locked hflight) hstep
      refine ⟨n, _, _, hrun, rfl, ?_⟩
      rw [payloads_one_foldl]
      exact Startup.nothingLost_of_stores hready.idle.toStores
    | adding file buf env e pc =>
      obtain ⟨k', r, hrest, hreturn, hready⟩ := h.adding hflight
      obtain ⟨n, hrun⟩ := Startup.run_adding hflight hrest hreturn
      refine ⟨n, _, _, hrun, rfl, ?_⟩
      rw [payloads_one_foldl]
      exact Startup.nothingLost_of_stores hready.idle.toStores

/-- Once the lock is ready nothing is left of the earlier phases. -/
theorem Startup.Inv.of_lockReady (hready : s.pc.lockReady = true)
    (hstores : Flight.Stores kmalloc s.driver.k cmds log s.inFlight)
    (hpos : ∀ file, IsSigned64 (s.driver.filePos file))
    (hlock : s.driver.k.dev.lock = if s.inFlight.isSome then .locked else .unlocked) :
    s.Inv kmalloc cmds log where
  stores := hstores
  pos := hpos
  static := by
    intro hpc
    rw [hpc] at hready
    cases hready
  unpublished := by
    intro hpc
    rcases hpc with hpc | hpc
    · rw [hpc] at hready
      cases hready
    · rw [hpc] at hready
      cases hready
  early := by
    intro hnot
    rw [hready] at hnot
    cases hnot
  lock := by
    rw [hlock, Startup.lock, hready]
    rfl

/-! ## The steps of `aesd_init_module` -/

/-- A step of `aesd_init_module` keeps the log. -/
theorem Startup.Inv.initStep (h : s.Inv kmalloc cmds log) (cdevAddOk : Bool) :
    (s.initStep cdevAddOk).Inv kmalloc cmds log := by
  have hlock := h.lock
  unfold Startup.initStep
  unfold Startup.lock at hlock
  match hpc : s.pc with
  | .memset =>
    have hflight := h.early (by rw [hpc]; rfl)
    have hk : s.driver.k.memsetDevice = s.driver.k := by
      rw [h.static hpc]
      rfl
    dsimp only
    rw [hk]
    exact ⟨h.stores, h.pos, by simp, fun _ => h.unpublished (Or.inl hpc), fun _ => hflight, by
      rw [hlock, hpc]; rfl⟩
  | .setupCdev =>
    have hflight := h.early (by rw [hpc]; rfl)
    exact ⟨h.stores, h.pos, by simp, by simp, fun _ => hflight, by rw [hlock, hpc]; rfl⟩
  | .mutexInit =>
    have hflight := h.early (by rw [hpc]; rfl)
    exact ⟨h.stores, h.pos, by simp, by simp, fun _ => hflight, by rw [hlock, hpc]; rfl⟩
  | .mutexIniting =>
    have hflight := h.early (by rw [hpc]; rfl)
    have hstores := h.stores
    rw [hflight] at hstores
    refine .of_lockReady rfl ?_ h.pos ?_
    · rw [hflight]
      exact Stores.of_lock hstores .unlocked
    · rw [hflight]
      rfl
  | .circularBufferInit [] =>
    rw [hpc] at hlock
    exact .of_lockReady rfl h.stores h.pos hlock
  | .circularBufferInit (_ :: _) => exact h
  | .returned => exact h

/-- A store of zero bytes over zero bytes keeps the log. -/
theorem Startup.Inv.clearStep (h : s.Inv kmalloc cmds log) {field : BufferField}
    (hsafe : s.SafeStep (.clear field)) : (s.clearStep field).Inv kmalloc cmds log := by
  unfold Startup.clearStep
  split
  · rename_i left hpc
    split_ifs with hmem
    · have hsame : s.driver.withBuffer (s.driver.k.dev.buffer.clear field) = s.driver := by
        simp only [Startup.SafeStep, hpc] at hsafe
        rw [AesdCircularBuffer.clear_of_isZero (hsafe hmem)]
        rfl
      have hlock := h.lock
      unfold Startup.lock at hlock
      rw [hpc] at hlock
      rw [hsame]
      exact .of_lockReady rfl h.stores h.pos hlock
    · exact h
  · exact h

/-! ## The steps of a call -/

/-- A call that arrives is over at once, waits, or holds the lock. -/
theorem Startup.Inv.enter (h : s.Inv kmalloc cmds log) (call : Call)
    (hsafe : s.SafeStep (.enter call)) :
    ∃ e s', s.step kmalloc (.enter call) = .ok (e, s') ∧
      s'.Inv kmalloc cmds ((payloads e.toList).foldl CommandLog.write log) := by
  unfold Startup.step
  dsimp only
  by_cases hpub : s.published = false
  · rw [if_pos hpub]
    exact ⟨none, s, rfl, h⟩
  rw [if_neg hpub]
  by_cases hcall : call.takesLock = false
  · obtain ⟨e, d', hstep, hpayload, hk, hpos⟩ :=
      Driver.step_of_not_takesLock kmalloc hcall h.pos
    have hlog : (payloads (some e).toList).foldl CommandLog.write log = log := by
      rw [Option.toList_some, payloads_one_foldl, CommandLog.after, hpayload]
      rfl
    rw [if_pos hcall, hstep]
    refine ⟨some e, { s with driver := d' }, rfl, ?_⟩
    rw [hlog]
    constructor
    · exact hk ▸ h.stores
    · exact hpos
    · exact hk ▸ h.static
    · exact h.unpublished
    · exact h.early
    · exact hk ▸ h.lock
  · rw [if_neg hcall]
    have hready := hsafe (by simpa using hpub) (by simpa using hcall)
    have hlock := h.lock
    unfold Startup.lock at hlock
    rw [hready, if_neg Bool.true_eq_false.mp] at hlock
    cases hflight : s.inFlight with
    | some flight =>
      rw [h.locked hflight]
      exact ⟨none, s, rfl, h⟩
    | none =>
      have hstores := h.stores
      rw [hflight] at hlock hstores
      rw [hlock]
      exact ⟨none, _, rfl, .of_lockReady hready (Stores.of_lock hstores .locked) h.pos rfl⟩

/-- The state when a call has returned. -/
theorem Startup.Inv.ended (hready : s.pc.lockReady = true) {r : Event × Driver} {cmds' : Slots}
    (hr : r.2.Ready kmalloc cmds' (log.after r.1)) :
    (s.ended r).2.Inv kmalloc cmds'
      ((payloads (s.ended r).1.toList).foldl CommandLog.write log) := by
  unfold Startup.ended
  rw [Option.toList_some, payloads_one_foldl]
  exact .of_lockReady hready hr.idle.toStores hr.pos hr.idle.unlocked

/-- A write that has the lock returns, or its entry is on its way. -/
theorem Startup.Inv.writeStep (h : s.Inv kmalloc cmds log) {file : Nat} {buf : List Byte}
    {env : WriteEnv} (hflight : s.inFlight = some (.entered (.write file buf env))) :
    ∃ e s' cmds', s.writeStep kmalloc file buf env = .ok (e, s') ∧
      s'.Inv kmalloc cmds' ((payloads e.toList).foldl CommandLog.write log) := by
  obtain ⟨e, d', cmds', hstep, -, hready⟩ := (h.ready hflight).step (.write file buf env)
  have hlock := h.locked hflight
  rcases Startup.writeStep_cases hlock hstep with hwrite | ⟨k, entry, k', hwrite, hrest, hreturn⟩
  · exact ⟨_, _, cmds', hwrite, Startup.Inv.ended (h.lockReady hflight) hready⟩
  · obtain ⟨hlock', he, hd⟩ := Driver.returnWrite_eq_ok hreturn
    have hstores := hready.idle.toStores.of_lock .locked
    have hk : { d'.k with dev := { d'.k.dev with lock := .locked } } = k' := by
      rw [show d'.k = _ from hd, ← hlock']
    rw [hk, show e = _ from he] at hstores
    exact ⟨_, _, cmds', hwrite, .of_lockReady (h.lockReady hflight) ⟨k', hrest, hstores⟩ h.pos
      ((finalizeRest_lock hrest).symm.trans hlock')⟩

/-- The call that holds the lock goes on. -/
theorem Startup.Inv.goOn (h : s.Inv kmalloc cmds log) :
    ∃ e s' cmds', s.step kmalloc .goOn = .ok (e, s') ∧
      s'.Inv kmalloc cmds' ((payloads e.toList).foldl CommandLog.write log) := by
  cases hflight : s.inFlight with
  | none =>
    refine ⟨none, s, cmds, ?_, h⟩
    simp only [Startup.step, hflight]
  | some flight =>
    cases flight with
    | entered call =>
      obtain ⟨e, d', cmds', hstep, -, hready⟩ := (h.ready hflight).step call
      cases call with
      | write file buf env =>
        obtain ⟨e, s', cmds', hwrite, h'⟩ := h.writeStep hflight
        refine ⟨e, s', cmds', ?_, h'⟩
        simp only [Startup.step, hflight, hwrite]
      | _ =>
        refine ⟨_, _, cmds', ?_, Startup.Inv.ended (r := (e, d')) (h.lockReady hflight) hready⟩
        simp only [Startup.step, hflight, hstep]
        rfl
    | adding file buf env e pc =>
      have hgo : s.step kmalloc .goOn = s.addStep file buf env e pc := by
        simp only [Startup.step, hflight]
      rw [hgo]
      by_cases hpc : pc.left = 0
      · obtain ⟨k', r, hrest, hreturn, hready⟩ := h.adding hflight
        exact ⟨_, _, cmds, Startup.addStep_returned hpc hrest hreturn,
          Startup.Inv.ended (h.lockReady hflight) hready⟩
      · obtain ⟨pc', buffer, hadd, -, hsame⟩ := s.addStep_buffer file buf env e hpc
        have hstores := h.stores
        rw [hflight] at hstores
        obtain ⟨k', hrest, hstores⟩ := hstores
        exact ⟨none, _, cmds, hadd, .of_lockReady (h.lockReady hflight)
          ⟨k', hsame.trans hrest, hstores⟩ h.pos (h.locked hflight)⟩

/-! ## Any step -/

/-- A safe step keeps the log, and a write that ends in it is added. -/
theorem Startup.Inv.step (h : s.Inv kmalloc cmds log) {act : StartupAct} (hsafe : s.SafeStep act) :
    ∃ e s' cmds', s.step kmalloc act = .ok (e, s') ∧
      s'.Inv kmalloc cmds' ((payloads e.toList).foldl CommandLog.write log) := by
  cases act with
  | init cdevAddOk => exact ⟨none, _, cmds, rfl, h.initStep cdevAddOk⟩
  | clear field => exact ⟨none, _, cmds, rfl, h.clearStep hsafe⟩
  | enter call =>
    obtain ⟨e, s', hstep, h'⟩ := h.enter call hsafe
    exact ⟨e, s', cmds, hstep, h'⟩
  | goOn => exact h.goOn

/-- A call that comes too early takes a lock that is not initialised. -/
theorem Startup.Inv.enter_early (h : s.Inv kmalloc cmds log) {call : Call}
    (hwrong : ¬ s.SafeStep (.enter call)) : s.step kmalloc (.enter call) = .error .lock := by
  obtain ⟨hpub, hcall, hnot⟩ : s.published = true ∧ call.takesLock = true ∧
      s.pc.lockReady ≠ true := by
    simpa only [Startup.SafeStep, not_forall, exists_prop] using hwrong
  have hlock : s.driver.k.dev.lock = .zeroed := by
    rw [h.lock, Startup.lock, if_pos (by simpa using hnot)]
  unfold Startup.step
  dsimp only
  rw [if_neg (by simp [hpub]), if_neg (by simp [hcall]), hlock]

/-- A row of entries that can be read has no null pointer with a size. -/
theorem loadEntries_size {heap : Heap Byte} {entries : List AesdBufferEntry}
    {contents : List (List Byte)} (h : loadEntries heap entries = .ok contents)
    {e : AesdBufferEntry} (he : e ∈ entries) (hnull : e.buffptr = .null) : e.size = 0 := by
  induction entries generalizing contents with
  | nil => cases he
  | cons e' entries ih =>
    obtain ⟨bytes, hload, hrest⟩ := bind_eq_ok h
    obtain ⟨rest, hloads, -⟩ := bind_eq_ok hrest
    rcases List.mem_cons.mp he with rfl | he
    · by_contra hsize
      have hbad : heap.load .null 0 e.size = .error .badAccess := if_neg hsize
      rw [hnull, hbad] at hload
      cases hload
    · exact ih hloads he

/-- The pointer of a command is cleared while no call is in flight. -/
theorem Startup.Inv.clear_lost (h : s.Inv kmalloc cmds log) (hidle : s.inFlight = none) {i : Nat}
    (hwrong : ¬ s.SafeStep (.clear (.buffptr i))) :
    ¬ (s.clearStep (.buffptr i)).Keeps kmalloc log := by
  obtain ⟨left, hpc, hmem, hne⟩ : ∃ left, s.pc = .circularBufferInit left ∧
      .buffptr i ∈ left ∧ (s.driver.k.dev.buffer.slot i).buffptr ≠ .null := by
    unfold Startup.SafeStep at hwrong
    dsimp only at hwrong
    split at hwrong
    · rename_i left hpc
      exact ⟨left, hpc, Classical.not_imp.mp hwrong⟩
    · exact absurd trivial hwrong
  have hclear : s.clearStep (.buffptr i) = { s with
      pc := .circularBufferInit (left.erase (.buffptr i))
      driver := s.driver.withBuffer (s.driver.k.dev.buffer.clear (.buffptr i)) } := by
    simp only [Startup.clearStep, hpc, hmem, if_true]
  have hstores : Stores kmalloc s.driver.k cmds log := by
    have hstores := h.stores
    rwa [hidle] at hstores
  obtain ⟨e, he, hnull⟩ := hstores.ring.clear_buffptr hne
  -- The entry belongs to a command, and no command is empty.
  rw [BoundedQueue.items_map] at he
  obtain ⟨c, hc, rfl⟩ := List.mem_map.mp he
  have hvisible : c.2 ∈ log.visible := by
    rw [← hstores.map_snd]
    exact List.mem_map_of_mem hc
  rw [hclear]
  intro hkeeps
  have hkept := (Startup.keeps_iff kmalloc (by exact hidle) log).mp hkeeps
  have hsize := loadEntries_size hkept.commands hnull rfl
  exact log.ne_nil_of_visible _ hvisible (List.length_eq_zero_iff.mp hsize)

/-! ## Runs -/

/-- A run of safe steps ends without a fault and keeps the log. -/
theorem Startup.Inv.run (h : s.Inv kmalloc cmds log) {acts : List StartupAct}
    (hsafe : s.SafeRun kmalloc acts) :
    ∃ events s' cmds', s.run kmalloc acts = .ok (events, s') ∧
      s'.Inv kmalloc cmds' ((payloads events).foldl CommandLog.write log) := by
  induction acts generalizing s cmds log with
  | nil => exact ⟨[], s, cmds, rfl, h⟩
  | cons act acts ih =>
    obtain ⟨hact, hacts⟩ := hsafe
    obtain ⟨e, s₁, cmds₁, hstep, h₁⟩ := h.step hact
    simp only [hstep] at hacts
    obtain ⟨events, s₂, cmds₂, hrun, h₂⟩ := ih h₁ hacts
    refine ⟨e.toList ++ events, s₂, cmds₂, ?_, ?_⟩
    · rw [Startup.run, hstep, ok_bind]
      simp only [hrun, ok_bind, pure_eq_ok]
    · rw [payloads_append, List.foldl_append]
      exact h₂

/-- The first steps of a safe run are a safe run. -/
theorem Startup.SafeRun.of_prefix {acts before : List StartupAct} (h : s.SafeRun kmalloc acts)
    (hbefore : before <+: acts) : s.SafeRun kmalloc before := by
  induction acts generalizing s before with
  | nil =>
    rw [List.prefix_nil.mp hbefore]
    trivial
  | cons act acts ih =>
    cases before with
    | nil => trivial
    | cons act' before =>
      obtain ⟨rfl, htail⟩ := List.cons_prefix_cons.mp hbefore
      obtain ⟨hact, hacts⟩ := h
      refine ⟨hact, ?_⟩
      cases hstep : s.step kmalloc act' with
      | error _ => trivial
      | ok r =>
        simp only [hstep] at hacts
        exact ih hacts htail

end Steps

/-- The module before it starts. -/
theorem Startup.inv_start (kmalloc : Kmalloc) :
    Startup.start.Inv kmalloc (BoundedQueue.ofList _ []) .empty where
  stores := (stores_loaded kmalloc).of_lock .zeroed
  pos := fun _ => isSigned64_zero
  static := fun _ => rfl
  unpublished := fun _ => rfl
  early := fun _ => rfl
  lock := rfl

/-- However the steps of `aesd_init_module`, the stores of its last `memset`
and the steps of the calls of users follow each other: as long as no call
arrives at the lock before `mutex_init` has returned and the `memset` finds
zero bytes, no step takes a lock that is not initialised, and at any time the
call in flight returns if it is left alone, and then the buffer holds the last
ten commands that were finished by a write that succeeded and owns their
blocks.

Where the next step is not of this kind, a call takes a lock that is not
initialised.  A store over the pointer of a command, while no call is in
flight, loses the command at once. -/
theorem startup_keeps_writes (kmalloc : Kmalloc) (acts : List StartupAct)
    (hsafe : Startup.start.SafeRun kmalloc acts) :
    (∀ before, before <+: acts →
      ∃ events s, Startup.start.run kmalloc before = .ok (events, s) ∧
        s.Keeps kmalloc (.ofWrites (payloads events))) ∧
    ∀ events s, Startup.start.run kmalloc acts = .ok (events, s) →
      (∀ call, ¬ s.SafeStep (.enter call) → s.step kmalloc (.enter call) = .error .lock) ∧
      (∀ i, s.inFlight = none → ¬ s.SafeStep (.clear (.buffptr i)) →
        ¬ (s.clearStep (.buffptr i)).Keeps kmalloc (.ofWrites (payloads events))) := by
  have hinv := Startup.inv_start kmalloc
  refine ⟨fun before hbefore => ?_, fun events s hrun => ?_⟩
  · obtain ⟨events, s, cmds, hrun, h⟩ := hinv.run (hsafe.of_prefix hbefore)
    exact ⟨events, s, hrun, h.keeps⟩
  · obtain ⟨events', s', cmds, hrun', h⟩ := hinv.run hsafe
    obtain ⟨rfl, rfl⟩ := Prod.mk.inj (Except.ok.inj (hrun.symm.trans hrun'))
    exact ⟨fun call => h.enter_early, fun i hidle => h.clear_lost hidle⟩

/-- A write takes the lock, the `memset` falls between its steps and finds
zero bytes everywhere, and the write goes on. -/
theorem startup_keeps_writes_around_memset :
    let acts : List StartupAct :=
      List.replicate 4 (.init true) ++ .enter (.write 0 [97, newline] .granting) ::
        List.replicate 2 .goOn ++ AesdCircularBuffer.fields.map .clear ++ [.init true] ++
        List.replicate 6 .goOn
    ∃ events s, Startup.start.run ⟨4096, by decide⟩ acts = .ok (events, s) ∧
      s.Keeps ⟨4096, by decide⟩ (.ofWrites (payloads events)) := by
  intro acts
  exact (startup_keeps_writes ⟨4096, by decide⟩ acts (by decide +kernel)).1 acts List.prefix_rfl

/-- A write between `mutex_init` and `aesd_circular_buffer_init` returns its
count, and its command is gone and its block is lost.  So it is when the
`memset` falls between the stores of the write: here behind the store of
`in_offs`, and the write leaves a full buffer of empty entries.  A write right
after `cdev_add` takes a lock that is not initialised. -/
theorem startup_loses_write :
    let write : Call := .write 0 [97, newline] .granting
    let locked : List StartupAct := List.replicate 4 (.init true) ++ [.enter write]
    let memset : List StartupAct := AesdCircularBuffer.fields.map .clear ++ [.init true]
    (∃ events s,
      Startup.start.run ⟨4096, by decide⟩ (locked ++ List.replicate 8 .goOn ++ memset) =
        .ok (events, s) ∧
      events.map Event.ret = [2] ∧
      (CommandLog.ofWrites (payloads events)).visible = [[97, newline]] ∧
      s.driver.k.commands = .ok [] ∧ s.driver.k.dev.owned.length = 0 ∧
      s.driver.k.heap.liveAddrs.length = 1 ∧
      ¬ s.Keeps ⟨4096, by decide⟩ (.ofWrites (payloads events))) ∧
    (∃ events s,
      Startup.start.run ⟨4096, by decide⟩
          (locked ++ List.replicate 5 .goOn ++ memset ++ List.replicate 3 .goOn) =
        .ok (events, s) ∧
      events.map Event.ret = [2] ∧
      (CommandLog.ofWrites (payloads events)).visible = [[97, newline]] ∧
      s.driver.k.commands = .ok (List.replicate 10 []) ∧
      s.driver.k.heap.liveAddrs.length = 1 ∧
      ¬ s.Keeps ⟨4096, by decide⟩ (.ofWrites (payloads events))) ∧
    Startup.start.run ⟨4096, by decide⟩ [.init true, .init true, .enter write] = .error .lock := by
  intro write locked memset
  have hlost : ∀ {s : Startup} {log : CommandLog} {found : List (List Byte)},
      s.inFlight.isSome = false → s.driver.k.commands = .ok found → found ≠ log.visible →
      ¬ s.Keeps ⟨4096, by decide⟩ log := by
    intro s log found hidle hcommands hne hkeeps
    have hnone : s.inFlight = none := by simpa using hidle
    have hkept := (Startup.keeps_iff _ hnone log).mp hkeeps
    exact hne (Except.ok.inj (hcommands.symm.trans hkept.commands))
  refine ⟨?_, ?_, rfl⟩
  · have hview : (Startup.start.run ⟨4096, by decide⟩
        (locked ++ List.replicate 8 .goOn ++ memset)).toOption.map
        (fun r => ((r.1.map Event.ret, (CommandLog.ofWrites (payloads r.1)).visible),
          r.2.driver.k.commands,
          [r.2.driver.k.dev.owned.length, r.2.driver.k.heap.liveAddrs.length],
          r.2.inFlight.isSome)) =
        some (([2], [[97, newline]]), .ok [], [0, 1], false) := by decide +kernel
    obtain ⟨⟨events, s⟩, hrun, hview⟩ := exists_of_view hview
    obtain ⟨hevents, hview⟩ := Prod.mk.inj hview
    obtain ⟨hret, hvisible⟩ := Prod.mk.inj hevents
    obtain ⟨hcommands, hview⟩ := Prod.mk.inj hview
    obtain ⟨hblocks, hidle⟩ := Prod.mk.inj hview
    obtain ⟨howned, hblocks⟩ := List.cons.inj hblocks
    obtain ⟨hlive, -⟩ := List.cons.inj hblocks
    refine ⟨events, s, hrun, hret, hvisible, hcommands, howned, hlive, hlost hidle hcommands ?_⟩
    rw [hvisible]
    decide
  · have hview : (Startup.start.run ⟨4096, by decide⟩
        (locked ++ List.replicate 5 .goOn ++ memset ++ List.replicate 3 .goOn)).toOption.map
        (fun r => ((r.1.map Event.ret, (CommandLog.ofWrites (payloads r.1)).visible),
          r.2.driver.k.commands, r.2.driver.k.heap.liveAddrs.length, r.2.inFlight.isSome)) =
        some (([2], [[97, newline]]), .ok (List.replicate 10 []), 1, false) := by decide +kernel
    obtain ⟨⟨events, s⟩, hrun, hview⟩ := exists_of_view hview
    obtain ⟨hevents, hview⟩ := Prod.mk.inj hview
    obtain ⟨hret, hvisible⟩ := Prod.mk.inj hevents
    obtain ⟨hcommands, hview⟩ := Prod.mk.inj hview
    obtain ⟨hlive, hidle⟩ := Prod.mk.inj hview
    refine ⟨events, s, hrun, hret, hvisible, hcommands, hlive, hlost hidle hcommands ?_⟩
    rw [hvisible]
    decide

end AesdChar
