import AesdChar.Driver.Seek

/-!
# Runs of calls and the history they leave

`Ready` is the invariant of a driver between two calls.  `Ready.step` says
what one call does to the log: a write that returned its count adds its
payload, and every other call adds nothing.  `Ready.run` carries this to a
run of any length, so the state after a run is the cut of the payloads that
were accepted.

Reads are followed in the same way.  `Ready.reads` says that the data of a
row of reads on one file is one window of the content, however the counts
divide it.
-/

namespace AesdChar

open CodeLib CodeLib.CInt CodeLib.Ring

/-- The payload that an event added to the device, if it added one. -/
def Event.payload? (e : Event) : Option (List Byte) :=
  match e.call with
  | .write _ buf _ => if 0 ≤ e.ret then some buf else none
  | _ => none

/-- The payloads of the writes that succeeded, in order. -/
def payloads (events : List Event) : List (List Byte) := events.filterMap Event.payload?

/-- The bytes that a row of events delivered. -/
def delivered (events : List Event) : List Byte := (events.map Event.data).flatten

/-- The log after an event. -/
def CommandLog.after (log : CommandLog) (e : Event) : CommandLog := e.payload?.elim log log.write

/-- A driver between two calls. -/
structure Driver.Ready (kmalloc : Kmalloc) (s : Driver) (cmds : Slots) (log : CommandLog) :
    Prop where
  idle : Idle kmalloc s.k cmds log
  pos : ∀ file, IsSigned64 (s.filePos file)

variable {kmalloc : Kmalloc} {s : Driver} {k : KState} {cmds : Slots} {log : CommandLog}

theorem Driver.ready_loaded (kmalloc : Kmalloc) :
    Driver.loaded.Ready kmalloc (BoundedQueue.ofList _ []) .empty :=
  ⟨idle_loaded kmalloc, fun _ => isSigned64_zero⟩

/-! ## One call -/

/-- Moving one file to a position of 64 bits. -/
theorem Driver.isSigned64_after (hfiles : ∀ f, IsSigned64 (s.filePos f)) (file : Nat) {pos : Int}
    (hpos : IsSigned64 pos) (f : Nat) : IsSigned64 ((s.after file pos k).filePos f) := by
  unfold Driver.after
  by_cases hf : f = file
  · simpa [hf] using hpos
  · simpa [hf] using hfiles f

/-- A call that moves one file and keeps the log. -/
theorem Driver.Ready.after (h : s.Ready kmalloc cmds log) (file : Nat) {pos : Int}
    (hpos : IsSigned64 pos) {cmds' : Slots} {log' : CommandLog}
    (hidle : Idle kmalloc k cmds' log') : (s.after file pos k).Ready kmalloc cmds' log' :=
  ⟨hidle, Driver.isSigned64_after h.pos file hpos⟩

/-- A write that the kernel grants, as a call of a run. -/
theorem Driver.Ready.step_granted (h : s.Ready kmalloc cmds log) (file : Nat) {buf : List Byte}
    {env : WriteEnv} (hg : env.Grants kmalloc log.pending.length buf.length) :
    ∃ s' cmds', s.step kmalloc (.write file buf env) =
        .ok (⟨.write file buf env, buf.length, []⟩, s') ∧
      s'.Ready kmalloc cmds' (log.write buf) ∧
      ∀ f, f ≠ file → s'.filePos f = s.filePos f := by
  obtain ⟨k', cmds', hwrite, hidle⟩ := aesdWrite_granted h.idle hg (s.filePos file)
  refine ⟨_, cmds', ?_, h.after file (isSigned64_signed64 (s.filePos file + buf.length))
    hidle, fun f hf => Function.update_of_ne hf _ _⟩
  simp only [Driver.step, hwrite, ok_bind, pure_eq_ok, CallResult.filePos, Int.natCast_nonneg,
    if_true]

/-- A write that the kernel refuses, as a call of a run. -/
theorem Driver.Ready.step_refused (h : s.Ready kmalloc cmds log) (file : Nat) {buf : List Byte}
    {env : WriteEnv} (hg : ¬ env.Grants kmalloc log.pending.length buf.length) :
    ∃ ret s', s.step kmalloc (.write file buf env) =
        .ok (⟨.write file buf env, ret, []⟩, s') ∧ ret < 0 ∧
      s'.Ready kmalloc cmds log ∧ s'.filePos = s.filePos := by
  obtain ⟨ret, heap, hwrite, hret, hidle⟩ := aesdWrite_refused h.idle hg (s.filePos file)
  have hneg : ret < 0 := by
    rcases hret with rfl | rfl <;> decide
  refine ⟨ret, _, ?_, hneg, h.after file (h.pos file) hidle, Function.update_eq_self _ _⟩
  simp only [Driver.step, hwrite, ok_bind, pure_eq_ok, CallResult.filePos, Int.not_le.mpr hneg,
    if_false]

/-- What one call does to the log. -/
theorem Driver.Ready.step (h : s.Ready kmalloc cmds log) (call : Call) :
    ∃ e s' cmds', s.step kmalloc call = .ok (e, s') ∧ e.call = call ∧
      s'.Ready kmalloc cmds' (log.after e) := by
  cases call with
  | openFile file =>
    exact ⟨⟨.openFile file, 0, []⟩, _, cmds, rfl, rfl,
      h.after file isSigned64_zero h.idle⟩
  | read file count env =>
    obtain ⟨r, hread, hstate, hpos⟩ := aesdRead_state h.idle env [] count (h.pos file)
    have hidle := h.idle
    rw [← hstate] at hidle
    refine ⟨⟨.read file count env, r.ret, r.ubuf⟩, _, cmds, ?_, rfl, h.after file hpos hidle⟩
    simp only [Driver.step, hread, ok_bind, pure_eq_ok]
  | write file buf env =>
    by_cases hg : env.Grants kmalloc log.pending.length buf.length
    · obtain ⟨s', cmds', hstep, hready, -⟩ := h.step_granted file hg
      refine ⟨_, s', cmds', hstep, rfl, ?_⟩
      simpa [CommandLog.after, Event.payload?] using hready
    · obtain ⟨ret, s', hstep, hneg, hready, -⟩ := h.step_refused file hg
      refine ⟨_, s', cmds, hstep, rfl, ?_⟩
      simpa [CommandLog.after, Event.payload?, Int.not_le.mpr hneg] using hready
  | llseek file offset whence =>
    obtain ⟨r, hseek, hstate, hpos⟩ := aesdLlseek_state h.idle.unlocked whence (h.pos file)
      (isSigned64_toInt offset)
    have hidle := h.idle
    rw [← hstate] at hidle
    refine ⟨⟨.llseek file offset whence, r.ret, []⟩, _, cmds, ?_, rfl, h.after file hpos hidle⟩
    simp only [Driver.step, hseek, ok_bind, pure_eq_ok]
  | ioctl file uncopied cmd seekto =>
    obtain ⟨r, hioctl, hstate, hpos⟩ :=
      aesdUnlockedIoctl_state h.idle.unlocked uncopied cmd seekto (h.pos file)
    have hidle := h.idle
    rw [← hstate] at hidle
    refine ⟨⟨.ioctl file uncopied cmd seekto, r.ret, []⟩, _, cmds, ?_, rfl, h.after file hpos hidle⟩
    simp only [Driver.step, hioctl, ok_bind, pure_eq_ok]

/-! ## Runs -/

/-- A run takes its first call, then the others. -/
theorem Driver.run_cons {s₁ s₂ : Driver} {call : Call} {calls : List Call} {e : Event}
    {events : List Event} (hstep : s.step kmalloc call = .ok (e, s₁))
    (hrun : s₁.run kmalloc calls = .ok (events, s₂)) :
    s.run kmalloc (call :: calls) = .ok (e :: events, s₂) := by
  rw [Driver.run, hstep, ok_bind]
  simp only [hrun, ok_bind, pure_eq_ok]

/-- A run of one call. -/
theorem Driver.run_singleton {s' : Driver} {call : Call} {e : Event}
    (hstep : s.step kmalloc call = .ok (e, s')) : s.run kmalloc [call] = .ok ([e], s') :=
  Driver.run_cons hstep rfl

theorem payloads_append (es es' : List Event) :
    payloads (es ++ es') = payloads es ++ payloads es' := List.filterMap_append

/-- The first event writes first. -/
theorem payloads_cons_foldl (log : CommandLog) (e : Event) (events : List Event) :
    (payloads (e :: events)).foldl CommandLog.write log =
      (payloads events).foldl CommandLog.write (log.after e) := by
  unfold payloads CommandLog.after
  cases hp : e.payload? with
  | none =>
    rw [List.filterMap_cons_none hp]
    rfl
  | some w =>
    rw [List.filterMap_cons_some hp]
    rfl

/-- A run writes the payloads of its events on the log. -/
theorem Driver.Ready.run (h : s.Ready kmalloc cmds log) (calls : List Call) :
    ∃ events s' cmds', s.run kmalloc calls = .ok (events, s') ∧
      events.map Event.call = calls ∧
      s'.Ready kmalloc cmds' ((payloads events).foldl CommandLog.write log) := by
  induction calls generalizing s cmds log with
  | nil => exact ⟨[], s, cmds, rfl, rfl, h⟩
  | cons call calls ih =>
    obtain ⟨e, s₁, cmds₁, hstep, hcall, h₁⟩ := h.step call
    obtain ⟨events, s₂, cmds₂, hrun, hcalls, h₂⟩ := ih h₁
    refine ⟨e :: events, s₂, cmds₂, Driver.run_cons hstep hrun, ?_, ?_⟩
    · rw [List.map_cons, hcall, hcalls]
    · rwa [payloads_cons_foldl]

/-- Every run from the start succeeds, and its log can be read off the
payloads that were accepted. -/
theorem Driver.run_loaded (kmalloc : Kmalloc) (calls : List Call) :
    ∃ events s cmds, Driver.loaded.run kmalloc calls = .ok (events, s) ∧
      events.map Event.call = calls ∧ s.Ready kmalloc cmds (.ofWrites (payloads events)) :=
  (Driver.ready_loaded kmalloc).run calls

/-- The state that a given run from the start leaves. -/
theorem Driver.ready_of_run {calls : List Call} {events : List Event}
    (hrun : Driver.loaded.run kmalloc calls = .ok (events, s)) :
    ∃ cmds, s.Ready kmalloc cmds (.ofWrites (payloads events)) := by
  obtain ⟨events', s', cmds, hrun', -, hready⟩ := Driver.run_loaded kmalloc calls
  rw [hrun, Except.ok.injEq, Prod.mk.injEq] at hrun'
  obtain ⟨rfl, rfl⟩ := hrun'
  exact ⟨cmds, hready⟩

/-- A row of whole commands that the kernel grants. -/
theorem Driver.Ready.run_commands (h : s.Ready kmalloc cmds log) (file : Nat)
    (ws : List (List Byte)) (hpending : log.pending = [])
    (hws : ∀ w ∈ ws, newline ∈ w ∧ w.length ≤ kmalloc.maxSize) :
    ∃ events s' cmds', s.run kmalloc (ws.map fun w => .write file w .granting) =
        .ok (events, s') ∧ s'.Ready kmalloc cmds' (ws.foldl CommandLog.write log) := by
  induction ws generalizing s cmds log with
  | nil => exact ⟨[], s, cmds, rfl, h⟩
  | cons w ws ih =>
    obtain ⟨hmem, hle⟩ := hws w List.mem_cons_self
    have hg : WriteEnv.granting.Grants kmalloc log.pending.length w.length := by
      rw [hpending]
      refine ⟨Or.inr ⟨rfl, hle⟩, Nat.zero_min _, Or.inr ⟨rfl, ?_⟩⟩
      rwa [List.length_nil, Nat.zero_add]
    obtain ⟨s₁, cmds₁, hstep, h₁, -⟩ := h.step_granted file hg
    obtain ⟨events, s₂, cmds₂, hrun, h₂⟩ := ih h₁ (log.write_of_mem hmem).2
      fun w' hw' => hws w' (List.mem_cons_of_mem _ hw')
    exact ⟨_ :: events, s₂, cmds₂, Driver.run_cons hstep hrun, h₂⟩

/-! ## What a state holds -/

/-- The entries are the commands that are shown. -/
theorem Stores.commands_eq (h : Stores kmalloc k cmds log) : k.commands = .ok log.visible := by
  have hload : ∀ cs : List (Ptr × List Byte), (∀ c ∈ cs, c ∈ cmds.items) →
      loadEntries k.heap (cs.map entryOf) = .ok (cs.map Prod.snd) := by
    intro cs hcs
    induction cs with
    | nil => rfl
    | cons c cs ih =>
      have hmem := List.mem_cons_of_mem (cellOf (k.dev.bufferPartial, log.pending))
        (List.mem_map_of_mem (f := cellOf) (hcs c List.mem_cons_self))
      have hhead : k.heap.load (entryOf c).buffptr 0 (entryOf c).size = .ok c.2 :=
        h.owns.load_all hmem
      rw [List.map_cons, loadEntries, hhead, ih fun c' hc' => hcs c' (List.mem_cons_of_mem _ hc')]
      rfl
  rw [KState.commands, h.validEntries_eq, hload _ fun _ hc => hc, h.map_snd]

/-- The accumulator is the open command. -/
theorem Stores.pending_eq (h : Stores kmalloc k cmds log) : k.pending = .ok log.pending := by
  rw [KState.pending, h.size]
  exact h.owns.load_all List.mem_cons_self

/-! ## Rows of reads -/

/-- One read from a position that is not negative. -/
theorem Driver.Ready.step_read (h : s.Ready kmalloc cmds log) {file off : Nat}
    (hoff : s.filePos file = off) (count : Nat) (env : ReadEnv) :
    ∃ e s', s.step kmalloc (.read file count env) = .ok (e, s') ∧
      e.call = .read file count env ∧ s'.Ready kmalloc cmds log ∧
      ((∃ i, env.uncopied i ≠ 0) ∧ e.ret < 0 ∧ s'.filePos file = off ∨
        e.data = (log.content.drop off).take count ∧
        e.ret = ((log.content.drop off).take count).length ∧
        s' = s.after file (off + ((log.content.drop off).take count).length : Nat) s.k) := by
  have hlt : off < 2 ^ 63 := by
    have := (h.pos file).2
    rw [hoff] at this
    exact_mod_cast this
  obtain ⟨r, hread, hstate, hres⟩ := aesdRead_spec h.idle env [] count hlt
  obtain ⟨r', hread', -, hpos⟩ := aesdRead_state h.idle env [] count (h.pos file)
  rw [hoff, hread, Except.ok.injEq] at hread'
  subst hread'
  have hidle := h.idle
  rw [← hstate] at hidle
  have hstep : s.step kmalloc (.read file count env) = .ok (⟨.read file count env, r.ret, r.ubuf⟩,
      s.after file (r.filePos (s.filePos file)) r.state) := by
    simp only [Driver.step, hoff, hread, ok_bind, pure_eq_ok]
  refine ⟨_, _, hstep, rfl, h.after file hpos hidle, ?_⟩
  rcases hres with ⟨hfault, hret⟩ | ⟨hret, hfPos, hubuf⟩
  · have hneg : r.ret < 0 := by
      rw [hret]
      decide
    refine Or.inl ⟨hfault, hneg, ?_⟩
    rw [CallResult.filePos, if_neg (Int.not_le.mpr hneg), hoff]
    exact Function.update_self _ _ _
  · have hnonneg : 0 ≤ r.ret := by
      rw [hret]
      exact Int.natCast_nonneg _
    refine Or.inr ⟨by simpa using hubuf, hret, ?_⟩
    rw [CallResult.filePos, if_pos hnonneg, hfPos, hstate]

/-- A row of reads on one file, as calls. -/
def readCalls (file : Nat) (reads : List (Nat × ReadEnv)) : List Call :=
  reads.map fun r => .read file r.1 r.2

/-- A row of successful reads delivers one window of the content. -/
theorem Driver.Ready.reads (h : s.Ready kmalloc cmds log) {file off : Nat}
    (hoff : s.filePos file = off) (reads : List (Nat × ReadEnv)) :
    ∃ events s', s.run kmalloc (readCalls file reads) = .ok (events, s') ∧
      ((∀ r ∈ reads, ∀ i, r.2.uncopied i = 0) → ∀ e ∈ events, 0 ≤ e.ret) ∧
      ((∀ e ∈ events, 0 ≤ e.ret) →
        delivered events = (log.content.drop off).take (reads.map Prod.fst).sum) := by
  induction reads generalizing s off with
  | nil => exact ⟨[], s, rfl, by simp, by simp [delivered]⟩
  | cons r reads ih =>
    obtain ⟨e, s₁, hstep, -, h₁, hres⟩ := h.step_read hoff r.1 r.2
    rcases hres with ⟨⟨i, hi⟩, hneg, -⟩ | ⟨hdata, hret, rfl⟩
    · -- The user buffer could not be written: nothing is claimed from here on.
      obtain ⟨events, s₂, -, hrun, -, -⟩ := h₁.run (readCalls file reads)
      refine ⟨e :: events, s₂, Driver.run_cons hstep hrun, ?_, ?_⟩
      · intro hok
        exact absurd (hok r List.mem_cons_self i) hi
      · intro hok
        exact absurd (hok e List.mem_cons_self) (Int.not_le.mpr hneg)
    · obtain ⟨events, s₂, hrun, hok, hall⟩ := ih h₁ (Function.update_self _ _ _)
      refine ⟨e :: events, s₂, Driver.run_cons hstep hrun, ?_, ?_⟩
      · intro hfine e' he'
        rcases List.mem_cons.mp he' with rfl | he'
        · rw [hret]
          exact Int.natCast_nonneg _
        · exact hok (fun r' hr' => hfine r' (List.mem_cons_of_mem _ hr')) e' he'
      · intro hfine
        have hrest := hall fun e' he' => hfine e' (List.mem_cons_of_mem _ he')
        rw [delivered, List.map_cons, List.flatten_cons, ← delivered, hrest, hdata, drop_window,
          List.map_cons, List.sum_cons, List.take_add, List.drop_drop]

/-- The device after any run holds the cut of the payloads that were accepted:
the last ten closed groups are its entries, the open group is its accumulator,
and a reader that starts at position zero gets the entries and nothing else. -/
theorem run_holds_cut (kmalloc : Kmalloc) (calls : List Call) :
    ∃ events s, Driver.loaded.run kmalloc calls = .ok (events, s) ∧
      events.map Event.call = calls ∧
      let groups := cut hasNewline (payloads events)
      let entries := (groups.1.map List.flatten).rtake maxWriteOperations
      s.k.commands = .ok entries ∧ (∀ c ∈ entries, newline ∈ c) ∧
      s.k.pending = .ok groups.2.flatten ∧ newline ∉ groups.2.flatten ∧
      ∀ file reads, ∃ revents s',
        s.run kmalloc (.openFile file :: readCalls file reads) = .ok (revents, s') ∧
        ((∀ r ∈ reads, ∀ i, r.2.uncopied i = 0) → ∀ e ∈ revents, 0 ≤ e.ret) ∧
        ((∀ e ∈ revents, 0 ≤ e.ret) →
          delivered revents = entries.flatten.take (reads.map Prod.fst).sum) := by
  obtain ⟨events, s, cmds, hrun, hcalls, hready⟩ := Driver.run_loaded kmalloc calls
  obtain ⟨hclosed, hpending⟩ := CommandLog.ofWrites_eq_cut (payloads events)
  have hvisible : (CommandLog.ofWrites (payloads events)).visible =
      ((cut hasNewline (payloads events)).1.map List.flatten).rtake maxWriteOperations := by
    rw [CommandLog.visible, hclosed]
  refine ⟨events, s, hrun, hcalls, ?_, ?_, ?_, ?_, ?_⟩
  · rw [hready.idle.commands_eq, hvisible]
  · intro c hc
    rw [← hvisible] at hc
    exact CommandLog.newline_mem _ c (List.mem_of_mem_drop hc)
  · rw [hready.idle.pending_eq, hpending]
  · rw [← hpending]
    exact CommandLog.newline_notMem _
  · intro file reads
    have hopen : (s.after file 0 s.k).Ready kmalloc cmds (.ofWrites (payloads events)) :=
      hready.after file isSigned64_zero hready.idle
    have hzero : (s.after file 0 s.k).filePos file = (0 : Nat) := Function.update_self _ _ _
    obtain ⟨revents, s', hrun', hok, hall⟩ := hopen.reads hzero reads
    refine ⟨⟨.openFile file, 0, []⟩ :: revents, s', Driver.run_cons rfl hrun', ?_, ?_⟩
    · intro hfine e he
      rcases List.mem_cons.mp he with rfl | he
      · exact Int.le_refl 0
      · exact hok hfine e he
    · intro hfine
      have hdata := hall fun e he => hfine e (List.mem_cons_of_mem _ he)
      rw [List.drop_zero, CommandLog.content, hvisible] at hdata
      rw [← hdata]
      rfl

end AesdChar
