import AesdChar.Driver.History

/-!
# A reader while others write

The bytes of all finished commands form one stream, which only grows.  The
position of a file counts from the oldest command that the device still
holds, so an eviction moves a reader ahead in the stream.  Its position there
is the number of evicted bytes plus the position of the file (`readPos`).

`Driver.Ready.reader` follows one file through a run in which it is moved by
its own reads only.  `FollowsStream` says what this means for the stream:
every read delivers a contiguous piece, and what lies between two pieces is
what was evicted between them.
-/

namespace AesdChar

open CodeLib CodeLib.CInt CodeLib.Ring

/-- The file that a call is made on. -/
def Call.file : Call → Nat
  | .openFile file => file
  | .read file _ _ => file
  | .write file _ _ => file
  | .llseek file _ _ => file
  | .ioctl file _ _ _ => file

/-- What an event delivered to the reader of `file`. -/
def Event.deliveredTo (file : Nat) (e : Event) : List Byte :=
  match e.call with
  | .read f _ _ => if f = file ∧ 0 ≤ e.ret then e.data else []
  | _ => []

/-- What the events delivered to the reader of `file`. -/
def deliveredTo (file : Nat) (events : List Event) : List Byte :=
  events.flatMap (Event.deliveredTo file)

/-- The bytes of all commands finished by the events. -/
def streamAfter (events : List Event) : List Byte :=
  (CommandLog.ofWrites (payloads events)).stream

/-- The number of bytes at the start of the stream that the device gave up. -/
def evictedAfter (events : List Event) : Nat :=
  (CommandLog.ofWrites (payloads events)).evicted

/-- Where in the stream the next read starts, for a file that was opened
after `before` and has seen `past` since. -/
def readPos (file : Nat) (before past : List Event) : Nat :=
  evictedAfter (before ++ past) + (deliveredTo file past).length

/-- The reads of `file` among `events` follow the stream.  The file was opened
right after `before`. -/
structure FollowsStream (file : Nat) (before events : List Event) : Prop where
  /-- A read delivers a contiguous piece of the stream. -/
  contiguous : ∀ past e future count env, events = past ++ e :: future →
    e.call = .read file count env → 0 ≤ e.ret →
    e.ret = e.data.length ∧
    e.data = ((streamAfter (before ++ events)).drop (readPos file before past)).take e.data.length
  /-- Between two reads that deliver something lies what was evicted between
  them, so the pieces are in order and do not overlap. -/
  gap : ∀ past e mid e' future count count' env env',
    events = past ++ e :: (mid ++ e' :: future) →
    e.call = .read file count env → 0 ≤ e.ret → e.data ≠ [] →
    e'.call = .read file count' env' → 0 ≤ e'.ret → e'.data ≠ [] →
    deliveredTo file mid = [] →
    evictedAfter (before ++ past) ≤ evictedAfter (before ++ (past ++ e :: mid)) ∧
    readPos file before (past ++ e :: mid) = readPos file before past + e.data.length +
      (evictedAfter (before ++ (past ++ e :: mid)) - evictedAfter (before ++ past))
  /-- A read that was asked for something and delivers nothing has reached the
  end of the stream. -/
  drained : ∀ past e future count env, events = past ++ e :: future →
    e.call = .read file count env → 0 < count → e.ret = 0 →
    (streamAfter (before ++ past)).length ≤ readPos file before past
  /-- As long as nothing was evicted, what was delivered is the start of the
  stream. -/
  whole : ∀ past future, events = past ++ future → evictedAfter (before ++ past) = 0 →
    deliveredTo file past <+: streamAfter (before ++ past)
  /-- If nothing was evicted, the first read without a byte means that the
  whole stream was delivered. -/
  complete : ∀ past e future count env, events = past ++ e :: future →
    e.call = .read file count env → 0 < count → e.ret = 0 →
    evictedAfter (before ++ past) = 0 →
    deliveredTo file past = streamAfter (before ++ past)

/-! ## The stream only grows -/

theorem CommandLog.closed_prefix (log : CommandLog) (ws : List (List Byte)) :
    log.closed <+: (ws.foldl write log).closed := by
  induction ws generalizing log with
  | nil => exact List.prefix_rfl
  | cons w ws ih =>
    refine List.IsPrefix.trans ?_ (ih (log.write w))
    by_cases h : newline ∈ w
    · rw [(log.write_of_mem h).1]
      exact List.prefix_append _ _
    · rw [(log.write_of_notMem h).1]

theorem closed_prefix_append (es es' : List Event) :
    (CommandLog.ofWrites (payloads es)).closed <+:
      (CommandLog.ofWrites (payloads (es ++ es'))).closed := by
  rw [payloads_append, CommandLog.ofWrites, CommandLog.ofWrites, List.foldl_append]
  exact CommandLog.closed_prefix _ _

theorem streamAfter_prefix (es es' : List Event) :
    ∃ t, streamAfter (es ++ es') = streamAfter es ++ t := by
  obtain ⟨cs, hcs⟩ := closed_prefix_append es es'
  refine ⟨cs.flatten, ?_⟩
  rw [streamAfter, CommandLog.stream, ← hcs, List.flatten_append]
  rfl

/-- What was evicted stays evicted. -/
theorem evictedAfter_le (es es' : List Event) : evictedAfter es ≤ evictedAfter (es ++ es') := by
  obtain ⟨cs, hcs⟩ := closed_prefix_append es es'
  obtain ⟨t, ht⟩ := rdrop_prefix_append maxWriteOperations
    (CommandLog.ofWrites (payloads es)).closed cs
  rw [evictedAfter, evictedAfter, CommandLog.evicted, CommandLog.evicted, ← hcs, ← ht,
    List.flatten_append, List.length_append]
  exact Nat.le_add_right _ _

@[simp] theorem deliveredTo_nil (file : Nat) : deliveredTo file [] = [] := rfl

theorem deliveredTo_append (file : Nat) (es es' : List Event) :
    deliveredTo file (es ++ es') = deliveredTo file es ++ deliveredTo file es' :=
  List.flatMap_append

theorem deliveredTo_cons (file : Nat) (e : Event) (es : List Event) :
    deliveredTo file (e :: es) = e.deliveredTo file ++ deliveredTo file es := rfl

theorem Event.deliveredTo_read {e : Event} {file count : Nat} {env : ReadEnv}
    (hcall : e.call = .read file count env) (hret : 0 ≤ e.ret) : e.deliveredTo file = e.data := by
  simp [Event.deliveredTo, hcall, hret]

/-! ## The run -/

variable {kmalloc : Kmalloc} {s : Driver} {cmds : Slots} {log : CommandLog}

/-- A call does not move the other files. -/
theorem Driver.step_filePos_of_ne {s' : Driver} {call : Call} {e : Event} {file : Nat}
    (hstep : s.step kmalloc call = .ok (e, s')) (hne : call.file ≠ file) :
    s'.filePos file = s.filePos file := by
  have hafter : ∀ pos k, (s.after call.file pos k).filePos file = s.filePos file := by
    intro pos k
    simp [Driver.after, Function.update_of_ne hne.symm]
  cases call with
  | openFile f =>
    cases hstep
    exact hafter _ _
  | read f count env =>
    obtain ⟨r, -, hstep⟩ := bind_eq_ok hstep
    cases hstep
    exact hafter _ _
  | write f buf env =>
    obtain ⟨r, -, hstep⟩ := bind_eq_ok hstep
    cases hstep
    exact hafter _ _
  | llseek f offset whence =>
    obtain ⟨r, -, hstep⟩ := bind_eq_ok hstep
    cases hstep
    exact hafter _ _
  | ioctl f uncopied cmd seekto =>
    obtain ⟨r, -, hstep⟩ := bind_eq_ok hstep
    cases hstep
    exact hafter _ _

/-- One call of a run that moves `file` by its reads only: the file moves by
what it was given. -/
private theorem Driver.Ready.step_reader (h : s.Ready kmalloc cmds log) {file off : Nat}
    (hoff : s.filePos file = off) {call : Call}
    (hcall : call.file = file → ∃ count env, call = .read file count env) :
    ∃ e s' cmds', s.step kmalloc call = .ok (e, s') ∧ e.call = call ∧
      s'.Ready kmalloc cmds' (log.after e) ∧
      s'.filePos file = (off + (e.deliveredTo file).length : Nat) ∧
      ∀ count env, call = .read file count env → 0 ≤ e.ret →
        e.ret = e.data.length ∧ e.data = (log.content.drop off).take count := by
  by_cases hfile : call.file = file
  · obtain ⟨count, env, rfl⟩ := hcall hfile
    obtain ⟨e, s', hstep, hecall, hready, hres⟩ := h.step_read hoff count env
    have hlog : log.after e = log := by
      simp [CommandLog.after, Event.payload?, hecall]
    refine ⟨e, s', cmds, hstep, hecall, by rwa [hlog], ?_, ?_⟩
    · rcases hres with ⟨-, hneg, hpos⟩ | ⟨hdata, hret, rfl⟩
      · have hnone : e.deliveredTo file = [] := by
          simp [Event.deliveredTo, hecall, Int.not_le.mpr hneg]
        rw [hpos, hnone, List.length_nil, Nat.add_zero]
      · have hnonneg : 0 ≤ e.ret := by
          rw [hret]
          exact Int.natCast_nonneg _
        rw [Event.deliveredTo_read hecall hnonneg, hdata]
        exact Function.update_self _ _ _
    · rintro count' env' hread hnonneg
      cases hread
      rcases hres with ⟨-, hneg, -⟩ | ⟨hdata, hret, -⟩
      · exact absurd hnonneg (Int.not_le.mpr hneg)
      · exact ⟨by rw [hret, hdata], hdata⟩
  · obtain ⟨e, s', cmds', hstep, hecall, hready⟩ := h.step call
    refine ⟨e, s', cmds', hstep, hecall, hready, ?_, ?_⟩
    · have hnone : e.deliveredTo file = [] := by
        unfold Event.deliveredTo
        rw [hecall]
        cases call with
        | read f count env => exact if_neg fun hf => hfile hf.1
        | openFile _ | write _ _ _ | llseek _ _ _ | ioctl _ _ _ _ => rfl
      rw [Driver.step_filePos_of_ne hstep hfile, hoff, hnone, List.length_nil, Nat.add_zero]
    · rintro count env rfl
      exact absurd rfl hfile

/-- One file through a run: each of its reads delivers a window of the content
at that time, from where the reads before it ended. -/
theorem Driver.Ready.reader (h : s.Ready kmalloc cmds log) {file off : Nat}
    (hoff : s.filePos file = off) (calls : List Call)
    (hcalls : ∀ c ∈ calls, c.file = file → ∃ count env, c = .read file count env) :
    ∃ events s' cmds', s.run kmalloc calls = .ok (events, s') ∧ events.map Event.call = calls ∧
      s'.Ready kmalloc cmds' ((payloads events).foldl CommandLog.write log) ∧
      ∀ past e future count env, events = past ++ e :: future →
        e.call = .read file count env → 0 ≤ e.ret →
        e.ret = e.data.length ∧
        e.data = ((((payloads past).foldl CommandLog.write log).content).drop
          (off + (deliveredTo file past).length)).take count := by
  induction calls generalizing s cmds log off with
  | nil =>
    refine ⟨[], s, cmds, rfl, rfl, h, ?_⟩
    rintro past e future count env hsplit
    simp at hsplit
  | cons call calls ih =>
    obtain ⟨e₀, s₁, cmds₁, hstep, hecall, h₁, hoff₁, hdata₁⟩ :=
      h.step_reader hoff (hcalls call List.mem_cons_self)
    obtain ⟨events, s₂, cmds₂, hrun, hmap, h₂, hdata₂⟩ :=
      ih h₁ hoff₁ fun c hc => hcalls c (List.mem_cons_of_mem _ hc)
    have hfold : ∀ es, (payloads (e₀ :: es)).foldl CommandLog.write log =
        (payloads es).foldl CommandLog.write (log.after e₀) := payloads_cons_foldl log e₀
    refine ⟨e₀ :: events, s₂, cmds₂, Driver.run_cons hstep hrun,
      by rw [List.map_cons, hecall, hmap], by rwa [hfold], ?_⟩
    rintro past e future count env hsplit hread hret
    cases past with
    | nil =>
      obtain ⟨rfl, rfl⟩ := List.cons.inj hsplit
      exact hdata₁ count env (hecall ▸ hread) hret
    | cons p past =>
      rw [List.cons_append, List.cons.injEq] at hsplit
      obtain ⟨rfl, hsplit⟩ := hsplit
      have := hdata₂ past e future count env hsplit hread hret
      rwa [hfold, deliveredTo_cons, List.length_append, ← Nat.add_assoc]

/-! ## The stream -/

/-- An event that delivers something is a read that succeeded. -/
theorem Event.read_of_deliveredTo {e : Event} {file : Nat} (h : e.deliveredTo file ≠ []) :
    ∃ count env, e.call = .read file count env ∧ 0 ≤ e.ret := by
  unfold Event.deliveredTo at h
  split at h
  · rename_i f count env hcall
    by_cases hf : f = file ∧ 0 ≤ e.ret
    · exact ⟨count, env, by rw [hcall, hf.1], hf.2⟩
    · exact absurd (if_neg hf) h
  · exact absurd rfl h

/-- What the reads of a run deliver follows the stream. -/
private theorem followsStream_of_windows {file : Nat} {before events : List Event}
    (h : ∀ past e future count env, events = past ++ e :: future →
      e.call = .read file count env → 0 ≤ e.ret →
      e.ret = e.data.length ∧
      e.data = ((CommandLog.ofWrites (payloads (before ++ past))).content.drop
        (deliveredTo file past).length).take count) :
    FollowsStream file before events := by
  -- The windows of the content, as windows of the stream.
  have hstream : ∀ past e future count env, events = past ++ e :: future →
      e.call = .read file count env → 0 ≤ e.ret →
      e.ret = e.data.length ∧
      e.data = ((streamAfter (before ++ past)).drop (readPos file before past)).take count := by
    intro past e future count env hsplit hread hret
    have hwindow := h past e future count env hsplit hread hret
    rwa [← CommandLog.drop_stream, List.drop_drop] at hwindow
  have hwhole : ∀ past future, events = past ++ future → evictedAfter (before ++ past) = 0 →
      deliveredTo file past <+: streamAfter (before ++ past) := by
    intro past
    induction past using List.reverseRecOn with
    | nil => exact fun _ _ _ => List.nil_prefix
    | append_singleton past e ih =>
      intro future hsplit hevicted
      have hsplit' : events = past ++ e :: future := by
        rw [hsplit, List.append_assoc]
        rfl
      rw [← List.append_assoc] at hevicted ⊢
      have hevicted' : evictedAfter (before ++ past) = 0 :=
        Nat.le_zero.mp (hevicted ▸ evictedAfter_le _ _)
      have hpre := ih (e :: future) hsplit' hevicted'
      obtain ⟨t, ht⟩ := streamAfter_prefix (before ++ past) [e]
      refine List.IsPrefix.trans ?_ (ht ▸ List.prefix_append _ _)
      rw [deliveredTo_append, deliveredTo_cons]
      by_cases hnone : e.deliveredTo file = []
      · rw [hnone]
        simpa using hpre
      · obtain ⟨count, env, hread, hret⟩ := Event.read_of_deliveredTo hnone
        obtain ⟨-, hdata⟩ := hstream past e future count env hsplit' hread hret
        rw [readPos, hevicted', Nat.zero_add] at hdata
        -- The piece starts where the bytes delivered before it end.
        have hjoin : deliveredTo file past ++ e.data =
            (streamAfter (before ++ past)).take ((deliveredTo file past).length + count) := by
          rw [List.take_add, ← hdata, ← List.prefix_iff_eq_take.mp hpre]
        rw [Event.deliveredTo_read hread hret, deliveredTo_nil, List.append_nil, hjoin]
        exact List.take_prefix _ _
  have hend : ∀ past e future count env, events = past ++ e :: future →
      e.call = .read file count env → 0 < count → e.ret = 0 →
      (streamAfter (before ++ past)).length ≤ readPos file before past := by
    intro past e future count env hsplit hread hcount hret
    obtain ⟨hlen, hdata⟩ := hstream past e future count env hsplit hread (by rw [hret])
    have hnil : e.data = [] := by
      rw [hret] at hlen
      exact List.eq_nil_of_length_eq_zero (by exact_mod_cast hlen.symm)
    rw [hnil, eq_comm, List.take_eq_nil_iff, List.drop_eq_nil_iff] at hdata
    rcases hdata with hzero | hle
    · omega
    · exact hle
  refine ⟨?_, ?_, hend, hwhole, ?_⟩
  · intro past e future count env hsplit hread hret
    obtain ⟨hlen, hdata⟩ := hstream past e future count env hsplit hread hret
    refine ⟨hlen, ?_⟩
    obtain ⟨t, ht⟩ := streamAfter_prefix (before ++ past) (e :: future)
    rw [← List.prefix_iff_eq_take, hsplit, ← List.append_assoc, ht]
    refine List.IsPrefix.trans ?_ ((List.prefix_append _ t).drop _)
    rw [hdata]
    exact List.take_prefix _ _
  · intro past e mid e' future count count' env env' hsplit hread hret _ hread' hret' _ hmid
    have hle : evictedAfter (before ++ past) ≤ evictedAfter (before ++ (past ++ e :: mid)) := by
      rw [← List.append_assoc]
      exact evictedAfter_le _ _
    refine ⟨hle, ?_⟩
    unfold readPos
    rw [deliveredTo_append, deliveredTo_cons, Event.deliveredTo_read hread hret, hmid,
      List.append_nil, List.length_append]
    omega
  · intro past e future count env hsplit hread hcount hret hevicted
    have hle := hend past e future count env hsplit hread hcount hret
    rw [readPos, hevicted, Nat.zero_add] at hle
    exact (hwhole past (e :: future) hsplit hevicted).eq_of_length_le hle

/-- A reader and any writers.  The file is opened after any calls, and from
then on it is moved by its own reads only. -/
theorem run_follows_stream (kmalloc : Kmalloc) (file : Nat) (before calls : List Call)
    (hcalls : ∀ c ∈ calls, c.file = file → ∃ count env, c = .read file count env) :
    ∃ past s events s', Driver.loaded.run kmalloc before = .ok (past, s) ∧
      s.run kmalloc (.openFile file :: calls) = .ok (⟨.openFile file, 0, []⟩ :: events, s') ∧
      past.map Event.call = before ∧ events.map Event.call = calls ∧
      FollowsStream file past events ∧
      ∃ entries, s'.k.commands = .ok entries ∧
        (streamAfter (past ++ events)).drop (evictedAfter (past ++ events)) = entries.flatten := by
  obtain ⟨past, s, cmds, hrun, hmap, hready⟩ := Driver.run_loaded kmalloc before
  have hopen : (s.after file 0 s.k).Ready kmalloc cmds (.ofWrites (payloads past)) :=
    hready.after file isSigned64_zero hready.idle
  have hzero : (s.after file 0 s.k).filePos file = (0 : Nat) := Function.update_self _ _ _
  obtain ⟨events, s', cmds', hrun', hmap', hready', hdata⟩ := hopen.reader hzero calls hcalls
  have hfold : ∀ es, (payloads es).foldl CommandLog.write (.ofWrites (payloads past)) =
      .ofWrites (payloads (past ++ es)) := by
    intro es
    rw [payloads_append, CommandLog.ofWrites, CommandLog.ofWrites, List.foldl_append]
  refine ⟨past, s, events, s', hrun, Driver.run_cons rfl hrun', hmap, hmap', ?_, ?_⟩
  · refine followsStream_of_windows fun p e future count env hsplit hread hret => ?_
    have := hdata p e future count env hsplit hread hret
    rwa [hfold, Nat.zero_add] at this
  · rw [hfold] at hready'
    exact ⟨_, hready'.idle.commands_eq, CommandLog.drop_stream _⟩

/-- A writer finishes a command after the reader opened the file. -/
theorem run_follows_stream_one_writer :
    ∃ past s events s', Driver.loaded.run ⟨4096, by decide⟩ [] = .ok (past, s) ∧
      s.run ⟨4096, by decide⟩ [.openFile 0, .write 1 [97, newline] ⟨true, 0, true⟩,
        .read 0 5 ⟨fun _ => 0⟩] = .ok (⟨.openFile 0, 0, []⟩ :: events, s') ∧
      past.map Event.call = [] ∧
      events.map Event.call = [.write 1 [97, newline] ⟨true, 0, true⟩, .read 0 5 ⟨fun _ => 0⟩] ∧
      FollowsStream 0 past events ∧
      ∃ entries, s'.k.commands = .ok entries ∧
        (streamAfter (past ++ events)).drop (evictedAfter (past ++ events)) = entries.flatten :=
  run_follows_stream ⟨4096, by decide⟩ 0 [] _ (by
    intro c hc hfile
    simp only [List.mem_cons, List.not_mem_nil, or_false] at hc
    rcases hc with rfl | rfl
    · exact absurd hfile (by decide)
    · exact ⟨_, _, rfl⟩)

end AesdChar
