import AesdChar.Scull.Pipe.Refine

/-!
# The bytes that go through a pipe

The results about whole runs of a pipe.  `pipe_run_queue` says that a run is one of
a bounded queue of bytes and that what the buffer shows is the queue.
`pipe_run_lossless_iff` says when the readers get the bytes of the writers without a
gap, and `pipe_run_owns` that the device counts its files and frees its buffer.

The counters of the device are `int`, and their sum is too.  A task is counted twice
at most, so there must be fewer than 2^30 tasks.
-/

namespace AesdChar.Scull

open CodeLib CodeLib.CInt CodeLib.Ring

/-! ## What the buffer shows -/

/-- The bytes between the two pointers, read off the memory. -/
def PipeMem.content (m : PipeMem) : List (Option Byte) :=
  match m.dev.buffer with
  | .block a =>
    match m.heap.blocks[a]? with
    | some b =>
      let n := m.dev.buffersize.toNat
      window (cellAt b.bytes) n m.dev.rp.toNat ((m.dev.wp.toNat + n - m.dev.rp.toNat) % n)
    | none => []
  | _ => []

section Content

variable {kmalloc : Kmalloc} {m : PipeMem} {cells : List (Option Byte)} {n x y : Nat}
  {q : List Byte} {phase : PipePhase}

theorem PipeMem.Ring.content_eq (h : m.Ring kmalloc cells n x y q) (hx : x < n) (hy : y < n) :
    m.content = q.map some := by
  have hlen := h.length_lt
  have hpos := h.pos
  have hcells := h.le
  obtain ⟨a, ha⟩ : ∃ a, m.dev.buffer = .block a := by
    rcases h.owns.fits _ List.mem_cons_self with ⟨hblock, -⟩ | ⟨-, hnil⟩
    · exact hblock
    · have hzero : cells.length = 0 := by rw [show cells = [] from hnil]; rfl
      omega
  have howns := h.owns
  rw [ha] at howns
  have hblock := howns.content a cells List.mem_cons_self
  have hcount : (y + n - x) % n = q.length := by
    rcases h.cases hx hy with ⟨hlt, heq⟩ | ⟨hge, heq⟩
    · rw [show y + n - x = q.length + n by omega, Nat.add_mod_right, Nat.mod_eq_of_lt hlen]
    · rw [show y + n - x = q.length by omega, Nat.mod_eq_of_lt hlen]
  have hcarries := h.carries
  rw [Nat.mod_eq_of_lt hx] at hcarries
  unfold content
  simp only [ha, hblock, h.buffersize_eq, h.rp_eq, h.wp_eq, Int.toNat_natCast, hcount]
  exact hcarries.window_eq

/-- In every phase the device has one buffer or none. -/
theorem PipeMem.Shape.buffered (h : m.Shape kmalloc q phase) :
    m.Unbuffered ∨ ∃ cells, m.Buffered kmalloc cells := by
  cases phase with
  | settled =>
    rcases h with ⟨hm, -⟩ | ⟨cells, n, x, y, -, -, hring⟩
    · exact Or.inl hm
    · exact Or.inr ⟨cells, hring.toBuffered⟩
  | readable =>
    obtain ⟨-, cells, n, x, y, -, -, hring⟩ := h
    exact Or.inr ⟨cells, hring.toBuffered⟩
  | writable =>
    obtain ⟨cells, n, x, y, -, -, -, hring⟩ := h
    exact Or.inr ⟨cells, hring.toBuffered⟩
  | allocated => exact Or.inr h.1
  | sized =>
    obtain ⟨-, cells, n, hsized⟩ := h
    exact Or.inr ⟨cells, hsized.toBuffered⟩
  | wpReset =>
    obtain ⟨-, -, cells, n, hsized⟩ := h
    exact Or.inr ⟨cells, hsized.toBuffered⟩
  | opened =>
    obtain ⟨cells, n, x, y, -, -, hring⟩ := h
    exact Or.inr ⟨cells, hring.toBuffered⟩
  | readMoved =>
    obtain ⟨cells, n, x, y, -, hring⟩ := h
    exact Or.inr ⟨cells, hring.toBuffered⟩
  | writeMoved =>
    obtain ⟨cells, n, x, y, -, hring⟩ := h
    exact Or.inr ⟨cells, hring.toBuffered⟩

/-- The buffer is the only live block. -/
theorem PipeMem.Shape.mem_liveAddrs (h : m.Shape kmalloc q phase) (a : Nat) :
    a ∈ m.heap.liveAddrs ↔ m.dev.buffer = .block a := by
  rcases h.buffered with hm | ⟨cells, hm⟩
  · rw [hm.owns.perm_liveAddrs.mem_iff, hm.buffer_eq]
    exact iff_of_false List.not_mem_nil Ptr.noConfusion
  · rw [hm.owns.perm_liveAddrs.mem_iff, Heap.mem_addrs]
    constructor
    · rintro ⟨cells', hmem⟩
      rw [List.mem_singleton] at hmem
      exact (Prod.mk.inj hmem).1.symm
    · intro hblock
      exact ⟨cells, by rw [hblock]; exact List.mem_cons_self⟩

end Content

/-! ## The two ends of a pipe -/

section Events

variable {τ : Type} {q q' : List Byte} {events events' : List (PipeEvent τ)} {e : PipeEvent τ}

/-- The bytes that a step accepts. -/
def PipeEvent.written : PipeEvent τ → List Byte
  | .accepted bytes => bytes
  | _ => []

/-- The bytes that a step delivers. -/
def PipeEvent.read : PipeEvent τ → List Byte
  | .delivered bytes => bytes
  | _ => []

/-- All bytes that the device has accepted. -/
def bytesIn (events : List (PipeEvent τ)) : List Byte := (events.map PipeEvent.written).flatten

/-- All bytes that the device has delivered. -/
def bytesOut (events : List (PipeEvent τ)) : List Byte := (events.map PipeEvent.read).flatten

/-- Whenever the device was cleared, everything had been delivered.  It is cleared by
every `open`, and by a `release` that leaves neither a reader nor a writer. -/
def Lossless (events : List (PipeEvent τ)) : Prop :=
  ∀ pre post, events = pre ++ .cleared :: post → (bytesIn pre).length = (bytesOut pre).length

theorem bytesIn_append (events events' : List (PipeEvent τ)) :
    bytesIn (events ++ events') = bytesIn events ++ bytesIn events' := by
  simp [bytesIn]

theorem bytesOut_append (events events' : List (PipeEvent τ)) :
    bytesOut (events ++ events') = bytesOut events ++ bytesOut events' := by
  simp [bytesOut]

/-- A reader gets the front of the queue. -/
theorem PipeEvent.after_delivered {bytes : List Byte}
    (h : (delivered bytes : PipeEvent τ).after q = some q') : q = bytes ++ q' := by
  by_cases hprefix : bytes <+: q
  · obtain rfl : q.drop bytes.length = q' := Option.some.inj ((if_pos hprefix).symm.trans h)
    obtain ⟨rest, rfl⟩ := hprefix
    rw [List.drop_left]
  · cases (if_neg hprefix).symm.trans h

/-- No step makes a byte. -/
theorem PipeEvent.length_after (h : e.after q = some q') :
    e.read.length + q'.length ≤ q.length + e.written.length := by
  cases e with
  | accepted bytes =>
    obtain rfl : q ++ bytes = q' := Option.some.inj h
    simp [read, written]
  | delivered bytes =>
    rw [after_delivered h]
    simp [read, written]
  | cleared =>
    obtain rfl : [] = q' := Option.some.inj h
    simp [read, written]
  | silent =>
    obtain rfl : q = q' := Option.some.inj h
    simp [read, written]
  | returned t ret =>
    obtain rfl : q = q' := Option.some.inj h
    simp [read, written]

theorem PipeEvent.length_replay (h : replay q events = some q') :
    (bytesOut events).length + q'.length ≤ q.length + (bytesIn events).length := by
  induction events generalizing q with
  | nil =>
    obtain rfl : q = q' := Option.some.inj h
    simp [bytesIn, bytesOut]
  | cons e events ih =>
    obtain ⟨q₁, hafter, hrest⟩ := Option.bind_eq_some_iff.mp h
    have hstep := length_after hafter
    have hrun := ih hrest
    have hin : (bytesIn (e :: events)).length = e.written.length + (bytesIn events).length := by
      simp [bytesIn]
    have hout : (bytesOut (e :: events)).length = e.read.length + (bytesOut events).length := by
      simp [bytesOut]
    omega

/-- A step that clears nothing moves bytes from one end to the other. -/
theorem PipeEvent.after_stream (h : e.after q = some q') (hclear : e = .cleared → q = []) :
    q ++ e.written = e.read ++ q' := by
  cases e with
  | accepted bytes =>
    obtain rfl : q ++ bytes = q' := Option.some.inj h
    rfl
  | delivered bytes =>
    rw [after_delivered h]
    exact List.append_nil _
  | cleared =>
    obtain rfl : [] = q' := Option.some.inj h
    rw [hclear rfl]
    rfl
  | silent =>
    obtain rfl : q = q' := Option.some.inj h
    exact List.append_nil q
  | returned t ret =>
    obtain rfl : q = q' := Option.some.inj h
    exact List.append_nil q

/-- The bytes come out as they went in exactly if nothing was cleared away. -/
theorem PipeEvent.replay_stream_iff (h : replay [] events = some q) :
    bytesIn events = bytesOut events ++ q ↔ Lossless events := by
  constructor
  · rintro hstream pre post rfl
    rw [replay, Trace.replay_append] at h
    obtain ⟨q₁, hpre, hpost⟩ := Option.bind_eq_some_iff.mp h
    have hlen_pre := length_replay hpre
    have hlen_post := length_replay (show replay [] post = some q from hpost)
    have hlen := congrArg List.length hstream
    rw [bytesIn_append, bytesOut_append, List.length_append, List.length_append,
      List.length_append] at hlen
    have hin : bytesIn (.cleared :: post : List (PipeEvent τ)) = bytesIn post := by
      simp [bytesIn, written]
    have hout : bytesOut (.cleared :: post : List (PipeEvent τ)) = bytesOut post := by
      simp [bytesOut, read]
    rw [hin, hout] at hlen
    simp only [List.length_nil] at hlen_pre hlen_post
    omega
  · intro hlossless
    induction events using List.reverseRecOn generalizing q with
    | nil =>
      obtain rfl : [] = q := Option.some.inj h
      rfl
    | append_singleton events e ih =>
      obtain ⟨q₁, hpre, hafter⟩ := Trace.replay_concat h
      have hstream := ih hpre fun pre post heq =>
        hlossless pre (post ++ [e]) (by rw [heq, List.append_assoc]; rfl)
      have hstep := after_stream hafter fun hclear => by
        have hempty := hlossless events [] (by rw [hclear])
        rw [hstream, List.length_append] at hempty
        exact List.length_eq_zero_iff.mp (by omega)
      rw [bytesIn_append, bytesOut_append, hstream, List.append_assoc, List.append_assoc]
      have hin : bytesIn [e] = e.written := by simp [bytesIn]
      have hout : bytesOut [e] = e.read := by simp [bytesOut]
      rw [hin, hout, hstep]

end Events

/-! ## Runs -/

section Runs

variable {τ : Type} [DecidableEq τ] {kmalloc : Kmalloc} {mode : τ → FMode} {s : PipeSystem τ}
  {q : List Byte} {params : ScullParams} {acts : List (PipeAct τ)} {events : List (PipeEvent τ)}

omit [DecidableEq τ] in
/-- While nobody has the mutex, the buffer shows the queue. -/
theorem PipeSystem.Inv.content_eq (h : s.Inv kmalloc mode q) (hfree : s.lock = none) :
    s.mem.content = q.map some ∧ (q ≠ [] → (q.length : Int) < s.mem.dev.buffersize) := by
  have hshape := h.shape
  rw [PipeSystem.phase, hfree] at hshape
  rcases hshape with ⟨hm, rfl⟩ | ⟨cells, n, x, y, hx, hy, hring⟩
  · refine ⟨?_, fun hne => absurd rfl hne⟩
    rw [PipeMem.content, hm.buffer_eq]
    rfl
  · refine ⟨hring.content_eq hx hy, fun _ => ?_⟩
    rw [hring.buffersize_eq]
    exact Int.ofNat_lt.mpr hring.length_lt

omit [DecidableEq τ] in
theorem PipeSystem.Inv.length_lt (h : s.Inv kmalloc mode q) (hfree : s.lock = none)
    (hbuffer : s.mem.dev.buffer ≠ .null) : (q.length : Int) < s.mem.dev.buffersize := by
  have hshape := h.shape
  rw [PipeSystem.phase, hfree] at hshape
  rcases hshape with ⟨hm, -⟩ | ⟨cells, n, x, y, -, -, hring⟩
  · exact absurd hm.buffer_eq hbuffer
  · rw [hring.buffersize_eq]
    exact Int.ofNat_lt.mpr hring.length_lt

/-- What holds behind a safe run. -/
theorem PipeSystem.run_inv [Fintype τ] (hcard : Fintype.card τ < 2 ^ 30)
    (hsafe : (init params).SafeRun kmalloc mode acts)
    (hrun : (init params).run kmalloc mode acts = .ok (events, s)) :
    ∃ q, PipeEvent.replay [] events = some q ∧ s.Inv kmalloc mode q := by
  obtain ⟨events', s', q, hrun', hreplay, hinv⟩ := (Inv.init kmalloc mode params).run hcard hsafe
  rw [hrun] at hrun'
  obtain ⟨rfl, rfl⟩ := Prod.mk.inj (Except.ok.inj hrun')
  exact ⟨q, hreplay, hinv⟩

/-- In a run of fewer than 2^30 tasks in which every size that is stored is positive and
fits the buffer, nothing goes wrong, and the pipe is a bounded queue of bytes: a write
appends to it, a read takes the oldest bytes, and opening the device empties it. -/
theorem pipe_run_queue [Fintype τ] (hcard : Fintype.card τ < 2 ^ 30) (kmalloc : Kmalloc)
    (mode : τ → FMode) (params : ScullParams) (acts : List (PipeAct τ))
    (hsafe : (PipeSystem.init params).SafeRun kmalloc mode acts) :
    ∃ events s q, (PipeSystem.init params).run kmalloc mode acts = .ok (events, s) ∧
      PipeEvent.replay [] events = some q ∧
      (s.lock = none → s.mem.content = q.map some ∧
        (q ≠ [] → (q.length : Int) < s.mem.dev.buffersize)) := by
  obtain ⟨events, s, q, hrun, hreplay, hinv⟩ :=
    (PipeSystem.Inv.init kmalloc mode params).run hcard hsafe
  exact ⟨events, s, q, hrun, hreplay, fun hfree => hinv.content_eq hfree⟩

/-- A task opens the device for both, writes three bytes into a pipe that takes two,
and reads one of them. -/
def openWriteRead : List (PipeAct Unit) :=
  let steps (n : Nat) := List.replicate n (PipeAct.step () ⟨false, true, 0⟩)
  .call () .open :: steps 6 ++ .call () (.op (.write [97, 98, 99] false)) :: steps 6 ++
    .call () (.op (.read 1 false)) :: steps 6

/-- A pipe for two bytes. -/
def smallPipe : ScullParams := ⟨SCULL_QUANTUM, SCULL_QSET, 3⟩

def readWrite (_ : Unit) : FMode := ⟨true, true⟩

theorem safeRun_openWriteRead :
    (PipeSystem.init smallPipe).SafeRun Kmalloc.onePage readWrite openWriteRead := by
  decide +kernel

theorem pipe_run_queue_openWriteRead :
    ∃ events s q, (PipeSystem.init smallPipe).run Kmalloc.onePage readWrite openWriteRead =
        .ok (events, s) ∧
      PipeEvent.replay [] events = some q ∧
      (s.lock = none → s.mem.content = q.map some ∧
        (q ≠ [] → (q.length : Int) < s.mem.dev.buffersize)) :=
  pipe_run_queue (by decide) Kmalloc.onePage readWrite smallPipe openWriteRead safeRun_openWriteRead

example : ((PipeSystem.init smallPipe).run Kmalloc.onePage readWrite openWriteRead).toOption.map
    (fun r => (bytesOut r.1, r.2.mem.content)) = some ([97], [some 98]) := by
  decide +kernel

/-- The readers get exactly what the writers wrote, byte for byte, if and only if the
pipe holds nothing whenever somebody opens it, and whenever a close leaves neither a reader
nor a writer. -/
theorem pipe_run_lossless_iff [Fintype τ] (hcard : Fintype.card τ < 2 ^ 30)
    (hsafe : (PipeSystem.init params).SafeRun kmalloc mode acts)
    (hrun : (PipeSystem.init params).run kmalloc mode acts = .ok (events, s))
    (hfree : s.lock = none) :
    (bytesIn events).map some = (bytesOut events).map some ++ s.mem.content ↔
      Lossless events := by
  obtain ⟨q, hreplay, hinv⟩ := PipeSystem.run_inv hcard hsafe hrun
  rw [(hinv.content_eq hfree).1, ← List.map_append, ← PipeEvent.replay_stream_iff hreplay]
  exact (List.map_injective_iff.mpr fun _ _ h => Option.some.inj h).eq_iff

/-- One byte was read, and the other one that was accepted is in the buffer. -/
theorem pipe_run_lossless_iff_openWriteRead :
    ∃ events s, (PipeSystem.init smallPipe).run Kmalloc.onePage readWrite openWriteRead =
        .ok (events, s) ∧
      ((bytesIn events).map some = (bytesOut events).map some ++ s.mem.content ↔
        Lossless events) :=
  ⟨_, _, rfl, pipe_run_lossless_iff (by decide) safeRun_openWriteRead rfl rfl⟩

/-- The device counts the files that are open for reading and for writing, its
buffer is the only block it has, and behind the last file there is none. -/
theorem pipe_run_owns [Fintype τ] (hcard : Fintype.card τ < 2 ^ 30)
    (hsafe : (PipeSystem.init params).SafeRun kmalloc mode acts)
    (hrun : (PipeSystem.init params).run kmalloc mode acts = .ok (events, s)) :
    Counting (fun t pc => pc.counted && (mode t).read) s.tasks s.mem.dev.nreaders ∧
      Counting (fun t pc => pc.counted && (mode t).write) s.tasks s.mem.dev.nwriters ∧
      (∀ a, a ∈ s.mem.heap.liveAddrs ↔ s.mem.dev.buffer = .block a) ∧
      ((∀ t, s.tasks t = .closed) → s.mem.dev.buffer = .null ∧ s.mem.heap.liveAddrs = [] ∧
        s.mem.cleanup = .ok s.mem) := by
  obtain ⟨q, -, hinv⟩ := PipeSystem.run_inv hcard hsafe hrun
  refine ⟨hinv.counts.readers, hinv.counts.writers, hinv.shape.mem_liveAddrs, fun hclosed => ?_⟩
  have hnull : s.mem.dev.buffer = .null := by
    by_contra hne
    obtain ⟨t, ht⟩ := hinv.buffered hne
    rw [hclosed t] at ht
    rcases ht with ht | ht <;> cases ht
  refine ⟨hnull, ?_, ?_⟩
  · apply List.eq_nil_iff_forall_not_mem.mpr
    intro a ha
    rw [hinv.shape.mem_liveAddrs, hnull] at ha
    cases ha
  · rw [PipeMem.cleanup, hnull]
    rfl

/-- The run above, with a `release` behind it. -/
def openWriteReadRelease : List (PipeAct Unit) :=
  openWriteRead ++ .call () .release :: List.replicate 3 (.step () ⟨false, true, 0⟩)

theorem safeRun_openWriteReadRelease :
    (PipeSystem.init smallPipe).SafeRun Kmalloc.onePage readWrite openWriteReadRelease := by
  decide +kernel

theorem pipe_run_owns_openWriteReadRelease :
    ∃ events s, (PipeSystem.init smallPipe).run Kmalloc.onePage readWrite openWriteReadRelease =
        .ok (events, s) ∧
      s.mem.heap.liveAddrs = [] :=
  ⟨_, _, rfl, ((pipe_run_owns (by decide) safeRun_openWriteReadRelease rfl).2.2.2 fun _ => rfl).2.1⟩

end Runs

end AesdChar.Scull
