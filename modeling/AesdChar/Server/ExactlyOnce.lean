import AesdChar.Server.LifeCycle

/-!
# Every resource once

The invariant of the life cycle holds over every run: no run uses a node that is
not allocated, and when `main` has returned, sockets, nodes and threads were
given back once, exactly if no call of `pthread_create` has failed.
-/

namespace AesdChar

open CodeLib CodeLib.SList

section Server

variable {σ : Type} {setup : Setup σ} {trace : List LifeEvent} {s s' : Server σ} {ps : List Nat}

namespace Server.Inv

/-! ## Steps of the threads -/

/-- A worker closes the socket of its node. -/
theorem holdsFd_close (h : Inv setup trace s ps) {p : Nat} {w' : Worker} {fd : Nat}
    (hfd : s.fdOf p = some fd) (hpc : s'.pc = s.pc) (hfdOf : ∀ q, s'.fdOf q = s.fdOf q)
    (hself : s'.workers p = some w') (hother : ∀ q, q ≠ p → s'.workers q = s.workers q)
    (hclosed : w'.pc.closed = true) (fd' : Nat) :
    s'.HoldsFd fd' ↔ s.HoldsFd fd' ∧ fd' ≠ fd := by
  rw [HoldsFd, hpc]
  constructor
  · rintro (hmain | ⟨q, hq, hopen⟩)
    · refine ⟨Or.inl hmain, ?_⟩
      rintro rfl
      exact (h.fd_pc fd' hmain).2 p hfd
    · have hqp : q ≠ p := by
        rintro rfl
        exact absurd ((hopen w' hself).symm.trans hclosed) Bool.false_ne_true
      rw [hfdOf] at hq
      rw [hother q hqp] at hopen
      refine ⟨Or.inr ⟨q, hq, hopen⟩, ?_⟩
      rintro rfl
      exact hqp (h.fd_inj q p fd' hq hfd)
  · rintro ⟨hmain | ⟨q, hq, hopen⟩, hne⟩
    · exact Or.inl hmain
    · have hqp : q ≠ p := by
        rintro rfl
        exact hne (Option.some.inj (hq.symm.trans hfd))
      refine Or.inr ⟨q, (hfdOf q).trans hq, ?_⟩
      rwa [hother q hqp]

/-- A worker goes on and does not close its socket. -/
theorem holdsFd_congr {p : Nat} {w w' : Worker} (hw : s.workers p = some w)
    (hpc : s'.pc = s.pc) (hfdOf : ∀ q, s'.fdOf q = s.fdOf q) (hself : s'.workers p = some w')
    (hother : ∀ q, q ≠ p → s'.workers q = s.workers q) (hclosed : w'.pc.closed = w.pc.closed)
    (fd : Nat) : s'.HoldsFd fd ↔ s.HoldsFd fd := by
  rw [HoldsFd, HoldsFd, hpc]
  refine or_congr Iff.rfl (exists_congr fun q => ?_)
  rw [hfdOf]
  refine and_congr_right fun _ => ?_
  by_cases hq : q = p
  · rw [hq, hself, hw]
    simp [hclosed]
  · rw [hother q hq]

/-- A worker goes on.  `nodes` is what it leaves of the nodes: it may change what
a node holds, but not its socket and not its thread. -/
theorem workerMove (h : Inv setup trace s ps) {p : Nat} {w w' : Worker} {e : LifeEvent}
    (hw : s.workers p = some w) (hclosed : w'.pc.closed = (w.pc.closed || w.pc.closes))
    (hdone : w.pc = .done → w'.pc = .done)
    (he : w.pc.closes = true ∧ (∃ fd, s.fdOf p = some fd ∧ e = .closed fd) ∨
      w.pc.closes = false ∧ e = .silent)
    {nodes : Store Nat ThreadData} (hlinked : Linked nodes s.head ps)
    (hvalue : ∀ q, ∃ f : ThreadData → ThreadData,
      (∀ d, (f d).newFd = d.newFd ∧ (f d).threadId = d.threadId) ∧
        value nodes q = (s.data q).map f)
    (hflag : ∀ q d, value nodes q = some d → d.bThreadCompleted =
      (Function.update s.workers p (some w') q).any Worker.bThreadCompleted)
    (shared : Shared ThreadId σ) :
    Inv setup (trace ++ [e])
      { s with
        workers := Function.update s.workers p (some w')
        nodes := nodes
        shared := shared } ps := by
  let workers' := Function.update s.workers p (some w')
  have hself : workers' p = some w' := Function.update_self _ _ _
  have hother : ∀ q, q ≠ p → workers' q = s.workers q := fun q hq => Function.update_of_ne hq _ _
  have hworkers : ∀ q, workers' q = none ↔ s.workers q = none := by
    intro q
    by_cases hq : q = p
    · rw [hq, hself, hw]
      simp
    · rw [hother q hq]
  have hdata : ∀ q, value nodes q = none ↔ s.data q = none := by
    intro q
    obtain ⟨f, -, hf⟩ := hvalue q
    rw [hf, Option.map_eq_none_iff]
  have hfdOf : ∀ q, (value nodes q).map ThreadData.newFd = s.fdOf q := by
    intro q
    obtain ⟨f, hsame, hf⟩ := hvalue q
    rw [hf, Option.map_map, fdOf]
    congr 1
    exact funext fun d => (hsame d).1
  have hevent : (∀ id, e ≠ .created id ∧ e ≠ .createFailed id) ∧ (∀ id, e ≠ .joined id) ∧
      (∀ q, e ≠ .allocated q ∧ e ≠ .freed q) := by
    rcases he with ⟨-, fd, -, rfl⟩ | ⟨-, rfl⟩
    · simp
    · simp
  exact
  { linked := hlinked
    nodup := h.nodup
    live := fun q => (not_congr (hdata q)).trans (h.live q)
    outside := h.outside
    place := h.place
    node_lt := fun q hq => h.node_lt q (hq.imp (not_congr (hdata q)).mp (not_congr (hworkers q)).mp)
    uncreated := fun q hq => (hworkers q).mpr (h.uncreated q hq)
    threadId := fun q d hd => by
      obtain ⟨f, hsame, hf⟩ := hvalue q
      obtain ⟨d', hd', rfl⟩ := Option.map_eq_some_iff.mp (hf.symm.trans hd)
      rw [(hsame d').2, h.threadId q d' hd']
      show _ = (workers' q).map _
      by_cases hq : q = p
      · rw [hq, hself, hw]
        rfl
      · rw [hother q hq]
    flag := hflag
    fd_lt := fun q fd hq => h.fd_lt q fd ((hfdOf q).symm.trans hq)
    fd_inj := fun q q' fd hq hq' =>
      h.fd_inj q q' fd ((hfdOf q).symm.trans hq) ((hfdOf q').symm.trans hq')
    fd_pc := fun fd hpc =>
      ⟨(h.fd_pc fd hpc).1, fun q hq => (h.fd_pc fd hpc).2 q ((hfdOf q).symm.trans hq)⟩
    joined_done := fun q w'' hw'' hq => by
      have hq' := hq.imp_left (hdata q).mp
      by_cases hqp : q = p
      · subst hqp
        obtain rfl := Option.some.inj (hself.symm.trans hw'')
        exact hdone (h.joined_done q w hw hq')
      · exact h.joined_done q w'' ((hother q hqp).symm.trans hw'') hq'
    timer_absent := h.timer_absent
    noTimer := h.noTimer
    sockets := fun hok => by
      rcases he with ⟨hcloses, fd, hfd, rfl⟩ | ⟨hcloses, rfl⟩
      · have hopen : w.pc.closed = false := Pc.closed_of_closes hcloses
        have hheld : s.HoldsFd fd := by
          refine Or.inr ⟨p, hfd, fun w'' hw'' => ?_⟩
          rwa [← Option.some.inj (hw.symm.trans hw'')]
        rw [hcloses, Bool.or_true] at hclosed
        exact (h.sockets (no_failure hok)).release hheld (fun _ => Iff.rfl)
          (h.holdsFd_close hfd rfl hfdOf hself hother hclosed)
      · rw [hcloses, Bool.or_false] at hclosed
        exact (h.sockets (no_failure hok)).other (by simp [socketKind]) (by simp [socketKind])
          (fun _ => Iff.rfl) (holdsFd_congr hw rfl hfdOf hself hother hclosed)
    nodes := h.nodes.other (fun q => ((hevent.2.2 q).1).symm) (fun q => ((hevent.2.2 q).2).symm)
      (fun _ => Iff.rfl) fun q => not_congr (hdata q)
    threads := h.threads.alike
      { data := hdata
        workers := hworkers
        started := rfl
        timer := Iff.rfl
        joined := rfl
        create := fun _ => Iff.rfl
        returned := Iff.rfl } hevent.1 hevent.2.1 }

/-- A worker finds its argument, and closes the socket of its node. -/
theorem useArg (h : Inv setup trace s ps) {p : Nat} {w : Worker} (hw : s.workers p = some w) :
    ∃ e, s.useArg p w.pc = .ok e ∧
      (w.pc.closes = true ∧ (∃ fd, s.fdOf p = some fd ∧ e = .closed fd) ∨
        w.pc.closes = false ∧ e = .silent) := by
  rw [Server.useArg]
  by_cases huses : w.pc.usesArg = true
  · -- The node is freed only when the worker has returned.
    have hlive : s.data p ≠ none := by
      intro hnone
      rw [h.joined_done p w hw (Or.inl hnone)] at huses
      cases huses
    obtain ⟨c, hc⟩ := exists_of_value hlive
    have hnode : s.node p = .ok c := by
      rw [Server.node, load_of_some hc]
      rfl
    rw [if_pos huses, hnode, ok_bind]
    cases hcloses : w.pc.closes with
    | true =>
      refine ⟨_, rfl, Or.inl ⟨rfl, c.value.newFd, ?_, rfl⟩⟩
      rw [fdOf, data, value, hc]
      rfl
    | false => exact ⟨_, rfl, Or.inr ⟨rfl, rfl⟩⟩
  · rw [if_neg huses]
    refine ⟨_, rfl, Or.inr ⟨?_, rfl⟩⟩
    cases hpc : w.pc <;> first | rfl | (rw [hpc] at huses; exact absurd rfl huses)

/-- A step of a worker fails inside `threadfunc`, or the invariant holds after
it. -/
theorem workerStep (h : Inv setup trace s ps) (p : Nat) :
    (∃ f, s.workerStep setup p = .error (.worker f)) ∨
      ∃ e s', s.workerStep setup p = .ok (e, s') ∧ Inv setup (trace ++ [e]) s' ps := by
  rw [Server.workerStep]
  cases hw : s.workers p with
  | none => exact Or.inr ⟨_, s, rfl, h.silent⟩
  | some w =>
    obtain ⟨e, huse, he⟩ := h.useArg hw
    simp only [huse, ok_bind]
    cases hstep : w.step setup.build setup.ops (setup.env p) (.worker p) s.shared with
    | error f => exact Or.inl ⟨f, rfl⟩
    | ok r =>
      obtain ⟨a, w', shared⟩ := r
      obtain ⟨hnext, -, hcompleted, -⟩ := Worker.step_moves hstep
      refine Or.inr ⟨e, _, rfl, h.workerMove hw hnext.closed_eq (fun hd => ?_) he ?_ (fun q => ?_)
        (fun q d hd => ?_) shared⟩
      · rw [hd] at hnext
        exact hnext.of_done
      · split
        · exact h.linked.modify p _
        · exact h.linked
      · split
        · by_cases hq : q = p
          · subst hq
            exact ⟨fun d => { d with bThreadCompleted := true }, fun _ => ⟨rfl, rfl⟩,
              value_modify_self _ _ _⟩
          · refine ⟨id, fun _ => ⟨rfl, rfl⟩, ?_⟩
            rw [value_modify_of_ne _ hq, Option.map_id]
            rfl
        · refine ⟨id, fun _ => ⟨rfl, rfl⟩, ?_⟩
          rw [Option.map_id]
          rfl
      · by_cases hq : q = p
        · subst hq
          rw [Function.update_self]
          show d.bThreadCompleted = w'.bThreadCompleted
          rw [hcompleted]
          by_cases hpc : w.pc = .complete
          · rw [if_pos hpc] at hd
            obtain ⟨d', -, ⟨-, rfl⟩ | ⟨hne, -⟩⟩ := exists_of_value_modify hd
            · simp [hpc]
            · exact absurd rfl hne
          · rw [if_neg hpc] at hd
            rw [h.flag q d hd, hw]
            simp [hpc]
        · rw [Function.update_of_ne hq]
          apply h.flag q d
          split at hd
          · rwa [value_modify_of_ne _ hq] at hd
          · exact hd

/-- Steps that change neither `main` nor the nodes nor the workers. -/
theorem other (h : Inv setup trace s ps) (caughtSig : Bool) {timer : TimerPc}
    (htimer : timer = .absent ↔ s.timer = .absent) (shared : Shared ThreadId σ) :
    Inv setup (trace ++ [.silent])
      { s with caughtSig := caughtSig, timer := timer, shared := shared } ps :=
  { h.silent with
    timer_absent := fun hstarted => htimer.mpr (h.timer_absent hstarted)
    threads := h.threads.alike
      { data := fun _ => Iff.rfl
        workers := fun _ => Iff.rfl
        started := rfl
        timer := htimer
        joined := rfl
        create := fun _ => Iff.rfl
        returned := Iff.rfl } (fun _ => ⟨nofun, nofun⟩) fun _ => nofun }

/-- A step of the timer thread fails at the mutex, or the invariant holds after
it. -/
theorem timerStep (h : Inv setup trace s ps) (fopenOk : Bool) (info : Tm) :
    (∃ f, s.timerStep setup fopenOk info = .error (.worker f)) ∨
      ∃ e s', s.timerStep setup fopenOk info = .ok (e, s') ∧
        Inv setup (trace ++ [e]) s' ps := by
  rw [Server.timerStep]
  cases htimer : s.timer with
  | absent => exact Or.inr ⟨_, s, rfl, h.silent⟩
  | sleep =>
    refine Or.inr ⟨_, _, rfl, h.other s.caughtSig ?_ s.shared⟩
    rw [htimer]
    cases s.caughtSig <;> exact iff_of_false nofun nofun
  | lock =>
    dsimp only
    split
    · refine Or.inr ⟨_, _, rfl, h.other s.caughtSig ?_ _⟩
      rw [htimer]
      exact iff_of_false nofun nofun
    · exact Or.inr ⟨_, s, rfl, h.silent⟩
  | write =>
    refine Or.inr ⟨_, _, rfl, h.other s.caughtSig ?_ _⟩
    rw [htimer]
    exact iff_of_false nofun nofun
  | unlock =>
    dsimp only
    cases hrelease : s.shared.release .timer with
    | error f => exact Or.inl ⟨f, rfl⟩
    | ok shared =>
      refine Or.inr ⟨_, _, rfl, h.other s.caughtSig ?_ shared⟩
      rw [htimer]
      exact iff_of_false nofun nofun
  | done => exact Or.inr ⟨_, s, rfl, h.silent⟩

/-- A step fails inside a thread, or the invariant holds after it. -/
theorem step (h : Inv setup trace s ps) (act : Act) :
    (∃ f, s.step setup act = .error (.worker f)) ∨
      ∃ e s' ps', s.step setup act = .ok (e, s') ∧ Inv setup (trace ++ [e]) s' ps' := by
  cases act with
  | main ok => exact Or.inr (h.mainStep ok)
  | worker p =>
    exact (h.workerStep p).imp_right fun ⟨e, s', hstep, h'⟩ => ⟨e, s', ps, hstep, h'⟩
  | timer fopenOk info =>
    exact (h.timerStep fopenOk info).imp_right fun ⟨e, s', hstep, h'⟩ => ⟨e, s', ps, hstep, h'⟩
  | signal => exact Or.inr ⟨_, _, ps, rfl, h.other true Iff.rfl s.shared⟩

/-- The invariant holds after a step of a worker that succeeds. -/
theorem of_workerStep (h : Inv setup trace s ps) {p : Nat} {e : LifeEvent}
    (hstep : s.workerStep setup p = .ok (e, s')) : Inv setup (trace ++ [e]) s' ps := by
  rcases h.workerStep p with ⟨f, herror⟩ | ⟨e', s'', hok, h'⟩
  · exact absurd (hstep.symm.trans herror) nofun
  · obtain ⟨rfl, rfl⟩ := Prod.mk.inj (Except.ok.inj (hok.symm.trans hstep))
    exact h'

/-- The invariant holds after a step of the timer thread that succeeds. -/
theorem of_timerStep (h : Inv setup trace s ps) {fopenOk : Bool} {info : Tm} {e : LifeEvent}
    (hstep : s.timerStep setup fopenOk info = .ok (e, s')) : Inv setup (trace ++ [e]) s' ps := by
  rcases h.timerStep fopenOk info with ⟨f, herror⟩ | ⟨e', s'', hok, h'⟩
  · exact absurd (hstep.symm.trans herror) nofun
  · obtain ⟨rfl, rfl⟩ := Prod.mk.inj (Except.ok.inj (hok.symm.trans hstep))
    exact h'

/-- A run fails inside a thread, or the invariant holds after it. -/
theorem run (h : Inv setup trace s ps) (acts : List Act) :
    (∃ f, s.run setup acts = .error (.worker f)) ∨
      ∃ events s' ps', s.run setup acts = .ok (events, s') ∧
        Inv setup (trace ++ events) s' ps' := by
  induction acts generalizing trace s ps with
  | nil =>
    refine Or.inr ⟨[], s, ps, rfl, ?_⟩
    rwa [List.append_nil]
  | cons act acts ih =>
    rcases h.step act with ⟨f, hstep⟩ | ⟨e, s₁, ps₁, hstep, h₁⟩
    · refine Or.inl ⟨f, ?_⟩
      rw [Server.run, hstep]
      rfl
    · rcases ih h₁ with ⟨f, hrun⟩ | ⟨events, s₂, ps₂, hrun, h₂⟩
      · refine Or.inl ⟨f, ?_⟩
        simp only [Server.run, hstep, ok_bind, hrun]
        rfl
      · refine Or.inr ⟨e :: events, s₂, ps₂, ?_, ?_⟩
        · simp only [Server.run, hstep, ok_bind, hrun, pure_eq_ok]
        · rwa [List.append_cons]

/-- When `main` has returned, no node is left, and what was acquired was
released once, unless `pthread_create` has failed. -/
theorem returned (h : Inv setup trace s ps) (hpc : s.pc = .returned) :
    ExactlyOnce trace ↔ ∀ id, .createFailed id ∉ trace := by
  have hplace := h.place
  have hlive := h.live
  rw [hpc] at hplace
  obtain rfl : ps = [] := hplace
  have hdata : ∀ p, s.data p = none := by
    intro p
    by_contra hp
    rw [← ne_eq, hlive, hpc] at hp
    rcases hp with hp | hp
    · cases hp
    · cases hp
  have hfds : ∀ fd, ¬ s.HoldsFd fd := by
    rintro fd (hfd | ⟨p, hp, -⟩)
    · rw [hpc] at hfd
      cases hfd
    · rw [fdOf, hdata] at hp
      cases hp
  have hthreads : ∀ id, ¬ s.Pending id := by
    intro id hid
    cases id with
    | worker p => exact hid.1 (hdata p)
    | timer => exact hid hpc
  constructor
  · intro hexact id hid
    rcases h.threads.failed id hid with hnone | ⟨-, hpending⟩
    · obtain ⟨t, ht, -⟩ := hexact.foreign none hnone
      cases ht
    · exact hthreads id hpending
  · intro hok
    constructor
    · exact fun fd hfd => (h.sockets hok).released_once hfds hfd
    · exact fun p hp => h.nodes.released_once (fun q hq => hq (hdata q)) hp
    · exact fun id hid => h.threads.ledger.released_once (fun t ht => hthreads t ht.2) hid
    · intro id hid
      cases id with
      | none =>
        obtain ⟨t, ht⟩ := h.threads.foreign hid
        exact absurd ht (hok t)
      | some t => exact ⟨t, rfl, h.threads.ledger.acquired_of_released hid⟩

end Server.Inv

/-! ## Every run -/

/-- No run uses a node that is not allocated.  When `main` has returned, every
socket was closed once, every node was freed once, every thread was joined once
and nothing else was joined, exactly if no call of `pthread_create` has failed. -/
theorem run_exactly_once_iff (setup : Setup σ) (dev : σ) (acts : List Act) :
    (∀ f, (Server.start dev).run setup acts ≠ .error (.node f)) ∧
    ∀ trace s, (Server.start dev).run setup acts = .ok (trace, s) → s.pc = .returned →
      (ExactlyOnce trace ↔ ∀ id, .createFailed id ∉ trace) := by
  rcases (Server.Inv.start setup dev).run acts with ⟨f, hrun⟩ | ⟨events, s', ps, hrun, h⟩
  · rw [hrun]
    refine ⟨fun _ heq => ?_, fun _ _ heq => ?_⟩
    · cases heq
    · cases heq
  · rw [hrun]
    refine ⟨fun _ heq => ?_, fun trace s heq hpc => ?_⟩
    · cases heq
    · obtain ⟨rfl, rfl⟩ := Prod.mk.inj (Except.ok.inj heq)
      exact h.returned hpc

end Server

/-- Clients that send nothing, on the character device. -/
def Setup.silentClients : Setup KState where
  build := charBuild .server
  ops := aesdFops ⟨4096, by decide⟩
  env _ := .succeeding []
  tick _ _ dev := dev

/-- A connection for which `pthread_create` fails, and a signal: the socket is
not closed, and `main` joins with an identifier that was never stored. -/
theorem failed_create_leaks_socket :
    ∃ (acts : List Act) (trace : List LifeEvent) (s : Server KState),
      (Server.start Driver.loaded.k).run Setup.silentClients acts = .ok (trace, s) ∧
      s.pc = .returned ∧ .accepted 0 ∈ trace ∧ trace.count (.closed 0) = 0 ∧
      .joined none ∈ trace ∧ ¬ ExactlyOnce trace := by
  have hview : ((Server.start Driver.loaded.k).run Setup.silentClients
      ([.main true, .main true, .main true, .main false, .signal] ++
        List.replicate 12 (.main true))).toOption.map (fun r => (r.1, r.2.pc)) =
      some ([.silent, .accepted 0, .allocated 0, .createFailed (.worker 0), .silent, .silent,
        .silent, .silent, .silent, .silent, .silent, .silent, .silent, .joined none, .silent,
        .freed 0, .silent], .returned) := by decide +kernel
  obtain ⟨⟨trace, s⟩, hrun, hview⟩ := exists_of_view hview
  obtain ⟨rfl, hpc⟩ := Prod.mk.inj hview
  refine ⟨_, _, s, hrun, hpc, by decide, by decide, by decide, fun hexact => ?_⟩
  obtain ⟨t, ht, -⟩ := hexact.foreign none (by decide)
  cases ht

/-- A connection that is served, and a signal. -/
theorem served_connection_exactly_once :
    ∃ (acts : List Act) (trace : List LifeEvent) (s : Server KState),
      (Server.start Driver.loaded.k).run Setup.silentClients acts = .ok (trace, s) ∧
      s.pc = .returned ∧ .accepted 0 ∈ trace ∧ .created (.worker 0) ∈ trace ∧
      ExactlyOnce trace := by
  let started : List LifeEvent := [.silent, .accepted 0, .allocated 0, .created (.worker 0)]
  let joined : List LifeEvent := [.joined (some (.worker 0)), .silent, .freed 0]
  let silent (n : Nat) : List LifeEvent := List.replicate n .silent
  let trace := started ++ silent 9 ++ LifeEvent.closed 0 :: silent 11 ++ joined ++ silent 4
  have hview : ((Server.start Driver.loaded.k).run Setup.silentClients
      (List.replicate 4 (.main true) ++ List.replicate 16 (.worker 0) ++
        .signal :: List.replicate 11 (.main true))).toOption.map (fun r => (r.1, r.2.pc)) =
      some (trace, .returned) := by decide +kernel
  obtain ⟨⟨trace', s⟩, hrun, hview⟩ := exists_of_view hview
  obtain ⟨htrace, hpc⟩ := Prod.mk.inj hview
  obtain rfl : trace' = trace := htrace
  refine ⟨_, _, s, hrun, hpc, by decide, by decide, ?_⟩
  refine ((run_exactly_once_iff Setup.silentClients _ _).2 trace s hrun hpc).mpr fun id hid => ?_
  simp [trace, started, joined, silent] at hid

end AesdChar
