import AesdChar.CodeLib.Ledger
import AesdChar.Server.ControlFlow

/-!
# The life cycle of sockets, nodes and threads

`Server.Inv` is what holds in every state of a run, together with the list that
starts at `head` and the trace so far.  Sockets, nodes and threads have a ledger
each, and `Server.Threads` also accounts for the calls of `pthread_create` that
failed.  There is one lemma for each way in which a step of `main` changes what
there is, and one for each of its steps over the list.
-/

namespace AesdChar

open CodeLib CodeLib.SList

/-! ## Accounts -/

/-- Sockets are accepted and closed. -/
def socketKind : Kind LifeEvent Nat where
  acquire := .accepted
  release := .closed
  acquire_inj _ _ h := LifeEvent.accepted.inj h
  release_inj _ _ h := LifeEvent.closed.inj h
  acquire_ne_release := by simp

/-- Nodes are allocated and freed. -/
def nodeKind : Kind LifeEvent Nat where
  acquire := .allocated
  release := .freed
  acquire_inj _ _ h := LifeEvent.allocated.inj h
  release_inj _ _ h := LifeEvent.freed.inj h
  acquire_ne_release := by simp

/-- Threads are created and joined. -/
def threadKind : Kind LifeEvent ThreadId where
  acquire := .created
  release id := .joined (some id)
  acquire_inj _ _ h := LifeEvent.created.inj h
  release_inj _ _ h := Option.some.inj (LifeEvent.joined.inj h)
  acquire_ne_release := by simp

/-- Every socket was closed once, every node was freed once, every thread was
joined once, and nothing else was joined. -/
structure ExactlyOnce (trace : List LifeEvent) : Prop where
  closed : ∀ fd, .accepted fd ∈ trace → trace.count (.closed fd) = 1
  freed : ∀ p, .allocated p ∈ trace → trace.count (.freed p) = 1
  joined : ∀ id, .created id ∈ trace → trace.count (.joined (some id)) = 1
  foreign : ∀ id, .joined id ∈ trace → ∃ t, id = some t ∧ .created t ∈ trace

/-! ## The invariant -/

/-- The socket that `main` has in hand. -/
def MainPc.newFd : MainPc → Option Nat
  | .malloc newFd | .closeFd newFd => some newFd
  | _ => none

/-- The node that `main` has in hand and that is not in the list. -/
def MainPc.outside : MainPc → Option Nat
  | .create p | .insert p | .free _ p _ => some p
  | _ => none

/-- The node whose thread `main` has just joined. -/
def MainPc.joined : MainPc → Option Nat
  | .remove _ p _ | .free _ p _ => some p
  | _ => none

/-- Where the pointers of `main` are in the list `ps`.  The last loop leaves
nothing behind it. -/
def MainPc.At (ps : List Nat) : MainPc → Prop
  | .walk loop datap =>
    ∃ pre post, ps = pre ++ post ∧ datap = post.head? ∧ (loop = .drain → pre = [])
  | .test datap tmp => ∃ pre post, ps = pre ++ datap :: post ∧ tmp = post.head?
  | .join loop datap tmp | .remove loop datap tmp =>
    ∃ pre post, ps = pre ++ datap :: post ∧ tmp = post.head? ∧ (loop = .drain → pre = [])
  | .free loop _ tmp =>
    ∃ pre post, ps = pre ++ post ∧ tmp = post.head? ∧ (loop = .drain → pre = [])
  | .joinTimer | .returned => ps = []
  | _ => True

section Server

variable {σ : Type} {setup : Setup σ} {trace : List LifeEvent} {s s' : Server σ} {ps : List Nat}

/-- What a node holds. -/
def Server.data (s : Server σ) (p : Nat) : Option ThreadData := value s.nodes p

/-- The socket of a node. -/
def Server.fdOf (s : Server σ) (p : Nat) : Option Nat := (s.data p).map ThreadData.newFd

/-- A socket that somebody still has to close. -/
def Server.HoldsFd (s : Server σ) (fd : Nat) : Prop :=
  s.pc.newFd = some fd ∨
    ∃ p, s.fdOf p = some fd ∧ ∀ w, s.workers p = some w → w.pc.closed = false

/-- The thread was created. -/
def Server.Made (s : Server σ) : ThreadId → Prop
  | .worker p => s.workers p ≠ none
  | .timer => s.timer ≠ .absent

/-- `main` should have created the thread, and did not. -/
def Server.Unstarted (s : Server σ) : ThreadId → Prop
  | .worker p => s.data p ≠ none ∧ s.workers p = none ∧ s.pc ≠ .create p
  | .timer => s.bTimerStarted = true ∧ s.timer = .absent

/-- `main` still has to join the thread. -/
def Server.Pending (s : Server σ) : ThreadId → Prop
  | .worker p => s.data p ≠ none ∧ s.pc.joined ≠ some p
  | .timer => s.pc ≠ .returned

/-- The trace agrees with what was created, what failed and what was joined. -/
structure Server.Threads (trace : List LifeEvent) (s : Server σ) : Prop where
  ledger : Ledger threadKind s.Made (fun id => s.Made id ∧ s.Pending id) trace
  unstarted : ∀ id, s.Unstarted id → .createFailed id ∈ trace
  failed : ∀ id, .createFailed id ∈ trace → .joined none ∈ trace ∨ s.Unstarted id ∧ s.Pending id
  foreign : .joined none ∈ trace → ∃ id, .createFailed id ∈ trace

/-- What holds in every state, with the list `ps` and the trace so far. -/
structure Server.Inv (setup : Setup σ) (trace : List LifeEvent) (s : Server σ) (ps : List Nat) :
    Prop where
  linked : Linked s.nodes s.head ps
  nodup : ps.Nodup
  live : ∀ p, s.data p ≠ none ↔ p ∈ ps ∨ s.pc.outside = some p
  outside : ∀ p, s.pc.outside = some p → p ∉ ps
  place : s.pc.At ps
  node_lt : ∀ p, s.data p ≠ none ∨ s.workers p ≠ none → p < s.mallocs
  uncreated : ∀ p, s.pc = .create p → s.workers p = none
  threadId : ∀ p d, s.data p = some d → d.threadId = (s.workers p).map fun _ => .worker p
  flag : ∀ p d, s.data p = some d →
    d.bThreadCompleted = (s.workers p).any Worker.bThreadCompleted
  fd_lt : ∀ p fd, s.fdOf p = some fd → fd < s.fds
  fd_inj : ∀ p q fd, s.fdOf p = some fd → s.fdOf q = some fd → p = q
  fd_pc : ∀ fd, s.pc.newFd = some fd → fd < s.fds ∧ ∀ p, s.fdOf p ≠ some fd
  joined_done : ∀ p w, s.workers p = some w → s.data p = none ∨ s.pc.joined = some p →
    w.pc = .done
  timer_absent : s.bTimerStarted = false → s.timer = .absent
  noTimer : setup.build.charDevice = true → s.bTimerStarted = false ∧ s.pc ≠ .startTimer
  sockets : (∀ id, .createFailed id ∉ trace) → Ledger socketKind (· < s.fds) s.HoldsFd trace
  nodes : Ledger nodeKind (· < s.mallocs) (fun p => s.data p ≠ none) trace
  threads : s.Threads trace

/-! ## Steps that leave the threads alone -/

/-- No thread was created or joined in between. -/
structure Server.Alike (s s' : Server σ) : Prop where
  data : ∀ p, s'.data p = none ↔ s.data p = none
  workers : ∀ p, s'.workers p = none ↔ s.workers p = none
  started : s'.bTimerStarted = s.bTimerStarted
  timer : s'.timer = .absent ↔ s.timer = .absent
  joined : s'.pc.joined = s.pc.joined
  create : ∀ p, s'.pc = .create p ↔ s.pc = .create p
  returned : s'.pc = .returned ↔ s.pc = .returned

theorem Server.Alike.made (h : Alike s s') (id : ThreadId) : s'.Made id ↔ s.Made id := by
  cases id with
  | worker p => exact not_congr (h.workers p)
  | timer => exact not_congr h.timer

theorem Server.Alike.unstarted (h : Alike s s') (id : ThreadId) :
    s'.Unstarted id ↔ s.Unstarted id := by
  cases id with
  | worker p =>
    exact and_congr (not_congr (h.data p)) (and_congr (h.workers p) (not_congr (h.create p)))
  | timer =>
    show s'.bTimerStarted = true ∧ _ ↔ _
    rw [h.started]
    exact and_congr_right fun _ => h.timer

theorem Server.Alike.pending (h : Alike s s') (id : ThreadId) : s'.Pending id ↔ s.Pending id := by
  cases id with
  | worker p =>
    show _ ∧ s'.pc.joined ≠ some p ↔ _
    rw [h.joined]
    exact and_congr_left fun _ => not_congr (h.data p)
  | timer => exact not_congr h.returned

/-- What `main` missed before it went on. -/
theorem Server.Unstarted.of_pc {pc : MainPc} {id : ThreadId}
    (h : { s with pc := pc }.Unstarted id) (hcreate : ∀ p, s.pc ≠ .create p) : s.Unstarted id := by
  cases id with
  | worker p => exact ⟨h.1, h.2.1, hcreate p⟩
  | timer => exact h

/-- The threads are accounted for after an event that is no failure. -/
theorem Server.Threads.of_ledger {e : LifeEvent} (h : s.Threads trace)
    (he : ∀ id, e ≠ .createFailed id) (he' : e ≠ .joined none)
    (hledger : Ledger threadKind s'.Made (fun id => s'.Made id ∧ s'.Pending id) (trace ++ [e]))
    (hunstarted : ∀ id, s'.Unstarted id → s.Unstarted id)
    (hfailed : ∀ id, s.Unstarted id → s.Pending id → s'.Unstarted id ∧ s'.Pending id) :
    s'.Threads (trace ++ [e]) where
  ledger := hledger
  unstarted id hid := List.mem_append_left _ (h.unstarted id (hunstarted id hid))
  failed id hid := by
    rcases List.mem_append.mp hid with hid | hid
    · exact (h.failed id hid).imp (List.mem_append_left _) fun hp => hfailed id hp.1 hp.2
    · exact absurd (List.mem_singleton.mp hid).symm (he id)
  foreign hid := by
    rcases List.mem_append.mp hid with hid | hid
    · obtain ⟨id, hid⟩ := h.foreign hid
      exact ⟨id, List.mem_append_left _ hid⟩
    · exact absurd (List.mem_singleton.mp hid).symm he'

/-- The threads are accounted for after a failure of `pthread_create`. -/
theorem Server.Threads.of_failure {id : ThreadId} (h : s.Threads trace)
    (hledger : Ledger threadKind s'.Made (fun id => s'.Made id ∧ s'.Pending id)
      (trace ++ [.createFailed id]))
    (hunstarted : ∀ t, s'.Unstarted t → t = id ∨ s.Unstarted t)
    (hfailed : ∀ t, t = id ∨ s.Unstarted t ∧ s.Pending t → s'.Unstarted t ∧ s'.Pending t) :
    s'.Threads (trace ++ [.createFailed id]) where
  ledger := hledger
  unstarted t ht := by
    rcases hunstarted t ht with rfl | ht
    · exact List.mem_append_right _ (List.mem_singleton.mpr rfl)
    · exact List.mem_append_left _ (h.unstarted t ht)
  failed t ht := by
    rw [List.mem_append, List.mem_singleton, LifeEvent.createFailed.injEq] at ht
    rcases ht with ht | ht
    · exact (h.failed t ht).imp (List.mem_append_left _) fun hp => hfailed t (Or.inr hp)
    · exact Or.inr (hfailed t (Or.inl ht))
  foreign _ := ⟨id, List.mem_append_right _ (List.mem_singleton.mpr rfl)⟩

/-- The threads are accounted for after `pthread_join` for a thread that was not
created. -/
theorem Server.Threads.of_foreign (h : s.Threads trace)
    (hledger : Ledger threadKind s'.Made (fun id => s'.Made id ∧ s'.Pending id)
      (trace ++ [.joined none]))
    (hunstarted : ∀ t, s'.Unstarted t → s.Unstarted t) {t : ThreadId} (ht : s.Unstarted t) :
    s'.Threads (trace ++ [.joined none]) where
  ledger := hledger
  unstarted t ht := List.mem_append_left _ (h.unstarted t (hunstarted t ht))
  failed _ _ := Or.inl (List.mem_append_right _ (List.mem_singleton.mpr rfl))
  foreign _ := ⟨t, List.mem_append_left _ (h.unstarted t ht)⟩

/-- The threads are accounted for after an event that is about something else. -/
theorem Server.Threads.alike {e : LifeEvent} (h : s.Threads trace) (hs : Alike s s')
    (he : ∀ id, e ≠ .created id ∧ e ≠ .createFailed id) (he' : ∀ id, e ≠ .joined id) :
    s'.Threads (trace ++ [e]) := by
  apply h.of_ledger (fun id => (he id).2) (he' none)
  · exact h.ledger.other (fun id => ((he id).1).symm) (fun id => (he' (some id)).symm) hs.made
      fun id => and_congr (hs.made id) (hs.pending id)
  · exact fun id => (hs.unstarted id).mp
  · exact fun id hun hp => ⟨(hs.unstarted id).mpr hun, (hs.pending id).mpr hp⟩

/-- The threads are accounted for after `malloc`. -/
theorem Server.Threads.allocated (h : s.Threads trace) {q newFd : Nat}
    (hpc : s.pc = .malloc newFd) (hnew : s.data q = none ∧ s.workers q = none)
    (hdata : ∀ p, s'.data p ≠ none ↔ s.data p ≠ none ∨ p = q) (hpc' : s'.pc = .create q)
    (hworkers : s'.workers = s.workers) (htimer : s'.timer = s.timer)
    (hstarted : s'.bTimerStarted = s.bTimerStarted) : s'.Threads (trace ++ [.allocated q]) := by
  apply h.of_ledger (by simp) (by simp)
  · refine h.ledger.other (fun _ => nofun) (fun _ => nofun) (fun id => ?_) fun id => ?_
    · cases id with
      | worker p => rw [Made, Made, hworkers]
      | timer => rw [Made, Made, htimer]
    · cases id with
      | worker p =>
        rw [Made, Made, hworkers]
        refine and_congr_right fun hmade => ?_
        have hne : p ≠ q := by
          rintro rfl
          exact hmade hnew.2
        rw [Pending, Pending, hdata, hpc, hpc']
        exact and_congr_left fun _ => or_iff_left hne
      | timer =>
        rw [Made, Made, htimer, Pending, Pending, hpc, hpc']
        exact and_congr_right fun _ => iff_of_true nofun nofun
  · intro id hid
    cases id with
    | worker p =>
      rw [Unstarted, hdata, hworkers, hpc'] at hid
      have hne : p ≠ q := fun hp => hid.2.2 (by rw [hp])
      refine ⟨hid.1.resolve_right hne, hid.2.1, ?_⟩
      rw [hpc]
      nofun
    | timer => rwa [Unstarted, hstarted, htimer] at hid
  · intro id hunstarted hpending
    cases id with
    | worker p =>
      have hne : p ≠ q := by
        rintro rfl
        exact hunstarted.1 hnew.1
      rw [Unstarted, Pending, hdata, hworkers, hpc']
      exact ⟨⟨Or.inl hunstarted.1, hunstarted.2.1, fun hp => hne (MainPc.create.inj hp).symm⟩,
        Or.inl hunstarted.1, nofun⟩
    | timer =>
      rw [Unstarted, Pending, hstarted, htimer, hpc']
      exact ⟨hunstarted, nofun⟩

/-- The threads are accounted for after `pthread_create`. -/
theorem Server.Threads.created (h : s.Threads trace) {q : Nat} (hpc : s.pc = .create q)
    (hnode : s.data q ≠ none) (hworker : s.workers q = none)
    (hdata : ∀ p, s'.data p = none ↔ s.data p = none) (hpc' : s'.pc = .insert q)
    (hworkers : s'.workers = Function.update s.workers q (some .start))
    (htimer : s'.timer = s.timer) (hstarted : s'.bTimerStarted = s.bTimerStarted) :
    s'.Threads (trace ++ [.created (.worker q)]) := by
  have hmade : ∀ p, s'.workers p ≠ none ↔ s.workers p ≠ none ∨ p = q := by
    intro p
    rw [hworkers]
    by_cases hp : p = q
    · rw [hp, Function.update_self]
      exact iff_of_true nofun (Or.inr rfl)
    · rw [Function.update_of_ne hp]
      exact (or_iff_left hp).symm
  have hother : ∀ p, p ≠ q → s'.workers p = s.workers p := fun p hp => by
    rw [hworkers, Function.update_of_ne hp]
  apply h.of_ledger (by simp) (by simp)
  · refine h.ledger.acquire (fun hw => hw hworker) (fun id => ?_) fun id => ?_
    · cases id with
      | worker p => exact (hmade p).trans (or_congr Iff.rfl (by simp))
      | timer =>
        rw [Made, Made, htimer]
        exact (or_iff_left nofun).symm
    · cases id with
      | worker p =>
        rw [Pending, Pending, ne_eq, ne_eq, hdata, hpc, hpc']
        by_cases hp : p = q
        · subst hp
          exact iff_of_true ⟨(hmade p).mpr (Or.inr rfl), hnode, nofun⟩ (Or.inr rfl)
        · refine Iff.trans ?_ (or_iff_left fun hid => hp (ThreadId.worker.inj hid)).symm
          exact and_congr_left fun _ => (hmade p).trans (or_iff_left hp)
      | timer =>
        rw [Made, Made, htimer, Pending, Pending, hpc, hpc']
        refine Iff.trans ?_ (or_iff_left nofun).symm
        exact and_congr_right fun _ => iff_of_true nofun nofun
  · intro id hid
    cases id with
    | worker p =>
      have hne : p ≠ q := by
        rintro rfl
        exact (hmade p).mpr (Or.inr rfl) hid.2.1
      rw [Unstarted, hother p hne, ne_eq, hdata] at hid
      refine ⟨hid.1, hid.2.1, fun hp => ?_⟩
      rw [hpc] at hp
      exact hne (MainPc.create.inj hp).symm
    | timer => rwa [Unstarted, hstarted, htimer] at hid
  · intro id hunstarted hpending
    cases id with
    | worker p =>
      have hne : p ≠ q := by
        rintro rfl
        exact hunstarted.2.2 hpc
      rw [Unstarted, Pending, hother p hne, ne_eq, hdata, hpc']
      exact ⟨⟨hunstarted.1, hunstarted.2.1, nofun⟩, hunstarted.1, nofun⟩
    | timer =>
      rw [Unstarted, Pending, hstarted, htimer, hpc']
      exact ⟨hunstarted, nofun⟩

/-- The threads are accounted for after `free`. -/
theorem Server.Threads.freed (h : s.Threads trace) {loop : Loop} {q : Nat} {tmp : Option Nat}
    (hpc : s.pc = .free loop q tmp)
    (hdata : ∀ p, s'.data p ≠ none ↔ s.data p ≠ none ∧ p ≠ q) (hpc' : s'.pc = .walk loop tmp)
    (hworkers : s'.workers = s.workers) (htimer : s'.timer = s.timer)
    (hstarted : s'.bTimerStarted = s.bTimerStarted) : s'.Threads (trace ++ [.freed q]) := by
  apply h.of_ledger (by simp) (by simp)
  · refine h.ledger.other (fun _ => nofun) (fun _ => nofun) (fun id => ?_) fun id => ?_
    · cases id with
      | worker p => rw [Made, Made, hworkers]
      | timer => rw [Made, Made, htimer]
    · cases id with
      | worker p =>
        rw [Made, Made, hworkers, Pending, Pending, hdata, hpc, hpc', and_assoc]
        show _ ∧ _ ∧ p ≠ q ∧ none ≠ some p ↔ _ ∧ _ ∧ some q ≠ some p
        simp [eq_comm]
      | timer =>
        rw [Made, Made, htimer, Pending, Pending, hpc, hpc']
        exact and_congr_right fun _ => iff_of_true nofun nofun
  · intro id hid
    cases id with
    | worker p =>
      rw [Unstarted, hdata, hworkers] at hid
      refine ⟨hid.1.1, hid.2.1, ?_⟩
      rw [hpc]
      nofun
    | timer => rwa [Unstarted, hstarted, htimer] at hid
  · intro id hunstarted hpending
    cases id with
    | worker p =>
      have hne : p ≠ q := by
        rintro rfl
        exact hpending.2 (by rw [hpc]; rfl)
      rw [Unstarted, Pending, hdata, hworkers, hpc']
      exact ⟨⟨⟨hunstarted.1, hne⟩, hunstarted.2.1, nofun⟩, ⟨hunstarted.1, hne⟩, nofun⟩
    | timer =>
      rw [Unstarted, Pending, hstarted, htimer, hpc']
      exact ⟨hunstarted, nofun⟩

/-- No failure so far, and no failure now. -/
theorem no_failure {e : LifeEvent} (h : ∀ id, .createFailed id ∉ trace ++ [e])
    (id : ThreadId) : .createFailed id ∉ trace :=
  fun hid => h id (List.mem_append_left _ hid)

namespace Server.Inv

theorem start (setup : Setup σ) (dev : σ) : Inv setup [] (Server.start dev) [] where
  linked := .nil
  nodup := .nil
  live p := by simp [Server.start, data, MainPc.outside]
  outside _ h := by cases h
  place := trivial
  node_lt p h := by simp [Server.start, data] at h
  uncreated _ h := by cases h
  threadId _ _ h := by cases h
  flag _ _ h := by cases h
  fd_lt _ _ h := by cases h
  fd_inj _ _ _ h := by cases h
  fd_pc _ h := by cases h
  joined_done _ _ h := by cases h
  timer_absent _ := rfl
  noTimer _ := ⟨rfl, nofun⟩
  sockets _ := Ledger.empty (fun _ => Nat.not_lt_zero _)
    (by simp [HoldsFd, Server.start, fdOf, data, value, MainPc.newFd])
  nodes := Ledger.empty (fun _ => Nat.not_lt_zero _) (by simp [Server.start, data])
  threads := {
    ledger := Ledger.empty (by rintro (_ | _) <;> simp [Server.start, Made])
      (by rintro (_ | _) <;> simp [Server.start, Made])
    unstarted := fun id h => by cases id <;> simp [Unstarted, Server.start, data] at h
    failed := nofun
    foreign := nofun }

/-- Nothing happens. -/
theorem silent (h : Inv setup trace s ps) : Inv setup (trace ++ [.silent]) s ps :=
  { h with
    sockets := fun hok => (h.sockets (no_failure hok)).other (fun _ => nofun) (fun _ => nofun)
      (fun _ => Iff.rfl) fun _ => Iff.rfl
    nodes := h.nodes.other (fun _ => nofun) (fun _ => nofun) (fun _ => Iff.rfl) fun _ => Iff.rfl
    threads := h.threads.alike
      ⟨fun _ => Iff.rfl, fun _ => Iff.rfl, rfl, Iff.rfl, rfl, fun _ => Iff.rfl, Iff.rfl⟩
      (fun _ => ⟨nofun, nofun⟩) fun _ => nofun }

/-- `main` goes on with the same socket in hand.  It may link the nodes in another
way, with the nodes in the list and in its hand the same. -/
theorem move (h : Inv setup trace s ps) {pc : MainPc} {e : LifeEvent} {ps' : List Nat}
    {nodes : Store Nat ThreadData} {head : Option Nat} (hlinked : Linked nodes head ps')
    (hnodup : ps'.Nodup) (hvalue : ∀ p, value nodes p = s.data p)
    (hlive : ∀ p, p ∈ ps' ∨ pc.outside = some p ↔ p ∈ ps ∨ s.pc.outside = some p)
    (houtside : ∀ p, pc.outside = some p → p ∉ ps') (hplace : pc.At ps')
    (hfd : pc.newFd = s.pc.newFd) (hcreate : ∀ p, pc ≠ .create p)
    (hjoined : ∀ p w, s.workers p = some w → pc.joined = some p → w.pc = .done)
    (htimer : setup.build.charDevice = true → pc ≠ .startTimer)
    (hsocket : ∀ fd, socketKind.acquire fd ≠ e ∧ socketKind.release fd ≠ e)
    (hnode : ∀ p, nodeKind.acquire p ≠ e ∧ nodeKind.release p ≠ e)
    (hthreads : { s with pc := pc, nodes := nodes, head := head }.Threads (trace ++ [e])) :
    Inv setup (trace ++ [e]) { s with pc := pc, nodes := nodes, head := head } ps' := by
  have hfdOf : ∀ p, (value nodes p).map ThreadData.newFd = s.fdOf p := fun p => by
    rw [hvalue, fdOf]
  exact
  { linked := hlinked
    nodup := hnodup
    live := fun p => by
      show value nodes p ≠ none ↔ _
      rw [hvalue, h.live]
      exact (hlive p).symm
    outside := houtside
    place := hplace
    node_lt := fun p hp => h.node_lt p (hp.elim
      (fun hd => Or.inl fun hnone => hd ((hvalue p).trans hnone)) Or.inr)
    uncreated := fun p hp => absurd hp (hcreate p)
    threadId := fun p d hd => h.threadId p d ((hvalue p).symm.trans hd)
    flag := fun p d hd => h.flag p d ((hvalue p).symm.trans hd)
    fd_lt := fun p fd hp => h.fd_lt p fd ((hfdOf p).symm.trans hp)
    fd_inj := fun p q fd hp hq =>
      h.fd_inj p q fd ((hfdOf p).symm.trans hp) ((hfdOf q).symm.trans hq)
    fd_pc := fun fd hp => by
      obtain ⟨hlt, hne⟩ := h.fd_pc fd (hfd ▸ hp)
      exact ⟨hlt, fun p hp => hne p ((hfdOf p).symm.trans hp)⟩
    joined_done := fun p w hw hp => hp.elim
      (fun hnone => h.joined_done p w hw (Or.inl ((hvalue p).symm.trans hnone))) (hjoined p w hw)
    timer_absent := h.timer_absent
    noTimer := fun hchar => ⟨(h.noTimer hchar).1, htimer hchar⟩
    sockets := fun hok => by
      refine (h.sockets (no_failure hok)).other (fun fd => (hsocket fd).1)
        (fun fd => (hsocket fd).2) (fun _ => Iff.rfl) fun fd => ?_
      refine or_congr (by rw [hfd]) (exists_congr fun p => and_congr_left fun _ => ?_)
      show (value nodes p).map _ = _ ↔ _
      rw [hfdOf]
    nodes := h.nodes.other (fun p => (hnode p).1) (fun p => (hnode p).2) (fun _ => Iff.rfl)
      fun p => not_congr (by show value nodes p = none ↔ _; rw [hvalue])
    threads := hthreads }

/-- `main` goes on, with the same things in hand. -/
theorem relink (h : Inv setup trace s ps) {pc : MainPc} {ps' : List Nat}
    {nodes : Store Nat ThreadData} {head : Option Nat} (hlinked : Linked nodes head ps')
    (hnodup : ps'.Nodup) (hvalue : ∀ p, value nodes p = s.data p)
    (hlive : ∀ p, p ∈ ps' ∨ pc.outside = some p ↔ p ∈ ps ∨ s.pc.outside = some p)
    (houtside : ∀ p, pc.outside = some p → p ∉ ps') (hplace : pc.At ps')
    (hhand : pc.newFd = s.pc.newFd ∧ pc.joined = s.pc.joined)
    (hcreate : ∀ p, pc ≠ .create p ∧ s.pc ≠ .create p)
    (hend : pc ≠ .returned ∧ s.pc ≠ .returned)
    (htimer : setup.build.charDevice = true → pc ≠ .startTimer) :
    Inv setup (trace ++ [.silent]) { s with pc := pc, nodes := nodes, head := head } ps' := by
  have hdone (p : Nat) (w : Worker) (hw : s.workers p = some w) (hp : pc.joined = some p) :
      w.pc = .done := h.joined_done p w hw (Or.inr (by rw [← hhand.2, hp]))
  refine h.move (e := .silent) hlinked hnodup hvalue hlive houtside hplace hhand.1
    (fun p => (hcreate p).1) hdone htimer (fun _ => ⟨nofun, nofun⟩) (fun _ => ⟨nofun, nofun⟩) ?_
  refine h.threads.alike (e := .silent) ?_ (fun _ => ⟨nofun, nofun⟩) fun _ => nofun
  exact
  { data := fun p => by show value nodes p = none ↔ _; rw [hvalue]
    workers := fun _ => Iff.rfl
    started := rfl
    timer := Iff.rfl
    joined := hhand.2
    create := fun p => iff_of_false (hcreate p).1 (hcreate p).2
    returned := iff_of_false hend.1 hend.2 }

/-- `main` goes on, and leaves the list as it is. -/
theorem goto (h : Inv setup trace s ps) {pc₀ pc : MainPc} (hpc : s.pc = pc₀) (hplace : pc.At ps)
    (hhand : pc.outside = pc₀.outside ∧ pc.newFd = pc₀.newFd ∧ pc.joined = pc₀.joined := by
      exact ⟨rfl, rfl, rfl⟩)
    (hcreate : ∀ p, pc ≠ .create p ∧ pc₀ ≠ .create p := by simp)
    (hend : pc ≠ .returned ∧ pc₀ ≠ .returned := by simp)
    (htimer : setup.build.charDevice = true → pc ≠ .startTimer := by simp) :
    Inv setup (trace ++ [.silent]) { s with pc := pc } ps := by
  subst hpc
  exact h.relink h.linked h.nodup (fun _ => rfl) (fun p => by rw [hhand.1])
    (fun p hp => h.outside p (hhand.1 ▸ hp)) hplace hhand.2 hcreate hend htimer

/-- A connection is accepted. -/
theorem accept (h : Inv setup trace s ps) (hpc : s.pc = .accept) :
    Inv setup (trace ++ [.accepted s.fds])
      { s with pc := .malloc s.fds, fds := s.fds + 1 } ps := by
  obtain ⟨pc, caughtSig, head, nodes, fds, mallocs, workers, bTimerStarted, timer, shared⟩ := s
  subst hpc
  exact
  { linked := h.linked
    nodup := h.nodup
    live := h.live
    outside := h.outside
    place := trivial
    node_lt := h.node_lt
    uncreated := nofun
    threadId := h.threadId
    flag := h.flag
    fd_lt := fun p fd hp => Nat.lt_succ_of_lt (h.fd_lt p fd hp)
    fd_inj := h.fd_inj
    fd_pc := fun fd hfd => by
      obtain rfl := Option.some.inj hfd
      exact ⟨Nat.lt_succ_self _, fun p hp => Nat.lt_irrefl _ (h.fd_lt p _ hp)⟩
    joined_done := h.joined_done
    timer_absent := h.timer_absent
    noTimer := fun hchar => ⟨(h.noTimer hchar).1, nofun⟩
    sockets := fun hok => by
      refine (h.sockets (no_failure hok)).acquire (Nat.lt_irrefl _)
        (fun fd => Nat.lt_succ_iff_lt_or_eq) fun fd => ?_
      constructor
      · rintro (hfd | hfd)
        · exact Or.inr (Option.some.inj hfd).symm
        · exact Or.inl (Or.inr hfd)
      · rintro ((hfd | hfd) | rfl)
        · cases hfd
        · exact Or.inr hfd
        · exact Or.inl rfl
    nodes := h.nodes.other (fun _ => nofun) (fun _ => nofun) (fun _ => Iff.rfl) fun _ => Iff.rfl
    threads := h.threads.alike
      ⟨fun _ => Iff.rfl, fun _ => Iff.rfl, rfl, Iff.rfl, rfl, fun _ => iff_of_false nofun nofun,
        iff_of_false nofun nofun⟩ (fun _ => ⟨nofun, nofun⟩) fun _ => nofun }

/-- A socket for which there is no node is closed. -/
theorem closeFd (h : Inv setup trace s ps) {newFd : Nat} (hpc : s.pc = .closeFd newFd) :
    Inv setup (trace ++ [.closed newFd]) { s with pc := .loopHead } ps := by
  obtain ⟨pc, caughtSig, head, nodes, fds, mallocs, workers, bTimerStarted, timer, shared⟩ := s
  subst hpc
  exact
  { linked := h.linked
    nodup := h.nodup
    live := h.live
    outside := h.outside
    place := trivial
    node_lt := h.node_lt
    uncreated := nofun
    threadId := h.threadId
    flag := h.flag
    fd_lt := h.fd_lt
    fd_inj := h.fd_inj
    fd_pc := nofun
    joined_done := h.joined_done
    timer_absent := h.timer_absent
    noTimer := fun hchar => ⟨(h.noTimer hchar).1, nofun⟩
    sockets := fun hok => by
      refine (h.sockets (no_failure hok)).release (Or.inl rfl) (fun fd => Iff.rfl) fun fd => ?_
      constructor
      · rintro (hfd | ⟨p, hp, hopen⟩)
        · cases hfd
        · refine ⟨Or.inr ⟨p, hp, hopen⟩, ?_⟩
          rintro rfl
          exact (h.fd_pc fd rfl).2 p hp
      · rintro ⟨hfd | hfd, hne⟩
        · exact absurd (Option.some.inj hfd).symm hne
        · exact Or.inr hfd
    nodes := h.nodes.other (fun _ => nofun) (fun _ => nofun) (fun _ => Iff.rfl) fun _ => Iff.rfl
    threads := h.threads.alike
      ⟨fun _ => Iff.rfl, fun _ => Iff.rfl, rfl, Iff.rfl, rfl, fun _ => iff_of_false nofun nofun,
        iff_of_false nofun nofun⟩ (fun _ => ⟨nofun, nofun⟩) fun _ => nofun }

/-- A node is allocated for the socket. -/
theorem malloc (h : Inv setup trace s ps) {newFd : Nat} (hpc : s.pc = .malloc newFd) :
    Inv setup (trace ++ [.allocated s.mallocs])
      { s with
        pc := .create s.mallocs
        mallocs := s.mallocs + 1
        nodes := Function.update s.nodes s.mallocs (some ⟨⟨newFd, false, none⟩, none⟩) } ps := by
  obtain ⟨pc, caughtSig, head, nodes, fds, mallocs, workers, bTimerStarted, timer, shared⟩ := s
  subst hpc
  -- The number of the new node was not used before.
  have hnew : value nodes mallocs = none ∧ workers mallocs = none := by
    constructor
    · by_contra hd
      exact Nat.lt_irrefl _ (h.node_lt mallocs (Or.inl hd))
    · by_contra hw
      exact Nat.lt_irrefl _ (h.node_lt mallocs (Or.inr hw))
  have hmem : mallocs ∉ ps := fun hm => (h.live mallocs).mpr (Or.inl hm) hnew.1
  let nodes' := Function.update nodes mallocs (some ⟨⟨newFd, false, none⟩, none⟩)
  have hself : value nodes' mallocs = some ⟨newFd, false, none⟩ := value_update_self _ _ _
  have hother : ∀ p, p ≠ mallocs → value nodes' p = value nodes p :=
    fun p hp => value_update_of_ne _ hp _
  have hdata : ∀ p, value nodes' p ≠ none ↔ value nodes p ≠ none ∨ p = mallocs := by
    intro p
    by_cases hp : p = mallocs
    · rw [hp, hself]
      exact iff_of_true nofun (Or.inr rfl)
    · rw [hother p hp]
      exact (or_iff_left hp).symm
  have hfd : ∀ p fd, (value nodes' p).map ThreadData.newFd = some fd ↔
      (value nodes p).map ThreadData.newFd = some fd ∨ p = mallocs ∧ fd = newFd := by
    intro p fd
    by_cases hp : p = mallocs
    · rw [hp, hself, hnew.1]
      exact ⟨fun hfd => Or.inr ⟨rfl, (Option.some.inj hfd).symm⟩,
        fun hfd => congrArg some (hfd.resolve_left nofun).2.symm⟩
    · rw [hother p hp]
      exact (or_iff_left fun hfd => hp hfd.1).symm
  exact
  { linked := h.linked.update hmem _
    nodup := h.nodup
    live := fun p => by
      show value nodes' p ≠ none ↔ p ∈ ps ∨ some mallocs = some p
      rw [hdata, show value nodes p ≠ none ↔ p ∈ ps ∨ none = some p from h.live p]
      simp [eq_comm]
    outside := fun p hp => by
      obtain rfl := Option.some.inj hp
      exact hmem
    place := trivial
    node_lt := fun p hp => by
      rcases hp with hp | hp
      · rcases (hdata p).mp hp with hp | rfl
        · exact Nat.lt_succ_of_lt (h.node_lt p (Or.inl hp))
        · exact Nat.lt_succ_self _
      · exact Nat.lt_succ_of_lt (h.node_lt p (Or.inr hp))
    uncreated := fun p hp => by
      obtain rfl := MainPc.create.inj hp
      exact hnew.2
    threadId := fun p d hd => by
      by_cases hp : p = mallocs
      · obtain rfl := Option.some.inj (hself.symm.trans (hp ▸ hd))
        show none = (workers p).map _
        rw [hp, hnew.2]
        rfl
      · exact h.threadId p d ((hother p hp).symm.trans hd)
    flag := fun p d hd => by
      by_cases hp : p = mallocs
      · obtain rfl := Option.some.inj (hself.symm.trans (hp ▸ hd))
        show false = (workers p).any _
        rw [hp, hnew.2]
        rfl
      · exact h.flag p d ((hother p hp).symm.trans hd)
    fd_lt := fun p fd hp => by
      rcases (hfd p fd).mp hp with hp | ⟨-, rfl⟩
      · exact h.fd_lt p fd hp
      · exact (h.fd_pc fd rfl).1
    fd_inj := fun p q fd hp hq => by
      rcases (hfd p fd).mp hp with hp' | ⟨hp', rfl⟩
      · rcases (hfd q fd).mp hq with hq' | ⟨-, rfl⟩
        · exact h.fd_inj p q fd hp' hq'
        · exact absurd hp' ((h.fd_pc fd rfl).2 p)
      · rcases (hfd q fd).mp hq with hq' | ⟨hq', -⟩
        · exact absurd hq' ((h.fd_pc fd rfl).2 q)
        · rw [hp', hq']
    fd_pc := nofun
    joined_done := fun p w hw hp => by
      rcases hp with hp | hp
      · refine h.joined_done p w hw (Or.inl ?_)
        by_contra hd
        exact (hdata p).mpr (Or.inl hd) hp
      · cases hp
    timer_absent := h.timer_absent
    noTimer := fun hchar => ⟨(h.noTimer hchar).1, nofun⟩
    sockets := fun hok => by
      refine (h.sockets (no_failure hok)).other (fun _ => nofun) (fun _ => nofun)
        (fun _ => Iff.rfl) fun fd => ?_
      constructor
      · rintro (hpc | ⟨p, hp, hopen⟩)
        · cases hpc
        · rcases (hfd p fd).mp hp with hp | ⟨-, rfl⟩
          · exact Or.inr ⟨p, hp, hopen⟩
          · exact Or.inl rfl
      · rintro (hpc | ⟨p, hp, hopen⟩)
        · obtain rfl := Option.some.inj hpc
          exact Or.inr ⟨mallocs, (hfd mallocs newFd).mpr (Or.inr ⟨rfl, rfl⟩),
            fun w hw => absurd (hnew.2.symm.trans hw) nofun⟩
        · exact Or.inr ⟨p, (hfd p fd).mpr (Or.inl hp), hopen⟩
    nodes := h.nodes.acquire (Nat.lt_irrefl _) (fun p => Nat.lt_succ_iff_lt_or_eq) hdata
    threads := h.threads.allocated rfl hnew hdata rfl rfl rfl rfl }

/-- The thread of a node is created. -/
theorem create (h : Inv setup trace s ps) {q : Nat} (hpc : s.pc = .create q) :
    Inv setup (trace ++ [.created (.worker q)])
      { s with
        pc := .insert q
        nodes := modify s.nodes q fun d => { d with threadId := some (.worker q) }
        workers := Function.update s.workers q (some .start) } ps := by
  obtain ⟨pc, caughtSig, head, nodes, fds, mallocs, workers, bTimerStarted, timer, shared⟩ := s
  subst hpc
  have hworker : workers q = none := h.uncreated q rfl
  have hnode : value nodes q ≠ none := (h.live q).mpr (Or.inr rfl)
  let nodes' := modify nodes q fun d => { d with threadId := some (.worker q) }
  let workers' := Function.update workers q (some Worker.start)
  have hstart : workers' q = some Worker.start := Function.update_self _ _ _
  have hother : ∀ p, p ≠ q → workers' p = workers p := fun p hp => Function.update_of_ne hp _ _
  have hmade : ∀ p, workers' p ≠ none ↔ workers p ≠ none ∨ p = q := by
    intro p
    by_cases hp : p = q
    · rw [hp, hstart]
      exact iff_of_true nofun (Or.inr rfl)
    · rw [hother p hp]
      exact (or_iff_left hp).symm
  have hdata : ∀ p, value nodes' p = none ↔ value nodes p = none := fun p => value_modify_eq_none
  have hfd : ∀ p, (value nodes' p).map ThreadData.newFd = (value nodes p).map ThreadData.newFd :=
    map_value_modify fun _ => rfl
  exact
  { linked := h.linked.modify q fun d => { d with threadId := some (.worker q) }
    nodup := h.nodup
    live := fun p => (not_congr (hdata p)).trans (h.live p)
    outside := h.outside
    place := trivial
    node_lt := fun p hp => by
      rcases hp with hp | hp
      · exact h.node_lt p (Or.inl ((not_congr (hdata p)).mp hp))
      · rcases (hmade p).mp hp with hp | rfl
        · exact h.node_lt p (Or.inr hp)
        · exact h.node_lt p (Or.inl hnode)
    uncreated := nofun
    threadId := fun p d' hd' => by
      show d'.threadId = (workers' p).map _
      change value nodes' p = some d' at hd'
      obtain ⟨d, hd, ⟨rfl, rfl⟩ | ⟨hne, rfl⟩⟩ := exists_of_value_modify hd'
      · rw [hstart]
        rfl
      · rw [hother p hne]
        exact h.threadId p _ hd
    flag := fun p d' hd' => by
      show d'.bThreadCompleted = (workers' p).any _
      change value nodes' p = some d' at hd'
      obtain ⟨d, hd, ⟨rfl, rfl⟩ | ⟨hne, rfl⟩⟩ := exists_of_value_modify hd'
      · have hd_flag : d.bThreadCompleted = (workers p).any _ := h.flag p d hd
        rw [hstart]
        change d.bThreadCompleted = false
        rw [hd_flag, hworker]
        rfl
      · rw [hother p hne]
        exact h.flag p _ hd
    fd_lt := fun p fd hp => h.fd_lt p fd ((hfd p).symm.trans hp)
    fd_inj := fun p p' fd hp hp' =>
      h.fd_inj p p' fd ((hfd p).symm.trans hp) ((hfd p').symm.trans hp')
    fd_pc := nofun
    joined_done := fun p w hw hp => by
      have hd : value nodes p = none := (hdata p).mp (hp.resolve_right nofun)
      have hne : p ≠ q := by
        rintro rfl
        exact hnode hd
      exact h.joined_done p w ((hother p hne).symm.trans hw) (Or.inl hd)
    timer_absent := h.timer_absent
    noTimer := fun hchar => ⟨(h.noTimer hchar).1, nofun⟩
    sockets := fun hok => by
      refine (h.sockets (no_failure hok)).other (fun _ => nofun) (fun _ => nofun)
        (fun _ => Iff.rfl) fun fd => or_congr Iff.rfl ?_
      refine exists_congr fun p => ?_
      show (value nodes' p).map _ = _ ∧ (∀ w, workers' p = some w → _) ↔ _
      rw [hfd]
      refine and_congr_right fun _ => ?_
      by_cases hp : p = q
      · -- The new worker has not closed its socket.
        rw [hp, hstart]
        refine iff_of_true (fun w hw => ?_) fun w hw => absurd (hworker.symm.trans hw) nofun
        rw [← Option.some.inj hw]
        rfl
      · rw [hother p hp]
    nodes := h.nodes.other (fun _ => nofun) (fun _ => nofun) (fun _ => Iff.rfl)
      fun p => not_congr (hdata p)
    threads := h.threads.created rfl hnode hworker hdata rfl rfl rfl rfl }

/-- The thread of a node is not created, and `main` goes on. -/
theorem createFailed (h : Inv setup trace s ps) {q : Nat} (hpc : s.pc = .create q) :
    Inv setup (trace ++ [.createFailed (.worker q)]) { s with pc := .insert q } ps := by
  have hworker : s.workers q = none := h.uncreated q hpc
  have hnode : s.data q ≠ none := (h.live q).mpr (Or.inr (by rw [hpc]; rfl))
  refine h.move (e := .createFailed (.worker q)) h.linked h.nodup (fun _ => rfl)
    (fun _ => by rw [hpc]; rfl) (fun p hp => h.outside p (by rw [hpc]; exact hp)) trivial
    (by rw [hpc]; rfl) (fun _ => nofun) (fun _ _ _ => nofun) (fun _ => nofun)
    (fun _ => ⟨nofun, nofun⟩) (fun _ => ⟨nofun, nofun⟩) ?_
  apply h.threads.of_failure
  · refine h.threads.ledger.other (fun _ => nofun) (fun _ => nofun) (fun _ => Iff.rfl) fun id => ?_
    cases id with
    | worker p =>
      refine and_congr_right fun _ => and_congr_right fun _ => iff_of_true nofun ?_
      rw [hpc]
      nofun
    | timer =>
      refine and_congr_right fun _ => iff_of_true nofun ?_
      rw [Pending, hpc]
      nofun
  · intro id hid
    cases id with
    | worker p =>
      by_cases hp : p = q
      · exact Or.inl (by rw [hp])
      · refine Or.inr ⟨hid.1, hid.2.1, fun heq => hp ?_⟩
        rw [hpc] at heq
        exact (MainPc.create.inj heq).symm
    | timer => exact Or.inr hid
  · rintro id (rfl | ⟨hunstarted, hpending⟩)
    · exact ⟨⟨hnode, hworker, nofun⟩, hnode, nofun⟩
    · cases id with
      | worker p => exact ⟨⟨hunstarted.1, hunstarted.2.1, nofun⟩, hpending.1, nofun⟩
      | timer => exact ⟨hunstarted, nofun⟩

/-- The node is inserted. -/
theorem insert (h : Inv setup trace s ps) {q : Nat} (hpc : s.pc = .insert q) {pc : MainPc}
    (hpc' : pc = .first .sweep ∨ pc = .startTimer ∧ setup.build.charDevice = false)
    {nodes : Store Nat ThreadData} (hlinked : Linked nodes (some q) (q :: ps))
    (hvalue : ∀ p, value nodes p = s.data p) :
    Inv setup (trace ++ [.silent]) { s with pc := pc, nodes := nodes, head := some q }
      (q :: ps) := by
  have hmem : q ∉ ps := h.outside q (by rw [hpc]; rfl)
  have hhand : pc.outside = none ∧ pc.newFd = none ∧ pc.joined = none ∧ pc ≠ .returned ∧
      (∀ p, pc ≠ .create p) ∧ pc.At (q :: ps) ∧
      (setup.build.charDevice = true → pc ≠ .startTimer) := by
    rcases hpc' with rfl | ⟨rfl, hfile⟩
    · exact ⟨rfl, rfl, rfl, nofun, fun _ => nofun, trivial, fun _ => nofun⟩
    · exact ⟨rfl, rfl, rfl, nofun, fun _ => nofun, trivial, by simp [hfile]⟩
  obtain ⟨hout, hfd, hjoined, hend, hcreate, hplace, htimer⟩ := hhand
  refine h.relink hlinked (List.nodup_cons.mpr ⟨hmem, h.nodup⟩) hvalue (fun p => ?_)
    (fun p hp => ?_) hplace ⟨?_, ?_⟩ (fun p => ⟨hcreate p, ?_⟩) ⟨hend, ?_⟩ htimer
  · rw [hout, hpc, List.mem_cons]
    show (p = q ∨ p ∈ ps) ∨ none = some p ↔ p ∈ ps ∨ some q = some p
    simp [or_comm, eq_comm]
  · rw [hout] at hp
    cases hp
  · rw [hfd, hpc]
    rfl
  · rw [hjoined, hpc]
    rfl
  · rw [hpc]
    nofun
  · rw [hpc]
    nofun

/-- The timer thread is created. -/
theorem startTimer (h : Inv setup trace s ps) (hpc : s.pc = .startTimer)
    (hstarted : s.bTimerStarted = false) :
    Inv setup (trace ++ [.created .timer])
      { s with pc := .first .sweep, timer := .sleep, bTimerStarted := true } ps := by
  obtain ⟨pc, caughtSig, head, nodes, fds, mallocs, workers, bTimerStarted, timer, shared⟩ := s
  subst hpc hstarted
  obtain rfl : timer = .absent := h.timer_absent rfl
  exact
  { linked := h.linked
    nodup := h.nodup
    live := h.live
    outside := h.outside
    place := trivial
    node_lt := h.node_lt
    uncreated := nofun
    threadId := h.threadId
    flag := h.flag
    fd_lt := h.fd_lt
    fd_inj := h.fd_inj
    fd_pc := nofun
    joined_done := h.joined_done
    timer_absent := nofun
    noTimer := fun hchar => absurd rfl (h.noTimer hchar).2
    sockets := fun hok => (h.sockets (no_failure hok)).other (fun _ => nofun) (fun _ => nofun)
      (fun _ => Iff.rfl) fun _ => Iff.rfl
    nodes := h.nodes.other (fun _ => nofun) (fun _ => nofun) (fun _ => Iff.rfl) fun _ => Iff.rfl
    threads := by
      refine h.threads.of_ledger (e := .created .timer) (fun _ => nofun) nofun ?_ ?_ ?_
      · refine h.threads.ledger.acquire (fun hmade => hmade rfl) (fun id => ?_) fun id => ?_
        · cases id with
          | worker p => exact (or_iff_left nofun).symm
          | timer => exact iff_of_true nofun (Or.inr rfl)
        · cases id with
          | worker p => exact (or_iff_left nofun).symm
          | timer => exact iff_of_true ⟨nofun, nofun⟩ (Or.inr rfl)
      · intro id hid
        cases id with
        | worker p => exact ⟨hid.1, hid.2.1, nofun⟩
        | timer => exact absurd hid.2 nofun
      · intro id hunstarted hpending
        cases id with
        | worker p => exact ⟨⟨hunstarted.1, hunstarted.2.1, nofun⟩, hpending.1, nofun⟩
        | timer => exact absurd hunstarted.1 nofun }

/-- The timer thread is not created, and `main` goes on. -/
theorem startTimerFailed (h : Inv setup trace s ps) (hpc : s.pc = .startTimer)
    (hstarted : s.bTimerStarted = false) :
    Inv setup (trace ++ [.createFailed .timer])
      { s with pc := .first .sweep, bTimerStarted := true } ps := by
  obtain ⟨pc, caughtSig, head, nodes, fds, mallocs, workers, bTimerStarted, timer, shared⟩ := s
  subst hpc hstarted
  obtain rfl : timer = .absent := h.timer_absent rfl
  exact
  { linked := h.linked
    nodup := h.nodup
    live := h.live
    outside := h.outside
    place := trivial
    node_lt := h.node_lt
    uncreated := nofun
    threadId := h.threadId
    flag := h.flag
    fd_lt := h.fd_lt
    fd_inj := h.fd_inj
    fd_pc := nofun
    joined_done := h.joined_done
    timer_absent := nofun
    noTimer := fun hchar => absurd rfl (h.noTimer hchar).2
    sockets := fun hok => absurd (List.mem_append_right _ List.mem_cons_self) (hok .timer)
    nodes := h.nodes.other (fun _ => nofun) (fun _ => nofun) (fun _ => Iff.rfl) fun _ => Iff.rfl
    threads := by
      apply h.threads.of_failure
      · refine h.threads.ledger.other (fun _ => nofun) (fun _ => nofun) (fun id => ?_) fun id => ?_
        · cases id with
          | worker p => exact Iff.rfl
          | timer => exact Iff.rfl
        · cases id with
          | worker p => exact Iff.rfl
          | timer => exact and_congr_right fun _ => iff_of_true nofun nofun
      · intro id hid
        cases id with
        | worker p => exact Or.inr ⟨hid.1, hid.2.1, nofun⟩
        | timer => exact Or.inl rfl
      · rintro id (rfl | ⟨hunstarted, hpending⟩)
        · exact ⟨⟨rfl, rfl⟩, nofun⟩
        · cases id with
          | worker p => exact ⟨⟨hunstarted.1, hunstarted.2.1, nofun⟩, hpending.1, nofun⟩
          | timer => exact ⟨⟨rfl, rfl⟩, nofun⟩ }

/-- `main` joins with an identifier that was never stored. -/
theorem joinNone (h : Inv setup trace s ps) {loop : Loop} {q : Nat} {tmp : Option Nat}
    (hpc : s.pc = .join loop q tmp) {d : ThreadData} (hd : s.data q = some d)
    (hid : d.threadId = none) :
    Inv setup (trace ++ [.joined none]) { s with pc := .remove loop q tmp } ps := by
  have hworker : s.workers q = none := by
    rw [← Option.map_eq_none_iff, ← h.threadId q d hd, hid]
  have hplace : MainPc.At ps (.remove loop q tmp) := by
    have := h.place
    rwa [hpc] at this
  have hjoined (p : Nat) (w : Worker) (hw : s.workers p = some w)
      (hp : (MainPc.remove loop q tmp).joined = some p) : w.pc = .done := by
    rw [← Option.some.inj hp, hworker] at hw
    cases hw
  refine h.move (e := .joined none) h.linked h.nodup (fun _ => rfl) (fun _ => by rw [hpc]; rfl)
    (fun _ => nofun) hplace (by rw [hpc]; rfl) (fun _ => nofun) hjoined (fun _ => nofun)
    (fun _ => ⟨nofun, nofun⟩) (fun _ => ⟨nofun, nofun⟩) ?_
  refine h.threads.of_foreign ?_ (fun _ hid => hid.of_pc (by simp [hpc])) (t := .worker q)
    ⟨?_, hworker, ?_⟩
  · refine h.threads.ledger.other (fun _ => nofun) (fun _ => nofun) (fun _ => Iff.rfl)
      fun id => and_congr_right fun hmade => ?_
    cases id with
    | worker p =>
      have hne : q ≠ p := by
        rintro rfl
        exact hmade hworker
      refine and_congr_right fun _ => iff_of_true (fun hp => hne (Option.some.inj hp)) ?_
      rw [hpc]
      nofun
    | timer =>
      refine iff_of_true nofun ?_
      rw [Pending, hpc]
      nofun
  · rw [hd]
    nofun
  · rw [hpc]
    nofun

/-- `main` joins the worker of a node. -/
theorem join (h : Inv setup trace s ps) {loop : Loop} {q : Nat} {tmp : Option Nat}
    (hpc : s.pc = .join loop q tmp) {w : Worker} (hw : s.workers q = some w)
    (hdone : w.pc = .done) :
    Inv setup (trace ++ [.joined (some (.worker q))]) { s with pc := .remove loop q tmp } ps := by
  have hplace : MainPc.At ps (.remove loop q tmp) := by
    have := h.place
    rwa [hpc] at this
  have hmem : q ∈ ps := by
    obtain ⟨pre, post, rfl, -⟩ := hplace
    exact List.mem_append_right _ List.mem_cons_self
  have hjoined (p : Nat) (w' : Worker) (hw' : s.workers p = some w')
      (hp : (MainPc.remove loop q tmp).joined = some p) : w'.pc = .done := by
    rw [← Option.some.inj hp, hw] at hw'
    rwa [← Option.some.inj hw']
  refine h.move (e := .joined (some (.worker q))) h.linked h.nodup (fun _ => rfl)
    (fun _ => by rw [hpc]; rfl) (fun _ => nofun) hplace (by rw [hpc]; rfl) (fun _ => nofun) hjoined
    (fun _ => nofun) (fun _ => ⟨nofun, nofun⟩) (fun _ => ⟨nofun, nofun⟩) ?_
  refine h.threads.of_ledger (e := .joined (some (.worker q))) (fun _ => nofun) nofun ?_
    (fun _ hid => hid.of_pc (by simp [hpc])) fun id hunstarted hpending => ?_
  · have hheld : s.Made (.worker q) ∧ s.Pending (.worker q) := by
      refine ⟨?_, (h.live q).mpr (Or.inl hmem), ?_⟩
      · rw [Made, hw]
        nofun
      · rw [hpc]
        nofun
    refine h.threads.ledger.release hheld (fun _ => Iff.rfl) fun id => ?_
    rw [and_assoc]
    refine and_congr_right fun _ => ?_
    cases id with
    | worker p =>
      rw [Pending, Pending, and_assoc, hpc]
      refine and_congr_right fun _ => ?_
      show some q ≠ some p ↔ none ≠ some p ∧ _
      simp [eq_comm]
    | timer =>
      refine iff_of_true nofun ⟨?_, nofun⟩
      rw [Pending, hpc]
      nofun
  · cases id with
    | worker p =>
      refine ⟨⟨hunstarted.1, hunstarted.2.1, nofun⟩, hunstarted.1, fun hp => ?_⟩
      rw [← Option.some.inj hp] at hunstarted
      exact absurd (hunstarted.2.1.symm.trans hw) nofun
    | timer => exact ⟨hunstarted, nofun⟩

/-- The node is removed from the list. -/
theorem remove {pre post : List Nat} {q : Nat} (h : Inv setup trace s (pre ++ q :: post))
    {loop : Loop} (hpc : s.pc = .remove loop q post.head?) (hpre : loop = .drain → pre = [])
    {nodes : Store Nat ThreadData} {head : Option Nat} (hlinked : Linked nodes head (pre ++ post))
    (hvalue : ∀ p, value nodes p = s.data p) :
    Inv setup (trace ++ [.silent])
      { s with pc := .free loop q post.head?, nodes := nodes, head := head } (pre ++ post) := by
  obtain ⟨hmem, hnodup⟩ := List.nodup_middle.mp h.nodup |> List.nodup_cons.mp
  refine h.relink hlinked hnodup hvalue (fun p => ?_) (fun p hp => ?_) ⟨pre, post, rfl, rfl, hpre⟩
    ⟨by rw [hpc]; rfl, by rw [hpc]; rfl⟩ (fun p => ⟨nofun, by rw [hpc]; nofun⟩)
    ⟨nofun, by rw [hpc]; nofun⟩ fun _ => nofun
  · rw [hpc]
    show p ∈ pre ++ post ∨ some q = some p ↔ p ∈ pre ++ q :: post ∨ none = some p
    simp [eq_comm, or_left_comm, or_comm]
  · rwa [← Option.some.inj hp]

/-- The node is freed. -/
theorem free (h : Inv setup trace s ps) {loop : Loop} {q : Nat} {tmp : Option Nat}
    (hpc : s.pc = .free loop q tmp) :
    Inv setup (trace ++ [.freed q])
      { s with pc := .walk loop tmp, nodes := Function.update s.nodes q none } ps := by
  obtain ⟨pc, caughtSig, head, nodes, fds, mallocs, workers, bTimerStarted, timer, shared⟩ := s
  subst hpc
  have hmem : q ∉ ps := h.outside q rfl
  have hnode : value nodes q ≠ none := (h.live q).mpr (Or.inr rfl)
  let nodes' := Function.update nodes q none
  have hself : value nodes' q = none := value_update_self _ _ _
  have hother : ∀ p, p ≠ q → value nodes' p = value nodes p := fun p hp => value_update_of_ne _ hp _
  have hdata : ∀ p, value nodes' p ≠ none ↔ value nodes p ≠ none ∧ p ≠ q := by
    intro p
    by_cases hp : p = q
    · rw [hp, hself]
      exact iff_of_false (fun hne => hne rfl) fun hne => hne.2 rfl
    · rw [hother p hp]
      exact (and_iff_left hp).symm
  have hfd : ∀ p fd, (value nodes' p).map ThreadData.newFd = some fd ↔
      (value nodes p).map ThreadData.newFd = some fd ∧ p ≠ q := by
    intro p fd
    by_cases hp : p = q
    · rw [hp, hself]
      exact iff_of_false nofun fun hne => hne.2 rfl
    · rw [hother p hp]
      exact (and_iff_left hp).symm
  exact
  { linked := h.linked.update hmem _
    nodup := h.nodup
    live := fun p => by
      show value nodes' p ≠ none ↔ p ∈ ps ∨ none = some p
      rw [hdata, show value nodes p ≠ none ↔ p ∈ ps ∨ some q = some p from h.live p]
      constructor
      · rintro ⟨hp | hp, hne⟩
        · exact Or.inl hp
        · exact absurd (Option.some.inj hp).symm hne
      · rintro (hp | hp)
        · exact ⟨Or.inl hp, fun heq => hmem (heq ▸ hp)⟩
        · cases hp
    outside := fun _ => nofun
    place := h.place
    node_lt := fun p hp => h.node_lt p (hp.imp_left fun hd => ((hdata p).mp hd).1)
    uncreated := nofun
    threadId := fun p d hd => by
      have hne : p ≠ q := ((hdata p).mp (by rw [show value nodes' p = some d from hd]; nofun)).2
      exact h.threadId p d ((hother p hne).symm.trans hd)
    flag := fun p d hd => by
      have hne : p ≠ q := ((hdata p).mp (by rw [show value nodes' p = some d from hd]; nofun)).2
      exact h.flag p d ((hother p hne).symm.trans hd)
    fd_lt := fun p fd hp => h.fd_lt p fd ((hfd p fd).mp hp).1
    fd_inj := fun p p' fd hp hp' => h.fd_inj p p' fd ((hfd p fd).mp hp).1 ((hfd p' fd).mp hp').1
    fd_pc := nofun
    joined_done := fun p w hw hp => by
      by_cases hpq : p = q
      · exact h.joined_done p w hw (Or.inr (congrArg some hpq.symm))
      · exact h.joined_done p w hw (Or.inl ((hother p hpq).symm.trans (hp.resolve_right nofun)))
    timer_absent := h.timer_absent
    noTimer := fun hchar => ⟨(h.noTimer hchar).1, nofun⟩
    sockets := fun hok => by
      -- The worker of the node was joined, so it has closed the socket.
      have hcreated : workers q ≠ none := fun hnone =>
        no_failure hok _ (h.threads.unstarted (.worker q) ⟨hnode, hnone, nofun⟩)
      obtain ⟨w, hw⟩ := Option.ne_none_iff_exists'.mp hcreated
      have hclosed : w.pc.closed = true := by
        rw [h.joined_done q w hw (Or.inr rfl)]
        rfl
      refine (h.sockets (no_failure hok)).other (fun _ => nofun) (fun _ => nofun)
        (fun _ => Iff.rfl) fun fd => or_congr Iff.rfl (exists_congr fun p => ?_)
      constructor
      · rintro ⟨hp, hopen⟩
        exact ⟨((hfd p fd).mp hp).1, hopen⟩
      · rintro ⟨hp, hopen⟩
        refine ⟨(hfd p fd).mpr ⟨hp, ?_⟩, hopen⟩
        rintro rfl
        exact absurd ((hopen w hw).symm.trans hclosed) nofun
    nodes := h.nodes.release hnode (fun _ => Iff.rfl) hdata
    threads := h.threads.freed rfl hdata rfl rfl rfl rfl }

/-- `main` returns, and there is no timer thread. -/
theorem finish (h : Inv setup trace s []) (hhand : s.pc.outside = none ∧ s.pc.newFd = none ∧
      s.pc.joined = none) (hcreate : ∀ p, s.pc ≠ .create p) (hstarted : s.bTimerStarted = false) :
    Inv setup (trace ++ [.silent]) { s with pc := .returned } [] := by
  refine h.move (e := .silent) h.linked h.nodup (fun _ => rfl) (fun _ => by rw [hhand.1]; rfl)
    (fun _ => nofun) rfl (by rw [hhand.2.1]; rfl) (fun _ => nofun) (fun _ _ _ => nofun)
    (fun _ => nofun) (fun _ => ⟨nofun, nofun⟩) (fun _ => ⟨nofun, nofun⟩) ?_
  have habsent := h.timer_absent hstarted
  refine h.threads.of_ledger (e := .silent) (fun _ => nofun) nofun ?_
    (fun _ hid => hid.of_pc hcreate) fun id hunstarted hpending => ?_
  · refine h.threads.ledger.other (fun _ => nofun) (fun _ => nofun) (fun _ => Iff.rfl)
      fun id => and_congr_right fun hmade => ?_
    cases id with
    | worker p =>
      refine and_congr_right fun _ => iff_of_true nofun ?_
      rw [hhand.2.2]
      nofun
    | timer => exact absurd habsent hmade
  · cases id with
    | worker p => exact ⟨⟨hunstarted.1, hunstarted.2.1, nofun⟩, hpending.1, nofun⟩
    | timer => exact absurd (hstarted.symm.trans hunstarted.1) nofun

/-- `main` joins a timer thread that was not created, and returns. -/
theorem finishNone (h : Inv setup trace s ps) (hpc : s.pc = .joinTimer)
    (hstarted : s.bTimerStarted = true) (habsent : s.timer = .absent) :
    Inv setup (trace ++ [.joined none]) { s with pc := .returned } ps := by
  have hplace : MainPc.At ps .returned := by
    have := h.place
    rwa [hpc] at this
  refine h.move (e := .joined none) h.linked h.nodup (fun _ => rfl) (fun _ => by rw [hpc]; rfl)
    (fun _ => nofun) hplace (by rw [hpc]; rfl) (fun _ => nofun) (fun _ _ _ => nofun)
    (fun _ => nofun) (fun _ => ⟨nofun, nofun⟩) (fun _ => ⟨nofun, nofun⟩) ?_
  refine h.threads.of_foreign ?_ (fun _ hid => hid.of_pc (by simp [hpc])) (t := .timer)
    ⟨hstarted, habsent⟩
  · refine h.threads.ledger.other (fun _ => nofun) (fun _ => nofun) (fun _ => Iff.rfl)
      fun id => and_congr_right fun hmade => ?_
    cases id with
    | worker p =>
      refine and_congr_right fun _ => iff_of_true nofun ?_
      rw [hpc]
      nofun
    | timer => exact absurd habsent hmade

/-- `main` joins the timer thread, and returns. -/
theorem finishTimer (h : Inv setup trace s ps) (hpc : s.pc = .joinTimer)
    (hmade : s.timer ≠ .absent) :
    Inv setup (trace ++ [.joined (some .timer)]) { s with pc := .returned } ps := by
  have hplace : MainPc.At ps .returned := by
    have := h.place
    rwa [hpc] at this
  refine h.move (e := .joined (some .timer)) h.linked h.nodup (fun _ => rfl)
    (fun _ => by rw [hpc]; rfl) (fun _ => nofun) hplace (by rw [hpc]; rfl) (fun _ => nofun)
    (fun _ _ _ => nofun) (fun _ => nofun) (fun _ => ⟨nofun, nofun⟩) (fun _ => ⟨nofun, nofun⟩) ?_
  refine h.threads.of_ledger (e := .joined (some .timer)) (fun _ => nofun) nofun ?_
    (fun _ hid => hid.of_pc (by simp [hpc])) fun id hunstarted hpending => ?_
  · have hheld : s.Made .timer ∧ s.Pending .timer := by
      refine ⟨hmade, ?_⟩
      rw [Pending, hpc]
      nofun
    refine h.threads.ledger.release hheld (fun _ => Iff.rfl) fun id => ?_
    rw [and_assoc]
    refine and_congr_right fun _ => ?_
    cases id with
    | worker p =>
      rw [Pending, Pending, and_assoc, hpc]
      refine and_congr_right fun _ => iff_of_true nofun ⟨nofun, nofun⟩
    | timer => exact iff_of_false (fun hp => hp rfl) fun hp => hp.2 rfl
  · cases id with
    | worker p => exact ⟨⟨hunstarted.1, hunstarted.2.1, nofun⟩, hpending.1, nofun⟩
    | timer => exact absurd hunstarted.2 hmade

/-- A node that is live can be accessed. -/
theorem node (h : Inv setup trace s ps) {p : Nat} (hp : p ∈ ps ∨ s.pc.outside = some p) :
    ∃ c, s.nodes p = some c ∧ s.data p = some c.value ∧ s.node p = .ok c := by
  obtain ⟨c, hc⟩ := exists_of_value ((h.live p).mpr hp)
  refine ⟨c, hc, ?_, ?_⟩
  · rw [data, value, hc]
    rfl
  · rw [Server.node, load_of_some hc]
    rfl

/-- The identifier that is stored is that of the worker of the node. -/
theorem worker_of_threadId (h : Inv setup trace s ps) {p : Nat} {d : ThreadData} {id : ThreadId}
    (hd : s.data p = some d) (hid : d.threadId = some id) :
    ∃ w, s.workers p = some w ∧ id = .worker p := by
  have hstored := h.threadId p d hd
  rw [hid, eq_comm, Option.map_eq_some_iff] at hstored
  obtain ⟨w, hw, heq⟩ := hstored
  exact ⟨w, hw, heq.symm⟩

/-- The list has no more nodes than there are. -/
theorem length_le (h : Inv setup trace s ps) : ps.length ≤ s.mallocs := by
  have hsubset : ps ⊆ List.range s.mallocs := fun p hp =>
    List.mem_range.mpr (h.node_lt p (Or.inl ((h.live p).mpr (Or.inl hp))))
  simpa using (h.nodup.subperm hsubset).length_le

/-! ### The walk over the list -/

variable {pre post : List Nat} {q : Nat} {loop : Loop} {tmp : Option Nat}

theorem mainStep_first (h : Inv setup trace s ps) (hpc : s.pc = .first loop) (ok : Bool) :
    s.mainStep setup ok = .ok (.silent, { s with pc := .walk loop ps.head? }) ∧
      Inv setup (trace ++ [.silent]) { s with pc := .walk loop ps.head? } ps := by
  refine ⟨?_, h.goto hpc ⟨[], ps, rfl, rfl, fun _ => rfl⟩⟩
  simp only [Server.mainStep, hpc, h.linked.head_eq]
  rfl

theorem mainStep_leave (h : Inv setup trace s ps) (hpc : s.pc = .walk .sweep none) (ok : Bool) :
    s.mainStep setup ok = .ok (.silent, { s with pc := .loopHead }) ∧
      Inv setup (trace ++ [.silent]) { s with pc := .loopHead } ps := by
  refine ⟨?_, h.goto hpc trivial⟩
  simp only [Server.mainStep, hpc]
  rfl

theorem mainStep_walk (h : Inv setup trace s (pre ++ q :: post))
    (hpc : s.pc = .walk .sweep (some q)) (ok : Bool) :
    s.mainStep setup ok = .ok (.silent, { s with pc := .test q post.head? }) ∧
      Inv setup (trace ++ [.silent]) { s with pc := .test q post.head? } (pre ++ q :: post) := by
  obtain ⟨c, hc, -, hnode⟩ := h.node (Or.inl (List.mem_append_right pre List.mem_cons_self))
  have hnext := h.linked.entries_eq hc
  refine ⟨?_, h.goto hpc ⟨pre, post, rfl, rfl⟩⟩
  simp only [Server.mainStep, hpc, hnode, ok_bind, hnext]
  rfl

theorem mainStep_test (h : Inv setup trace s (pre ++ q :: post)) (hpc : s.pc = .test q post.head?)
    {d : ThreadData} (hd : s.data q = some d) (ok : Bool) {pc : MainPc}
    (hpc' : pc = if d.bThreadCompleted then .join .sweep q post.head?
      else .walk .sweep post.head?) :
    s.mainStep setup ok = .ok (.silent, { s with pc := pc }) ∧
      Inv setup (trace ++ [.silent]) { s with pc := pc } (pre ++ q :: post) := by
  obtain ⟨c, -, hc, hnode⟩ := h.node (Or.inl (List.mem_append_right pre List.mem_cons_self))
  obtain rfl := Option.some.inj (hd.symm.trans hc)
  simp only [Server.mainStep, hpc, hnode, ok_bind]
  by_cases hflag : c.value.bThreadCompleted = true
  · rw [if_pos hflag] at hpc' ⊢
    subst hpc'
    exact ⟨rfl, h.goto hpc ⟨pre, post, rfl, rfl, nofun⟩⟩
  · rw [if_neg hflag] at hpc' ⊢
    subst hpc'
    exact ⟨rfl, h.goto hpc ⟨pre ++ [q], post, by simp, rfl, nofun⟩⟩

/-- `main` joins the worker of a node, if it has returned. -/
theorem mainStep_join (h : Inv setup trace s ps) (hmem : q ∈ ps) (hpc : s.pc = .join loop q tmp)
    {w : Worker} (hw : s.workers q = some w) (hdone : w.pc = .done) (ok : Bool) :
    s.mainStep setup ok =
        .ok (.joined (some (.worker q)), { s with pc := .remove loop q tmp }) ∧
      Inv setup (trace ++ [.joined (some (.worker q))]) { s with pc := .remove loop q tmp } ps := by
  obtain ⟨c, -, hd, hnode⟩ := h.node (Or.inl hmem)
  have hid : c.value.threadId = some (.worker q) := by
    rw [h.threadId q _ hd, hw]
    rfl
  have hfinished : s.finished (.worker q) = true := by simp [Server.finished, hw, hdone]
  refine ⟨?_, h.join hpc hw hdone⟩
  simp only [Server.mainStep, hpc, hnode, ok_bind, hid, hfinished, if_true]
  rfl

/-- `main` waits for the worker of a node. -/
theorem mainStep_wait (h : Inv setup trace s ps) (hmem : q ∈ ps) (hpc : s.pc = .join loop q tmp)
    {w : Worker} (hw : s.workers q = some w) (hdone : w.pc ≠ .done) (ok : Bool) :
    s.mainStep setup ok = .ok (.silent, s) := by
  obtain ⟨c, -, hd, hnode⟩ := h.node (Or.inl hmem)
  have hid : c.value.threadId = some (.worker q) := by
    rw [h.threadId q _ hd, hw]
    rfl
  have hfinished : s.finished (.worker q) = false := by simp [Server.finished, hw, hdone]
  simp only [Server.mainStep, hpc, hnode, ok_bind, hid, hfinished]
  rfl

theorem mainStep_remove (h : Inv setup trace s (pre ++ q :: post))
    (hpc : s.pc = .remove loop q post.head?) (hpre : loop = .drain → pre = []) (ok : Bool) :
    ∃ nodes head, s.mainStep setup ok =
        .ok (.silent, { s with pc := .free loop q post.head?, nodes := nodes, head := head }) ∧
      Inv setup (trace ++ [.silent])
        { s with pc := .free loop q post.head?, nodes := nodes, head := head } (pre ++ post) := by
  have hfuel : pre.length ≤ s.mallocs := by
    have hle := h.length_le
    rw [List.length_append] at hle
    omega
  obtain ⟨nodes, head, hrun, hlinked, hvalue⟩ := h.linked.remove h.nodup hfuel
  refine ⟨nodes, head, ?_, h.remove hpc hpre hlinked hvalue⟩
  simp only [Server.mainStep, hpc, hrun]
  rfl

theorem mainStep_free (h : Inv setup trace s ps) (hpc : s.pc = .free loop q tmp) (ok : Bool) :
    s.mainStep setup ok = .ok (.freed q,
        { s with pc := .walk loop tmp, nodes := Function.update s.nodes q none }) ∧
      Inv setup (trace ++ [.freed q])
        { s with pc := .walk loop tmp, nodes := Function.update s.nodes q none } ps := by
  obtain ⟨c, hc, -, -⟩ := h.node (Or.inr (by rw [hpc]; rfl) : q ∈ ps ∨ _)
  refine ⟨?_, h.free hpc⟩
  simp only [Server.mainStep, hpc, free_of_some hc]
  rfl

/-- Every step of `main` succeeds, and the invariant holds after it. -/
theorem mainStep (h : Inv setup trace s ps) (ok : Bool) :
    ∃ e s' ps', s.mainStep setup ok = .ok (e, s') ∧ Inv setup (trace ++ [e]) s' ps' := by
  have hplace := h.place
  cases hpc : s.pc with
  | loopHead =>
    simp only [Server.mainStep, hpc]
    by_cases hsig : s.caughtSig = true
    · rw [if_pos hsig]
      exact ⟨_, _, ps, rfl, h.goto hpc trivial⟩
    · rw [if_neg hsig]
      exact ⟨_, _, ps, rfl, h.goto hpc trivial⟩
  | accept =>
    simp only [Server.mainStep, hpc]
    cases ok with
    | true => exact ⟨_, _, ps, rfl, h.accept hpc⟩
    | false =>
      exact ⟨_, _, ps, rfl, h.goto hpc trivial⟩
  | acceptFailed =>
    simp only [Server.mainStep, hpc]
    by_cases hsig : s.caughtSig = true
    · rw [if_pos hsig]
      exact ⟨_, _, ps, rfl, h.goto hpc trivial⟩
    · rw [if_neg hsig]
      exact ⟨_, _, ps, rfl, h.goto hpc trivial⟩
  | malloc newFd =>
    simp only [Server.mainStep, hpc]
    cases ok with
    | true => exact ⟨_, _, ps, rfl, h.malloc hpc⟩
    | false =>
      exact ⟨_, _, ps, rfl, h.goto hpc trivial⟩
  | closeFd newFd =>
    simp only [Server.mainStep, hpc]
    exact ⟨_, _, ps, rfl, h.closeFd hpc⟩
  | create q =>
    obtain ⟨c, -, -, hnode⟩ := h.node (Or.inr (by rw [hpc]; rfl) : q ∈ ps ∨ _)
    simp only [Server.mainStep, hpc, hnode, ok_bind]
    cases ok with
    | true => exact ⟨_, _, ps, rfl, h.create hpc⟩
    | false => exact ⟨_, _, ps, rfl, h.createFailed hpc⟩
  | insert q =>
    have houtside : s.pc.outside = some q := by rw [hpc]; rfl
    obtain ⟨c, hc, -, -⟩ := h.node (Or.inr houtside)
    obtain ⟨hrun, hlinked, hvalue⟩ := h.linked.insertHead hc (h.outside q houtside)
    simp only [Server.mainStep, hpc, hrun]
    refine ⟨_, _, q :: ps, rfl, h.insert hpc ?_ hlinked hvalue⟩
    cases hchar : setup.build.charDevice with
    | true => exact Or.inl rfl
    | false => exact Or.inr ⟨rfl, rfl⟩
  | startTimer =>
    simp only [Server.mainStep, hpc]
    by_cases hstarted : s.bTimerStarted = true
    · rw [if_pos hstarted]
      exact ⟨_, _, ps, rfl, h.goto hpc trivial⟩
    · rw [if_neg hstarted]
      rw [Bool.not_eq_true] at hstarted
      cases ok with
      | true => exact ⟨_, _, ps, rfl, h.startTimer hpc hstarted⟩
      | false => exact ⟨_, _, ps, rfl, h.startTimerFailed hpc hstarted⟩
  | first loop => exact ⟨_, _, ps, h.mainStep_first hpc ok⟩
  | walk loop datap =>
    rw [hpc] at hplace
    obtain ⟨pre, post, rfl, rfl, hpre⟩ := hplace
    cases post with
    | nil =>
      cases loop with
      | sweep => exact ⟨_, _, _, h.mainStep_leave hpc ok⟩
      | drain =>
        obtain rfl := hpre rfl
        simp only [Server.mainStep, hpc]
        cases hchar : setup.build.charDevice with
        | true =>
          refine ⟨_, { s with pc := .returned }, [], ?_, h.finish ?_ ?_ (h.noTimer hchar).1⟩
          · simp only [Server.leave, hchar]
            rfl
          · rw [hpc]
            exact ⟨rfl, rfl, rfl⟩
          · rw [hpc]
            nofun
        | false =>
          refine ⟨_, { s with pc := .joinTimer }, [], ?_, h.goto hpc rfl⟩
          simp only [Server.leave, hchar]
          rfl
    | cons q post =>
      cases loop with
      | sweep => exact ⟨_, _, _, h.mainStep_walk hpc ok⟩
      | drain =>
        obtain ⟨c, hc, -, hnode⟩ := h.node (Or.inl (List.mem_append_right pre List.mem_cons_self))
        have hnext := h.linked.entries_eq hc
        simp only [Server.mainStep, hpc, List.head?_cons, hnode, ok_bind]
        exact ⟨_, _, _, rfl, h.goto hpc ⟨pre, post, rfl, hnext, hpre⟩⟩
  | test q tmp =>
    rw [hpc] at hplace
    obtain ⟨pre, post, rfl, rfl⟩ := hplace
    obtain ⟨c, -, hd, -⟩ := h.node (Or.inl (List.mem_append_right pre List.mem_cons_self))
    exact ⟨_, _, _, h.mainStep_test hpc hd ok rfl⟩
  | join loop q tmp =>
    rw [hpc] at hplace
    obtain ⟨pre, post, rfl, rfl, hpre⟩ := hplace
    have hmem : q ∈ pre ++ q :: post := List.mem_append_right pre List.mem_cons_self
    obtain ⟨c, -, hd, hnode⟩ := h.node (Or.inl hmem)
    cases hid : c.value.threadId with
    | none =>
      simp only [Server.mainStep, hpc, hnode, ok_bind, hid]
      exact ⟨_, _, _, rfl, h.joinNone hpc hd hid⟩
    | some id =>
      obtain ⟨w, hw, rfl⟩ := h.worker_of_threadId hd hid
      by_cases hdone : w.pc = .done
      · exact ⟨_, _, _, h.mainStep_join hmem hpc hw hdone ok⟩
      · exact ⟨_, s, _, h.mainStep_wait hmem hpc hw hdone ok, h.silent⟩
  | remove loop q tmp =>
    rw [hpc] at hplace
    obtain ⟨pre, post, rfl, rfl, hpre⟩ := hplace
    obtain ⟨nodes, head, hstep⟩ := h.mainStep_remove hpc hpre ok
    exact ⟨_, _, _, hstep⟩
  | free loop q tmp => exact ⟨_, _, ps, h.mainStep_free hpc ok⟩
  | joinTimer =>
    have hnil : ps = [] := by rwa [hpc] at hplace
    simp only [Server.mainStep, hpc]
    by_cases hstarted : s.bTimerStarted = true
    · rw [if_pos hstarted]
      split
      · rename_i habsent
        exact ⟨_, _, _, rfl, h.finishNone hpc hstarted habsent⟩
      · rename_i hdone
        exact ⟨_, _, _, rfl, h.finishTimer hpc (by rw [hdone]; nofun)⟩
      · exact ⟨_, s, _, rfl, h.silent⟩
    · rw [if_neg hstarted]
      rw [Bool.not_eq_true] at hstarted
      subst hnil
      refine ⟨_, _, _, rfl, h.finish ?_ ?_ hstarted⟩
      · rw [hpc]
        exact ⟨rfl, rfl, rfl⟩
      · rw [hpc]
        nofun
  | returned =>
    simp only [Server.mainStep, hpc]
    exact ⟨_, s, ps, rfl, h.silent⟩

end Server.Inv

end Server

end AesdChar
