import AesdChar.Server.ExactlyOnce

/-!
# Workers that have returned are reaped

A sweep of the list joins and frees the workers whose flag is set.  A worker
without its flag stays in the list, however often `main` sweeps it, and a worker
has returned without its flag exactly if a call of `open` failed.

`Server.Orderly` is what a run keeps of the workers and the mutex, and
`Server.Sweeping` is the invariant of one sweep, with what it still has to do.
-/

namespace AesdChar

open CodeLib CodeLib.SList

section Server

variable {σ : Type} {setup : Setup σ} {trace events : List LifeEvent} {s s' : Server σ}
  {ps : List Nat} {e : LifeEvent}

/-! ## What a step leaves alone -/

/-- A step of `main` leaves the mutex alone, and the workers but for a new one. -/
theorem Server.mainStep_frame {ok : Bool} (h : s.mainStep setup ok = .ok (e, s')) :
    s'.shared = s.shared ∧ (s'.workers = s.workers ∨
      ∃ q, s.pc = .create q ∧ s'.workers = Function.update s.workers q (some .start)) := by
  cases hpc : s.pc with
  | loopHead | accept | acceptFailed | malloc =>
    simp only [mainStep, hpc] at h
    split at h
    · cases h
      exact ⟨rfl, Or.inl rfl⟩
    · cases h
      exact ⟨rfl, Or.inl rfl⟩
  | closeFd | first | returned =>
    simp only [mainStep, hpc] at h
    cases h
    exact ⟨rfl, Or.inl rfl⟩
  | create q =>
    simp only [mainStep, hpc] at h
    obtain ⟨c, -, h⟩ := bind_eq_ok h
    split at h
    · cases h
      exact ⟨rfl, Or.inr ⟨q, rfl, rfl⟩⟩
    · cases h
      exact ⟨rfl, Or.inl rfl⟩
  | insert | remove =>
    simp only [mainStep, hpc] at h
    obtain ⟨⟨nodes, head⟩, -, h⟩ := bind_eq_ok h
    cases h
    exact ⟨rfl, Or.inl rfl⟩
  | startTimer =>
    simp only [mainStep, hpc] at h
    split at h
    · cases h
      exact ⟨rfl, Or.inl rfl⟩
    · split at h
      · cases h
        exact ⟨rfl, Or.inl rfl⟩
      · cases h
        exact ⟨rfl, Or.inl rfl⟩
  | walk loop datap =>
    cases datap with
    | none =>
      simp only [mainStep, hpc] at h
      cases h
      exact ⟨rfl, Or.inl rfl⟩
    | some q =>
      simp only [mainStep, hpc] at h
      obtain ⟨c, -, h⟩ := bind_eq_ok h
      cases h
      exact ⟨rfl, Or.inl rfl⟩
  | test =>
    simp only [mainStep, hpc] at h
    obtain ⟨c, -, h⟩ := bind_eq_ok h
    split at h
    · cases h
      exact ⟨rfl, Or.inl rfl⟩
    · cases h
      exact ⟨rfl, Or.inl rfl⟩
  | join =>
    simp only [mainStep, hpc] at h
    obtain ⟨c, -, h⟩ := bind_eq_ok h
    split at h
    · cases h
      exact ⟨rfl, Or.inl rfl⟩
    · split at h
      · cases h
        exact ⟨rfl, Or.inl rfl⟩
      · cases h
        exact ⟨rfl, Or.inl rfl⟩
  | free =>
    simp only [mainStep, hpc] at h
    obtain ⟨nodes, -, h⟩ := bind_eq_ok h
    cases h
    exact ⟨rfl, Or.inl rfl⟩
  | joinTimer =>
    simp only [mainStep, hpc] at h
    split at h
    · split at h
      · cases h
        exact ⟨rfl, Or.inl rfl⟩
      · cases h
        exact ⟨rfl, Or.inl rfl⟩
      · cases h
        exact ⟨rfl, Or.inl rfl⟩
    · cases h
      exact ⟨rfl, Or.inl rfl⟩

/-- What a step of a worker does, if there is one. -/
theorem Server.workerStep_cases {p : Nat} (h : s.workerStep setup p = .ok (e, s')) :
    (e = .silent ∧ s' = s) ∨ ∃ w a w' shared,
      s.workers p = some w ∧
      w.step setup.build setup.ops (setup.env p) (.worker p) s.shared = .ok (a, w', shared) ∧
      s'.pc = s.pc ∧ s'.shared = shared ∧ s'.workers = Function.update s.workers p (some w') ∧
      ∀ id, e ≠ .joined id := by
  unfold Server.workerStep at h
  cases hw : s.workers p with
  | none =>
    simp only [hw] at h
    cases h
    exact Or.inl ⟨rfl, rfl⟩
  | some w =>
    simp only [hw] at h
    obtain ⟨event, huse, h⟩ := bind_eq_ok h
    obtain ⟨⟨a, w', shared⟩, hstep, h⟩ := bind_eq_ok h
    cases h
    refine Or.inr ⟨w, a, w', shared, rfl, ?_, rfl, rfl, rfl, ?_⟩
    · cases hworker : w.step setup.build setup.ops (setup.env p) (.worker p) s.shared with
      | error f =>
        rw [hworker] at hstep
        cases hstep
      | ok r =>
        rw [hworker] at hstep
        cases hstep
        rfl
    · rintro id rfl
      unfold Server.useArg at huse
      split at huse
      · obtain ⟨c, -, huse⟩ := bind_eq_ok huse
        split at huse
        · cases huse
        · cases huse
      · cases huse

/-- The timer thread leaves `main` and the workers alone, and the mutex if a worker
has it. -/
theorem Server.timerStep_frame {fopenOk : Bool} {info : Tm}
    (h : s.timerStep setup fopenOk info = .ok (e, s')) :
    e = .silent ∧ s'.pc = s.pc ∧ s'.workers = s.workers ∧
      ∀ p, s'.shared.mutex = some (.worker p) ↔ s.shared.mutex = some (.worker p) := by
  unfold Server.timerStep at h
  cases htimer : s.timer with
  | absent | done =>
    simp only [htimer] at h
    cases h
    exact ⟨rfl, rfl, rfl, fun _ => Iff.rfl⟩
  | sleep =>
    simp only [htimer] at h
    cases h
    exact ⟨rfl, rfl, rfl, fun _ => Iff.rfl⟩
  | write =>
    simp only [htimer] at h
    cases h
    exact ⟨rfl, rfl, rfl, fun _ => Iff.rfl⟩
  | lock =>
    simp only [htimer] at h
    split at h
    · rename_i hfree
      cases h
      refine ⟨rfl, rfl, rfl, fun p => ?_⟩
      rw [hfree]
      exact iff_of_false nofun nofun
    · cases h
      exact ⟨rfl, rfl, rfl, fun _ => Iff.rfl⟩
  | unlock =>
    simp only [htimer] at h
    obtain ⟨shared, hrelease, h⟩ := bind_eq_ok h
    cases h
    cases hshared : s.shared.release .timer with
    | error f =>
      rw [hshared] at hrelease
      cases hrelease
    | ok shared' =>
      rw [hshared] at hrelease
      cases hrelease
      obtain ⟨hmine, rfl⟩ := Shared.eq_of_release hshared
      refine ⟨rfl, rfl, rfl, fun p => ?_⟩
      rw [hmine]
      exact iff_of_false nofun nofun

/-! ## Workers and the mutex -/

/-- Every worker is on its way, and who is in the critical section has the
mutex. -/
structure Server.Orderly (setup : Setup σ) (s : Server σ) : Prop where
  reports : ∀ p w, s.workers p = some w → w.Reports setup.build (setup.env p)
  held : ∀ p w, s.workers p = some w →
    (w.pc.holds = true ↔ s.shared.mutex = some (.worker p))
  owner : ∀ p, s.shared.mutex = some (.worker p) → s.workers p ≠ none

theorem Server.orderly_start (setup : Setup σ) (dev : σ) : (Server.start dev).Orderly setup where
  reports _ _ h := by cases h
  held _ _ h := by cases h
  owner _ h := by cases h

namespace Server.Orderly

/-- Steps that leave the workers alone, and the mutex if a worker has it. -/
theorem of_workers (h : s.Orderly setup) (hworkers : s'.workers = s.workers)
    (hmutex : ∀ p, s'.shared.mutex = some (.worker p) ↔ s.shared.mutex = some (.worker p)) :
    s'.Orderly setup where
  reports p w hw := h.reports p w (by rwa [hworkers] at hw)
  held p w hw := by
    rw [hworkers] at hw
    rw [hmutex]
    exact h.held p w hw
  owner p hp := by
    rw [hworkers]
    exact h.owner p ((hmutex p).mp hp)

theorem mainStep (h : s.Orderly setup) (hinv : Inv setup trace s ps) {ok : Bool}
    (hstep : s.mainStep setup ok = .ok (e, s')) : s'.Orderly setup := by
  obtain ⟨hshared, hworkers | ⟨q, hpc, hworkers⟩⟩ := mainStep_frame hstep
  · exact h.of_workers hworkers fun p => by rw [hshared]
  · -- The new worker does not have the mutex.
    have hfree : s.shared.mutex ≠ some (.worker q) := fun hq =>
      h.owner q hq (hinv.uncreated q hpc)
    have hself : s'.workers q = some .start := by rw [hworkers, Function.update_self]
    have hother (p : Nat) (hp : p ≠ q) : s'.workers p = s.workers p := by
      rw [hworkers, Function.update_of_ne hp]
    constructor
    · intro p w hw
      by_cases hp : p = q
      · rw [hp, hself] at hw
        rw [← Option.some.inj hw]
        exact Worker.reports_start _ _
      · exact h.reports p w ((hother p hp).symm.trans hw)
    · intro p w hw
      rw [hshared]
      by_cases hp : p = q
      · rw [hp, hself] at hw
        rw [hp, ← Option.some.inj hw]
        exact iff_of_false nofun hfree
      · exact h.held p w ((hother p hp).symm.trans hw)
    · intro p hp
      rw [hshared] at hp
      by_cases hpq : p = q
      · rw [hpq, hself]
        nofun
      · rw [hother p hpq]
        exact h.owner p hp

theorem workerStep (h : s.Orderly setup) {p : Nat}
    (hstep : s.workerStep setup p = .ok (e, s')) : s'.Orderly setup := by
  rcases workerStep_cases hstep with ⟨-, rfl⟩ | ⟨w, a, w', shared, hw, hmove, -, rfl, hworkers, -⟩
  · exact h
  · have hpasses := (Worker.step_moves hmove).mutex
    have hself : s'.workers p = some w' := by rw [hworkers, Function.update_self]
    have hother (q : Nat) (hq : q ≠ p) : s'.workers q = s.workers q := by
      rw [hworkers, Function.update_of_ne hq]
    have hmutex (q : Nat) (hq : q ≠ p) :
        s'.shared.mutex = some (.worker q) ↔ s.shared.mutex = some (.worker q) :=
      hpasses.others fun heq => hq (ThreadId.worker.inj heq)
    constructor
    · intro q w'' hw''
      by_cases hq : q = p
      · rw [hq, hself] at hw''
        rw [hq, ← Option.some.inj hw'']
        exact (h.reports p w hw).step hmove
      · exact h.reports q w'' ((hother q hq).symm.trans hw'')
    · intro q w'' hw''
      by_cases hq : q = p
      · rw [hq, hself] at hw''
        rw [hq, ← Option.some.inj hw'']
        exact hpasses.mine (h.held p w hw)
      · rw [hmutex q hq]
        exact h.held q w'' ((hother q hq).symm.trans hw'')
    · intro q hmine
      by_cases hq : q = p
      · rw [hq, hself]
        nofun
      · rw [hother q hq]
        exact h.owner q ((hmutex q hq).mp hmine)

theorem step (h : s.Orderly setup) (hinv : Inv setup trace s ps) {act : Act}
    (hstep : s.step setup act = .ok (e, s')) : s'.Orderly setup := by
  cases act with
  | main ok => exact h.mainStep hinv hstep
  | worker p => exact h.workerStep hstep
  | timer fopenOk info =>
    obtain ⟨-, -, hworkers, hmutex⟩ := timerStep_frame hstep
    exact h.of_workers hworkers hmutex
  | signal =>
    cases hstep
    exact h.of_workers rfl fun _ => Iff.rfl

/-- A worker that has set its flag has the mutex, so nothing keeps it from
returning. -/
theorem unlockDone_step (h : s.Orderly setup) {p : Nat} {w : Worker} (hw : s.workers p = some w)
    (hpc : w.pc = .unlockDone) :
    ∃ s', s.workerStep setup p = .ok (.silent, s') ∧ s'.pc = s.pc ∧
      s'.workers p = some { w with pc := .done } := by
  have hmutex : s.shared.mutex = some (.worker p) := (h.held p w hw).mp (by rw [hpc]; rfl)
  refine ⟨{ s with
    workers := Function.update s.workers p (some { w with pc := .done })
    shared := { s.shared with mutex := none } }, ?_, rfl, Function.update_self _ _ _⟩
  simp only [Server.workerStep, hw, Worker.step_unlockDone hpc hmutex, hpc]
  rfl

end Server.Orderly

/-- What holds over every run. -/
theorem Server.run_orderly (hinv : Inv setup trace s ps) (h : s.Orderly setup) {acts : List Act}
    (hrun : s.run setup acts = .ok (events, s')) :
    s'.Orderly setup ∧ ∃ ps', Inv setup (trace ++ events) s' ps' := by
  induction acts generalizing trace s ps events with
  | nil =>
    cases hrun
    refine ⟨h, ps, ?_⟩
    rwa [List.append_nil]
  | cons act acts ih =>
    obtain ⟨⟨e, s₁⟩, hstep, hrun⟩ := bind_eq_ok hrun
    obtain ⟨⟨events', s₂⟩, hrest, hrun⟩ := bind_eq_ok hrun
    cases hrun
    rcases hinv.step act with ⟨f, herror⟩ | ⟨e', s₁', ps₁, hok, hinv₁⟩
    · exact absurd (hstep.symm.trans herror) nofun
    · obtain ⟨rfl, rfl⟩ := Prod.mk.inj (Except.ok.inj (hstep.symm.trans hok))
      rw [List.append_cons]
      exact ih hinv₁ (h.step hinv hstep) hrest

/-! ## A sweep -/

/-- The steps of a sweep: a run that ends when `main` is back at the head of its
loop. -/
def Server.sweep (setup : Setup σ) :
    Server σ → List Act → Except Crash (List LifeEvent × Server σ)
  | s, [] => .ok ([], s)
  | s, act :: acts =>
    if s.pc = .loopHead then .ok ([], s)
    else do
      let (event, s) ← s.step setup act
      let (events, s) ← s.sweep setup acts
      return (event :: events, s)

/-- The worker of the node has set its flag. -/
def Server.Flagged (s : Server σ) (p : Nat) : Prop :=
  ∃ w, s.workers p = some w ∧ w.bThreadCompleted = true

/-- The worker of the node did not return with its flag. -/
def Server.Unreported (s : Server σ) (p : Nat) : Prop :=
  ∀ w, s.workers p = some w → w.pc = .done → w.bThreadCompleted = false

/-- Where a sweep of the list is.  The nodes in front of it stay in the list, and the
number bounds the steps of `main` that are ahead. -/
inductive MainPc.Sweeps (stays flagged joined : Nat → Prop) : List Nat → MainPc → Nat → Prop
  | first (ps : List Nat) : Sweeps stays flagged joined ps (.first .sweep) (5 * ps.length + 2)
  | walk (pre post) (hpre : ∀ p ∈ pre, stays p) :
      Sweeps stays flagged joined (pre ++ post) (.walk .sweep post.head?) (5 * post.length + 1)
  | test (pre q post) (hpre : ∀ p ∈ pre, stays p) :
      Sweeps stays flagged joined (pre ++ q :: post) (.test q post.head?) (5 * post.length + 5)
  | join (pre q post) (hpre : ∀ p ∈ pre, stays p) (hq : flagged q) :
      Sweeps stays flagged joined (pre ++ q :: post) (.join .sweep q post.head?)
        (5 * post.length + 4)
  | remove (pre q post) (hpre : ∀ p ∈ pre, stays p) (hq : joined q) :
      Sweeps stays flagged joined (pre ++ q :: post) (.remove .sweep q post.head?)
        (5 * post.length + 3)
  | free (pre q post) (hpre : ∀ p ∈ pre, stays p) (hq : joined q) :
      Sweeps stays flagged joined (pre ++ post) (.free .sweep q post.head?) (5 * post.length + 2)
  | ended (ps : List Nat) (hps : ∀ p ∈ ps, stays p) : Sweeps stays flagged joined ps .loopHead 0

theorem MainPc.Sweeps.mono {stays flagged flagged' joined joined' : Nat → Prop} {pc : MainPc}
    {rest : Nat} (h : Sweeps stays flagged joined ps pc rest)
    (hflagged : ∀ p, flagged p → flagged' p) (hjoined : ∀ p, joined p → joined' p) :
    Sweeps stays flagged' joined' ps pc rest := by
  cases h with
  | first => exact .first _
  | walk pre post hpre => exact .walk pre post hpre
  | test pre q post hpre => exact .test pre q post hpre
  | join pre q post hpre hq => exact .join pre q post hpre (hflagged q hq)
  | remove pre q post hpre hq => exact .remove pre q post hpre (hjoined q hq)
  | free pre q post hpre hq => exact .free pre q post hpre (hjoined q hq)
  | ended ps hps => exact .ended ps hps

/-- The invariant of a sweep that began in `s₁` with the list `ps₁`.  What left the
list was joined, and it is freed or `main` has it in its hand. -/
structure Server.Sweeping (s₁ : Server σ) (ps₁ : List Nat) (events : List LifeEvent)
    (s : Server σ) (ps : List Nat) (rest : Nat) : Prop where
  place : MainPc.Sweeps s₁.Unreported s.Flagged (fun p => .joined (some (.worker p)) ∈ events)
    ps s.pc rest
  subset : ps ⊆ ps₁
  gone : ∀ p ∈ ps₁, p ∉ ps → .joined (some (.worker p)) ∈ events ∧
    (s.pc.outside = some p ∨ .freed p ∈ events)
  flagged : ∀ p, .joined (some (.worker p)) ∈ events → s.Flagged p
  kept : ∀ p w, s₁.workers p = some w → w.pc = .done → s.workers p = some w

namespace Server.Sweeping

variable {s₁ : Server σ} {ps₁ : List Nat} {rest rest' : Nat}

theorem begin (s : Server σ) (ps : List Nat) (hpc : s.pc = .first .sweep) :
    Sweeping s ps [] s ps (5 * ps.length + 2) where
  place := by
    rw [hpc]
    exact .first ps
  subset := List.Subset.refl ps
  gone p hp hgone := absurd hp hgone
  flagged _ h := by cases h
  kept _ _ hw _ := hw

/-- A step of one of the threads. -/
theorem thread (h : Sweeping s₁ ps₁ events s ps rest) (he : ∀ id, e ≠ .joined id)
    (hpc : s'.pc = s.pc)
    (hworkers : ∀ p w, s.workers p = some w → ∃ w', s'.workers p = some w' ∧
      (w.pc = .done → w' = w) ∧ (w.bThreadCompleted = true → w'.bThreadCompleted = true)) :
    Sweeping s₁ ps₁ (events ++ [e]) s' ps rest := by
  have hflagged (p : Nat) : s.Flagged p → s'.Flagged p := by
    rintro ⟨w, hw, hflag⟩
    obtain ⟨w', hw', -, hkeep⟩ := hworkers p w hw
    exact ⟨w', hw', hkeep hflag⟩
  constructor
  · rw [hpc]
    exact h.place.mono hflagged fun _ => List.mem_append_left _
  · exact h.subset
  · intro p hp hgone
    rw [hpc]
    exact (h.gone p hp hgone).imp (List.mem_append_left _) (Or.imp_right (List.mem_append_left _))
  · intro p hp
    rcases List.mem_append.mp hp with hp | hp
    · exact hflagged p (h.flagged p hp)
    · exact absurd (List.mem_singleton.mp hp).symm (he _)
  · intro p w hw hdone
    obtain ⟨w', hw', hsame, -⟩ := hworkers p w (h.kept p w hw hdone)
    rw [hw', hsame hdone]

/-- A step of `main` that takes no node from the list. -/
theorem goto (h : Sweeping s₁ ps₁ events s ps rest) {pc : MainPc}
    (he : ∀ p, e = .joined (some (.worker p)) → s.Flagged p) (hout : s.pc.outside = none)
    (hplace : MainPc.Sweeps s₁.Unreported s.Flagged
      (fun p => .joined (some (.worker p)) ∈ events ++ [e]) ps pc rest') :
    Sweeping s₁ ps₁ (events ++ [e]) { s with pc := pc } ps rest' where
  place := hplace
  subset := h.subset
  gone p hp hgone := by
    obtain ⟨hjoined, hfreed⟩ := h.gone p hp hgone
    rw [hout] at hfreed
    exact ⟨List.mem_append_left _ hjoined,
      Or.inr (List.mem_append_left _ (hfreed.resolve_left nofun))⟩
  flagged p hp := by
    rcases List.mem_append.mp hp with hp | hp
    · exact h.flagged p hp
    · exact he p (List.mem_singleton.mp hp).symm
  kept := h.kept

variable {pre post : List Nat} {q : Nat}

/-- The node is taken from the list. -/
theorem remove (h : Sweeping s₁ ps₁ events s (pre ++ q :: post) rest)
    (hpc : s.pc = .remove .sweep q post.head?) (hpre : ∀ p ∈ pre, s₁.Unreported p)
    (hq : .joined (some (.worker q)) ∈ events) {nodes : Store Nat ThreadData}
    {head : Option Nat} :
    Sweeping s₁ ps₁ (events ++ [.silent])
      { s with pc := .free .sweep q post.head?, nodes := nodes, head := head } (pre ++ post)
      (5 * post.length + 2) := by
  constructor
  · exact .free pre q post hpre (List.mem_append_left _ hq)
  · intro p hp
    apply h.subset
    rw [List.mem_append, List.mem_cons]
    exact (List.mem_append.mp hp).imp_right Or.inr
  · intro p hp hgone
    by_cases hpq : p = q
    · exact ⟨List.mem_append_left _ (hpq ▸ hq), Or.inl (congrArg some hpq.symm)⟩
    · have hgone' : p ∉ pre ++ q :: post := by
        simpa [hpq] using hgone
      obtain ⟨hjoined, hfreed⟩ := h.gone p hp hgone'
      rw [hpc] at hfreed
      exact ⟨List.mem_append_left _ hjoined,
        Or.inr (List.mem_append_left _ (hfreed.resolve_left nofun))⟩
  · intro p hp
    exact h.flagged p (by simpa using hp)
  · exact h.kept

/-- The node is freed. -/
theorem free (h : Sweeping s₁ ps₁ events s (pre ++ post) rest)
    (hpc : s.pc = .free .sweep q post.head?) (hpre : ∀ p ∈ pre, s₁.Unreported p)
    {nodes : Store Nat ThreadData} :
    Sweeping s₁ ps₁ (events ++ [.freed q]) { s with pc := .walk .sweep post.head?, nodes := nodes }
      (pre ++ post) (5 * post.length + 1) := by
  constructor
  · exact .walk pre post hpre
  · exact h.subset
  · intro p hp hgone
    obtain ⟨hjoined, hfreed⟩ := h.gone p hp hgone
    rw [hpc] at hfreed
    refine ⟨List.mem_append_left _ hjoined, Or.inr ?_⟩
    rcases hfreed with hq | hfreed
    · obtain rfl := Option.some.inj hq
      exact List.mem_append_right _ List.mem_cons_self
    · exact List.mem_append_left _ hfreed
  · intro p hp
    exact h.flagged p (by simpa using hp)
  · exact h.kept

/-- A step of `main` goes on with the sweep, or it waits for a worker that has set
its flag and has not returned yet. -/
theorem mainStep (h : Sweeping s₁ ps₁ events s ps rest) (hinv : Inv setup trace s ps)
    (hpc : s.pc ≠ .loopHead) (ok : Bool) :
    ∃ e s' ps' rest', s.mainStep setup ok = .ok (e, s') ∧ Inv setup (trace ++ [e]) s' ps' ∧
      Sweeping s₁ ps₁ (events ++ [e]) s' ps' rest' ∧
      (rest' < rest ∨ ∃ q tmp w, s.pc = .join .sweep q tmp ∧ s.workers q = some w ∧
        w.bThreadCompleted = true ∧ w.pc ≠ .done) := by
  have hplace := h.place
  generalize hs : s.pc = pc at hplace
  cases hplace with
  | first =>
    obtain ⟨hstep, hinv'⟩ := hinv.mainStep_first hs ok
    refine ⟨_, _, _, _, hstep, hinv', h.goto nofun (by rw [hs]; rfl) (.walk [] ps nofun), ?_⟩
    exact Or.inl (by omega)
  | walk pre post hpre =>
    cases post with
    | nil =>
      obtain ⟨hstep, hinv'⟩ := hinv.mainStep_leave hs ok
      refine ⟨_, _, _, _, hstep, hinv', h.goto nofun (by rw [hs]; rfl) (.ended _ ?_), ?_⟩
      · rwa [List.append_nil]
      · exact Or.inl (by omega)
    | cons q post =>
      obtain ⟨hstep, hinv'⟩ := hinv.mainStep_walk hs ok
      refine ⟨_, _, _, _, hstep, hinv',
        h.goto nofun (by rw [hs]; rfl) (.test pre q post hpre), ?_⟩
      refine Or.inl ?_
      rw [List.length_cons]
      omega
  | test pre q post hpre =>
    obtain ⟨c, -, hd, -⟩ := hinv.node (Or.inl (List.mem_append_right pre List.mem_cons_self))
    have hflag := hinv.flag q _ hd
    by_cases hc : c.value.bThreadCompleted = true
    · obtain ⟨hstep, hinv'⟩ := hinv.mainStep_test hs hd ok (if_pos hc).symm
      rw [hc, eq_comm, Option.any_eq_true] at hflag
      exact ⟨_, _, _, _, hstep, hinv',
        h.goto nofun (by rw [hs]; rfl) (.join pre q post hpre hflag), Or.inl (Nat.lt_succ_self _)⟩
    · obtain ⟨hstep, hinv'⟩ := hinv.mainStep_test hs hd ok (if_neg hc).symm
      -- The node stays in the list, and its worker had not returned with its flag.
      have hstays : s₁.Unreported q := by
        intro w hw hdone
        rw [h.kept q w hw hdone] at hflag
        rwa [Bool.not_eq_true, hflag] at hc
      have hpre' : ∀ p ∈ pre ++ [q], s₁.Unreported p := by
        intro p hp
        rcases List.mem_append.mp hp with hp | hp
        · exact hpre p hp
        · rwa [List.mem_singleton.mp hp]
      have hplace' : MainPc.Sweeps s₁.Unreported s.Flagged
          (fun p => .joined (some (.worker p)) ∈ events ++ [.silent]) (pre ++ [q] ++ post)
          (.walk .sweep post.head?) (5 * post.length + 1) := .walk (pre ++ [q]) post hpre'
      rw [List.append_assoc, List.singleton_append] at hplace'
      exact ⟨_, _, _, _, hstep, hinv', h.goto nofun (by rw [hs]; rfl) hplace', Or.inl (by omega)⟩
  | join pre q post hpre hq =>
    have hmem : q ∈ pre ++ q :: post := List.mem_append_right pre List.mem_cons_self
    obtain ⟨w, hw, hflag⟩ := hq
    by_cases hdone : w.pc = .done
    · obtain ⟨hstep, hinv'⟩ := hinv.mainStep_join hmem hs hw hdone ok
      refine ⟨_, _, _, _, hstep, hinv', h.goto (fun p hp => ?_) (by rw [hs]; rfl)
        (.remove pre q post hpre ?_), ?_⟩
      · obtain rfl : q = p := by simpa using hp
        exact ⟨w, hw, hflag⟩
      · exact List.mem_append_right _ List.mem_cons_self
      · exact Or.inl (by omega)
    · refine ⟨_, s, _, _, hinv.mainStep_wait hmem hs hw hdone ok, hinv.silent,
        h.thread nofun rfl fun p w' hw' => ⟨w', hw', fun _ => rfl, id⟩, ?_⟩
      exact Or.inr ⟨q, post.head?, w, rfl, hw, hflag, hdone⟩
  | remove pre q post hpre hq =>
    obtain ⟨nodes, head, hstep, hinv'⟩ := hinv.mainStep_remove hs nofun ok
    exact ⟨_, _, _, _, hstep, hinv', h.remove hs hpre hq, Or.inl (Nat.lt_succ_self _)⟩
  | free pre q post hpre hq =>
    obtain ⟨hstep, hinv'⟩ := hinv.mainStep_free hs ok
    exact ⟨_, _, _, _, hstep, hinv', h.free hs hpre, Or.inl (Nat.lt_succ_self _)⟩
  | ended => exact absurd hs hpc

theorem workerStep (h : Sweeping s₁ ps₁ events s ps rest) {p : Nat}
    (hstep : s.workerStep setup p = .ok (e, s')) :
    Sweeping s₁ ps₁ (events ++ [e]) s' ps rest := by
  rcases workerStep_cases hstep with
    ⟨rfl, rfl⟩ | ⟨w, a, w', shared, hw, hmove, hpc, -, hworkers, he⟩
  · exact h.thread nofun rfl fun q w hw => ⟨w, hw, fun _ => rfl, id⟩
  · refine h.thread he hpc fun q w'' hw'' => ?_
    rw [hworkers]
    by_cases hq : q = p
    · subst hq
      obtain rfl := Option.some.inj (hw.symm.trans hw'')
      refine ⟨w', Function.update_self _ _ _, fun hdone => ?_, fun hflag => ?_⟩
      · exact (Worker.step_unique hmove (Worker.step_done hdone)).2.1
      · rw [(Worker.step_moves hmove).flag, hflag]
        rfl
    · exact ⟨w'', by rw [Function.update_of_ne hq, hw''], fun _ => rfl, id⟩

/-- A step of a sweep. -/
theorem step (h : Sweeping s₁ ps₁ events s ps rest) (hinv : Inv setup trace s ps)
    (hpc : s.pc ≠ .loopHead) {act : Act} (hstep : s.step setup act = .ok (e, s')) :
    ∃ ps' rest', Inv setup (trace ++ [e]) s' ps' ∧
      Sweeping s₁ ps₁ (events ++ [e]) s' ps' rest' := by
  cases act with
  | main ok =>
    obtain ⟨e', s'', ps', rest', hok, hinv', h', -⟩ := h.mainStep hinv hpc ok
    obtain ⟨rfl, rfl⟩ := Prod.mk.inj (Except.ok.inj (hok.symm.trans hstep))
    exact ⟨ps', rest', hinv', h'⟩
  | worker p =>
    exact ⟨ps, rest, hinv.of_workerStep hstep, h.workerStep hstep⟩
  | timer fopenOk info =>
    have hinv' := hinv.of_timerStep hstep
    obtain ⟨rfl, hpc', hworkers, -⟩ := timerStep_frame hstep
    refine ⟨ps, rest, hinv', h.thread nofun hpc' fun q w hw => ⟨w, ?_, fun _ => rfl, id⟩⟩
    rw [hworkers, hw]
  | signal =>
    cases hstep
    exact ⟨ps, rest, hinv.other true Iff.rfl s.shared,
      h.thread nofun rfl fun q w hw => ⟨w, hw, fun _ => rfl, id⟩⟩

/-- What holds over a sweep. -/
theorem sweep (h : Sweeping s₁ ps₁ events s ps rest) (hinv : Inv setup trace s ps)
    (ho : s.Orderly setup) {acts : List Act} {events' : List LifeEvent}
    (hsweep : s.sweep setup acts = .ok (events', s')) :
    s'.Orderly setup ∧ ∃ ps' rest', Inv setup (trace ++ events') s' ps' ∧
      Sweeping s₁ ps₁ (events ++ events') s' ps' rest' := by
  induction acts generalizing trace events s ps rest events' with
  | nil =>
    cases hsweep
    rw [List.append_nil, List.append_nil]
    exact ⟨ho, ps, rest, hinv, h⟩
  | cons act acts ih =>
    rw [Server.sweep] at hsweep
    split at hsweep
    · cases hsweep
      rw [List.append_nil, List.append_nil]
      exact ⟨ho, ps, rest, hinv, h⟩
    · rename_i hpc
      obtain ⟨⟨e, s₂⟩, hstep, hsweep⟩ := bind_eq_ok hsweep
      obtain ⟨⟨events₂, s₃⟩, hrest, hsweep⟩ := bind_eq_ok hsweep
      cases hsweep
      obtain ⟨ps', rest', hinv', h'⟩ := h.step hinv hpc hstep
      rw [List.append_cons trace, List.append_cons events]
      exact ih h' hinv' (ho.step hinv hstep) hrest

/-- What a sweep that is over leaves in the list. -/
theorem unreported (h : Sweeping s₁ ps₁ events s ps rest) (hover : s.pc = .loopHead) :
    ∀ p ∈ ps, s₁.Unreported p := by
  have hplace := h.place
  rw [hover] at hplace
  cases hplace with
  | ended _ hps => exact hps

theorem sweep_cons {act : Act} {acts : List Act} {s₂ s₃ : Server σ} (hpc : s.pc ≠ .loopHead)
    (hstep : s.step setup act = .ok (e, s₂)) (hrest : s₂.sweep setup acts = .ok (events, s₃)) :
    s.sweep setup (act :: acts) = .ok (e :: events, s₃) := by
  simp only [Server.sweep, if_neg hpc, hstep, ok_bind, hrest, pure_eq_ok]

/-- From wherever a sweep is, it can be completed: `main` goes on, and where it
waits for a worker, the worker has one step to go. -/
theorem completes (h : Sweeping s₁ ps₁ events s ps rest) (hinv : Inv setup trace s ps)
    (ho : s.Orderly setup) :
    ∃ acts events' s', s.sweep setup acts = .ok (events', s') ∧ s'.pc = .loopHead := by
  induction rest using Nat.strongRecOn generalizing trace events s ps with
  | ind rest ih =>
    by_cases hpc : s.pc = .loopHead
    · exact ⟨[], [], s, rfl, hpc⟩
    obtain ⟨e, s₂, ps₂, rest₂, hstep, hinv₂, h₂, hlt | ⟨q, tmp, w, hjoin, hw, hflag, hdone⟩⟩ :=
      h.mainStep hinv hpc true
    · obtain ⟨acts, events', s', hsweep, hover⟩ := ih rest₂ hlt h₂ hinv₂ (ho.mainStep hinv hstep)
      exact ⟨.main true :: acts, e :: events', s', sweep_cons hpc hstep hsweep, hover⟩
    · have hunlock : w.pc = .unlockDone :=
        ((ho.reports q w hw).flag.mp hflag).resolve_right fun hd => hdone hd.1
      obtain ⟨s₃, hworker, hpc₃, hw₃⟩ := ho.unlockDone_step hw hunlock
      have hinv₃ := hinv.of_workerStep hworker
      have h₃ := h.workerStep hworker
      have ho₃ := ho.workerStep hworker
      have hpc' : s₃.pc ≠ .loopHead := by rwa [hpc₃]
      obtain ⟨e₄, s₄, ps₄, rest₄, hstep₄, hinv₄, h₄, hnext⟩ := h₃.mainStep hinv₃ hpc' true
      rcases hnext with hlt | ⟨q', tmp', w', hjoin', hw', -, hdone'⟩
      · have ho₄ := ho₃.mainStep hinv₃ hstep₄
        obtain ⟨acts, events', s', hsweep, hover⟩ := ih rest₄ hlt h₄ hinv₄ ho₄
        exact ⟨.worker q :: .main true :: acts, _, s',
          sweep_cons hpc hworker (sweep_cons hpc' hstep₄ hsweep), hover⟩
      · rw [hpc₃, hjoin, MainPc.join.injEq] at hjoin'
        obtain ⟨-, rfl, -⟩ := hjoin'
        rw [hw₃] at hw'
        exact absurd (congrArg Worker.pc (Option.some.inj hw')).symm hdone'

end Server.Sweeping

theorem Server.exists_of_finished {p : Nat} (h : s.finished (.worker p) = true) :
    ∃ w, s.workers p = some w ∧ w.pc = .done := by
  rw [Server.finished, Option.any_eq_true] at h
  obtain ⟨w, hw, hdone⟩ := h
  exact ⟨w, hw, of_decide_eq_true hdone⟩

/-- A worker that has returned and was not joined is that of a node in the list. -/
theorem Server.Inv.mem_of_finished (h : Inv setup trace s ps) (hpc : s.pc = .first .sweep)
    {p : Nat} (hfinished : s.finished (.worker p) = true)
    (hjoined : .joined (some (.worker p)) ∉ trace) : p ∈ ps := by
  have hmade : s.Made (.worker p) := by
    intro hnone
    rw [Server.finished, hnone] at hfinished
    cases hfinished
  have hheld : s.Made (.worker p) ∧ s.Pending (.worker p) := by
    by_contra hnot
    have hone := h.threads.ledger.released (.worker p) hmade hnot
    exact Nat.one_ne_zero (hone.symm.trans (List.count_eq_zero.mpr hjoined))
  rcases (h.live p).mp hheld.2.1 with hmem | hout
  · exact hmem
  · rw [hpc] at hout
    cases hout

/-- A sweep of the list can be completed from wherever it is.  When it is over, the
workers that had returned before it began are joined, their nodes are freed and
not in the list, but for those that returned because a call of `open` failed, and
these are not joined.  What is left in the list are workers that had not returned
when the sweep began, those that had returned because a call of `open` failed, and
nodes whose `pthread_create` failed. -/
theorem sweep_reaps_iff (setup : Setup σ) (dev : σ) {acts₁ acts₂ : List Act}
    {trace₁ trace₂ : List LifeEvent} {s₁ s₂ : Server σ}
    (hrun : (Server.start dev).run setup acts₁ = .ok (trace₁, s₁)) (hpc : s₁.pc = .first .sweep)
    (hsweep : s₁.sweep setup acts₂ = .ok (trace₂, s₂)) :
    (∃ acts₃ trace₃ s₃, s₂.sweep setup acts₃ = .ok (trace₃, s₃) ∧ s₃.pc = .loopHead) ∧
    (s₂.pc = .loopHead → ∃ ps, Linked s₂.nodes s₂.head ps ∧
      (∀ p, s₁.finished (.worker p) = true → .joined (some (.worker p)) ∉ trace₁ →
        (.joined (some (.worker p)) ∈ trace₂ ∧ .freed p ∈ trace₂ ∧ s₂.nodes p = none ∧ p ∉ ps ↔
          ¬ (setup.env p).OpenFails setup.build)) ∧
      ∀ p ∈ ps, .createFailed (.worker p) ∈ trace₁ ∨
        s₁.workers p ≠ none ∧
          (s₁.finished (.worker p) = true → (setup.env p).OpenFails setup.build)) := by
  obtain ⟨ho₁, ps₁, hinv₁⟩ := Server.run_orderly (Server.Inv.start setup dev)
    (Server.orderly_start setup dev) hrun
  rw [List.nil_append] at hinv₁
  obtain ⟨ho₂, ps, rest, hinv₂, h⟩ :=
    (Server.Sweeping.begin s₁ ps₁ hpc).sweep hinv₁ ho₁ hsweep
  rw [List.nil_append] at h
  refine ⟨h.completes hinv₂ ho₂, fun hover => ⟨ps, hinv₂.linked, fun p hfinished hjoined => ?_,
    fun p hp => ?_⟩⟩
  · obtain ⟨w, hw, hdone⟩ := Server.exists_of_finished hfinished
    have hreport : w.bThreadCompleted = true ↔ ¬ (setup.env p).OpenFails setup.build := by
      rw [(ho₁.reports p w hw).flag, hdone]
      simp
    rw [← hreport]
    constructor
    · rintro ⟨hj, -⟩
      obtain ⟨w', hw', hflag⟩ := h.flagged p hj
      rwa [Option.some.inj ((h.kept p w hw hdone).symm.trans hw')]
    · intro hflag
      have hleft : p ∉ ps := fun hp =>
        absurd (hflag.symm.trans (h.unreported hover p hp w hw hdone)) nofun
      obtain ⟨hj, hout⟩ := h.gone p (hinv₁.mem_of_finished hpc hfinished hjoined) hleft
      rw [hover] at hout
      refine ⟨hj, hout.resolve_left nofun, ?_, hleft⟩
      by_contra hnode
      have hlive := (hinv₂.live p).mp fun hd => hnode (value_eq_none.mp hd)
      rw [hover] at hlive
      exact hleft (hlive.resolve_right nofun)
  · have hdata : s₁.data p ≠ none := (hinv₁.live p).mpr (Or.inl (h.subset hp))
    by_cases hw : s₁.workers p = none
    · refine Or.inl (hinv₁.threads.unstarted (.worker p) ⟨hdata, hw, ?_⟩)
      rw [hpc]
      nofun
    · refine Or.inr ⟨hw, fun hfinished => ?_⟩
      obtain ⟨w, hw, hdone⟩ := Server.exists_of_finished hfinished
      by_contra hok
      have hflag := (ho₁.reports p w hw).flag.mpr (Or.inr ⟨hdone, hok⟩)
      exact absurd (hflag.symm.trans (h.unreported hover p hp w hw hdone)) nofun

end Server

/-- Clients of a server whose device cannot be opened. -/
def Setup.noDevice : Setup KState :=
  { Setup.silentClients with env := fun _ => { WorkerEnv.succeeding [] with openOk := false } }

/-- A run, and a sweep behind it. -/
def Server.runSweep {σ : Type} (setup : Setup σ) (s : Server σ) (acts₁ acts₂ : List Act) :
    Except Crash ((List LifeEvent × Server σ) × List LifeEvent × Server σ) := do
  let r₁ ← s.run setup acts₁
  let r₂ ← r₁.2.sweep setup acts₂
  return (r₁, r₂)

theorem Server.runSweep_eq_ok {σ : Type} {setup : Setup σ} {s s₁ s₂ : Server σ}
    {acts₁ acts₂ : List Act} {trace₁ trace₂ : List LifeEvent}
    (h : s.runSweep setup acts₁ acts₂ = .ok ((trace₁, s₁), trace₂, s₂)) :
    s.run setup acts₁ = .ok (trace₁, s₁) ∧ s₁.sweep setup acts₂ = .ok (trace₂, s₂) := by
  obtain ⟨r₁, hrun, h⟩ := bind_eq_ok h
  obtain ⟨r₂, hsweep, h⟩ := bind_eq_ok h
  cases h
  exact ⟨hrun, hsweep⟩

/-- A worker that could not open the device has returned before a sweep.  The sweep
leaves its node in the list. -/
theorem failed_open_is_not_reaped :
    ∃ (acts₁ acts₂ : List Act) (trace₁ trace₂ : List LifeEvent) (s₁ s₂ : Server KState),
      (Server.start Driver.loaded.k).run Setup.noDevice acts₁ = .ok (trace₁, s₁) ∧
      s₁.pc = .first .sweep ∧ s₁.finished (.worker 0) = true ∧
      s₁.sweep Setup.noDevice acts₂ = .ok (trace₂, s₂) ∧ s₂.pc = .loopHead ∧
      .joined (some (.worker 0)) ∉ trace₁ ++ trace₂ ∧ .freed 0 ∉ trace₂ ∧
      s₂.head = some 0 ∧ s₂.nodes 0 ≠ none := by
  have hview : ((Server.start Driver.loaded.k).runSweep Setup.noDevice
      (List.replicate 4 (.main true) ++ List.replicate 5 (.worker 0) ++ [.main true])
      (List.replicate 4 (.main true))).toOption.map
      (fun r => (r.1.2.pc, r.1.2.finished (.worker 0), r.2.2.pc, r.2.2.head,
        (r.2.2.nodes 0).isSome,
        decide (.joined (some (.worker 0)) ∉ r.1.1 ++ r.2.1 ∧ .freed 0 ∉ r.2.1))) =
      some (.first .sweep, true, .loopHead, some 0, true, true) := by decide +kernel
  obtain ⟨⟨⟨trace₁, s₁⟩, trace₂, s₂⟩, hboth, hview⟩ := exists_of_view hview
  obtain ⟨hrun, hsweep⟩ := Server.runSweep_eq_ok hboth
  simp only [Prod.mk.injEq, decide_eq_true_iff] at hview
  obtain ⟨hpc, hfinished, hover, hhead, hnode, hjoined, hfreed⟩ := hview
  exact ⟨_, _, trace₁, trace₂, s₁, s₂, hrun, hpc, hfinished, hsweep, hover, hjoined, hfreed, hhead,
    Option.isSome_iff_ne_none.mp hnode⟩

/-- A worker that was served has returned before a sweep, and it is reaped. -/
theorem served_worker_is_reaped :
    ∃ (acts₁ acts₂ : List Act) (trace₁ trace₂ : List LifeEvent) (s₁ s₂ : Server KState),
      (Server.start Driver.loaded.k).run Setup.silentClients acts₁ = .ok (trace₁, s₁) ∧
      s₁.pc = .first .sweep ∧ s₁.finished (.worker 0) = true ∧
      s₁.sweep Setup.silentClients acts₂ = .ok (trace₂, s₂) ∧ s₂.pc = .loopHead ∧
      .joined (some (.worker 0)) ∈ trace₂ ∧ .freed 0 ∈ trace₂ ∧ s₂.nodes 0 = none := by
  have hview : ((Server.start Driver.loaded.k).runSweep Setup.silentClients
      (List.replicate 4 (.main true) ++ List.replicate 16 (.worker 0) ++ [.main true])
      (List.replicate 7 (.main true))).toOption.map
      (fun r => (r.1.2.pc, r.1.2.finished (.worker 0),
        decide (.joined (some (.worker 0)) ∈ r.1.1), r.2.2.pc)) =
      some (.first .sweep, true, false, .loopHead) := by decide +kernel
  obtain ⟨⟨⟨trace₁, s₁⟩, trace₂, s₂⟩, hboth, hview⟩ := exists_of_view hview
  obtain ⟨hrun, hsweep⟩ := Server.runSweep_eq_ok hboth
  simp only [Prod.mk.injEq, decide_eq_false_iff_not] at hview
  obtain ⟨hpc, hfinished, hjoined, hover⟩ := hview
  have hopens : ¬ (Setup.silentClients.env 0).OpenFails Setup.silentClients.build := by
    rintro (hopen | ⟨hbuild, -⟩)
    · cases hopen
    · cases hbuild
  obtain ⟨ps, -, hreaps, -⟩ := (sweep_reaps_iff _ _ hrun hpc hsweep).2 hover
  obtain ⟨hj, hfreed, hnode, -⟩ := (hreaps 0 hfinished hjoined).mpr hopens
  exact ⟨_, _, trace₁, trace₂, s₁, s₂, hrun, hpc, hfinished, hsweep, hover, hj, hfreed, hnode⟩

end AesdChar
