import AesdChar.Scull.Bare.Refine
import Mathlib.Data.List.Induction

/-!
# What a bare device delivers

The results about whole runs of a bare device.  `scull_run_file` says that a run
is one of a sparse file.  `scull_run_reads` says which byte a read delivers at each
position, and where it shows what was in the memory before.  `scull_run_owns` says that
the device can be emptied at any time and that nothing is left of it then, and
`scull_run_unprivileged` that nothing goes wrong on a device with the default geometry.
-/

namespace AesdChar.Scull

open CodeLib CodeLib.CInt CodeLib.Mutex

/-! ## The last byte at a position -/

section Events

variable {τ : Type} {fs fs' : ScullFiles τ} {e : ScullEvent τ} {events : List (ScullEvent τ)}

/-- What lies at a position behind an event. -/
def ScullEvent.storeAt (p : Nat) (old : Option Byte) : ScullEvent τ → Option Byte
  | .trimmed | .shaped _ => none
  | .written _ pos _ (some bytes) _ =>
    if pos ≤ p ∧ p < pos + bytes.length then bytes[p - pos.toNat]? else old
  | _ => old

/-- The byte that was stored last at a position, if the device was not trimmed since. -/
def ScullEvent.lastStored (events : List (ScullEvent τ)) (p : Nat) : Option Byte :=
  events.foldl (storeAt p) none

/-- A byte is stored where it belongs, and the others stay. -/
theorem ScullFile.join_store (f : ScullFile) {pos : Nat} {bytes : List Byte}
    (hlen : bytes.length ≤ f.quantum - pos % f.quantum) (p : Nat) :
    ((f.store pos bytes).cells p).join =
      if pos ≤ p ∧ p < pos + bytes.length then bytes[p - pos]? else (f.cells p).join := by
  show (if p / f.quantum = pos / f.quantum then some (if _ then _ else _) else _).join = _
  by_cases hk : p / f.quantum = pos / f.quantum
  · rw [if_pos hk, Option.join_some]
  · rw [if_neg hk, if_neg]
    intro hin
    apply hk
    have hpos : 0 < f.quantum := by omega
    have hdiv := @div_add_of_lt pos f.quantum (p - pos) hpos (by omega)
    rw [← hdiv.1]
    congr 1
    omega

variable [DecidableEq τ]

/-- An event stores what it says. -/
theorem ScullEvent.after_storeAt (h : e.after fs = some fs') {p : Nat} :
    (fs'.file.cells p).join = storeAt p (fs.file.cells p).join e := by
  cases e with
  | silent =>
    obtain rfl : fs = fs' := Option.some.inj h
    rfl
  | returned t ret =>
    obtain rfl : fs = fs' := Option.some.inj h
    rfl
  | opened t =>
    obtain rfl := Option.some.inj h
    rfl
  | trimmed =>
    obtain rfl := Option.some.inj h
    rfl
  | shaped quantum =>
    obtain rfl := Option.some.inj h
    rfl
  | sought t off whence ret =>
    rw [after_sought h]
    rfl
  | read t pos count bytes ret =>
    rw [(after_read h).2.2]
    rfl
  | written t pos buf stored ret =>
    obtain ⟨rfl, ⟨rfl, rfl⟩ | ⟨bytes, rfl, hlen, hcells⟩⟩ := after_written h
    · rfl
    · have hroom : bytes.length ≤ fs.file.quantum - fs.fpos t % fs.file.quantum := by
        rw [hlen]
        exact Nat.min_le_right _ _
      rw [hcells, fs.file.join_store hroom]
      show _ = if ((fs.fpos t : Nat) : Int) ≤ p ∧ (p : Int) < fs.fpos t + bytes.length then
        bytes[p - ((fs.fpos t : Nat) : Int).toNat]? else _
      rw [Int.toNat_natCast]
      by_cases hin : fs.fpos t ≤ p ∧ p < fs.fpos t + bytes.length
      · rw [if_pos hin, if_pos (by omega)]
      · rw [if_neg hin, if_neg (by omega)]

/-- The file has at each position what was stored there last. -/
theorem ScullEvent.replay_lastStored (hempty : ∀ p, (fs.file.cells p).join = none)
    (h : replay fs events = some fs') (p : Nat) :
    (fs'.file.cells p).join = lastStored events p := by
  induction events using List.reverseRecOn generalizing fs' with
  | nil =>
    obtain rfl := Option.some.inj h
    exact hempty p
  | append_singleton events e ih =>
    obtain ⟨fs₁, hfront, hafter⟩ := Trace.replay_concat h
    rw [lastStored, List.foldl_append, after_storeAt hafter, ih hfront]
    rfl

end Events

/-! ## Runs -/

section Runs

variable {τ : Type} [DecidableEq τ] {kmalloc : Kmalloc} {mode : τ → FMode} {s : ScullSystem τ}
  {fs : ScullFiles τ} {params : ScullParams} {acts : List (ScullAct τ)}
  {events : List (ScullEvent τ)}

/-- A file that nobody has written, where everybody stands at the front. -/
def ScullFiles.init (params : ScullParams) : ScullFiles τ :=
  ⟨.empty params.scullQuantum.toNat, fun _ => 0⟩

/-- What holds behind a safe run. -/
theorem ScullSystem.run_inv (hsane : SaneGeometry params.scullQuantum params.scullQset)
    (hsafe : (init params).SafeRun kmalloc mode acts)
    (hrun : (init params).run kmalloc mode acts = .ok (events, s)) :
    ∃ fs, ScullEvent.replay (.init params) events = some fs ∧ s.Inv fs := by
  obtain ⟨events', s', fs, hrun', hreplay, hinv⟩ := (Inv.init hsane).run hsafe
  rw [hrun] at hrun'
  obtain ⟨rfl, rfl⟩ := Prod.mk.inj (Except.ok.inj hrun')
  exact ⟨fs, hreplay, hinv⟩

/-- In a run of safe steps nothing goes wrong, and whatever the tasks do to the device
and to each other, they see one sparse file: every read, write and seek answers
as the file does, and the positions and the size are those of the file. -/
theorem scull_run_file (kmalloc : Kmalloc) (mode : τ → FMode) (params : ScullParams)
    (hsane : SaneGeometry params.scullQuantum params.scullQset) (acts : List (ScullAct τ))
    (hsafe : (ScullSystem.init params).SafeRun kmalloc mode acts) :
    ∃ events s fs, (ScullSystem.init params).run kmalloc mode acts = .ok (events, s) ∧
      ScullEvent.replay (.init params) events = some fs ∧
      (∀ t, s.fpos t = fs.fpos t) ∧ s.mem.dev.size = fs.file.size := by
  obtain ⟨events, s, fs, hrun, hreplay, hinv⟩ := (ScullSystem.Inv.init hsane).run hsafe
  exact ⟨events, s, fs, hrun, hreplay, fun t => (hinv.fpos t).1, hinv.shape.size_eq.1⟩

/-- A task opens the device for writing only and writes at two places of it, and another
one reads the device from the front. -/
def writeSeekRead : List (ScullAct Bool) :=
  let steps (t : Bool) (n : Nat) :=
    List.replicate n (ScullAct.step t ⟨false, fun _ => true, true, true, 0⟩)
  .call true .open :: steps true 5 ++ .call true (.op (.write [97, 98, 99])) :: steps true 4 ++
    .call true (.llseek 3 0) :: .call true (.op (.write [100])) :: steps true 4 ++
    .call false .open :: .call false (.op (.read 5)) :: steps false 4 ++
    .call false (.op (.read 5)) :: steps false 4

/-- Quanta of two bytes. -/
def smallScull : ScullParams := ⟨2, 2, SCULL_P_BUFFER⟩

/-- One task writes, and the other one reads. -/
def writerReader (t : Bool) : FMode := ⟨!t, t⟩

theorem saneGeometry_smallScull :
    SaneGeometry smallScull.scullQuantum smallScull.scullQset := by decide

theorem safeRun_writeSeekRead :
    (ScullSystem.init smallScull).SafeRun Kmalloc.onePage writerReader writeSeekRead := by
  decide +kernel

theorem scull_run_file_writeSeekRead :
    ∃ events s fs, (ScullSystem.init smallScull).run Kmalloc.onePage writerReader writeSeekRead =
        .ok (events, s) ∧
      ScullEvent.replay (.init smallScull) events = some fs ∧
      (∀ t, s.fpos t = fs.fpos t) ∧ s.mem.dev.size = fs.file.size :=
  scull_run_file Kmalloc.onePage writerReader smallScull saneGeometry_smallScull writeSeekRead
    safeRun_writeSeekRead

/-- A read delivers at each position the byte that was written there last since the
device was trimmed.  Where nobody has written it delivers whatever was in the memory
of the quantum before. -/
theorem scull_run_reads (hsane : SaneGeometry params.scullQuantum params.scullQset)
    (hsafe : (ScullSystem.init params).SafeRun kmalloc mode acts)
    (hrun : (ScullSystem.init params).run kmalloc mode acts = .ok (events, s))
    {pre post : List (ScullEvent τ)} {t : τ} {pos : Int} {count : Nat}
    {bytes : List (Option Byte)} {ret : Int}
    (hevents : events = pre ++ .read t pos count bytes ret :: post) {i : Nat}
    (hi : i < bytes.length) :
    0 ≤ pos ∧ bytes[i]? = some (ScullEvent.lastStored pre (pos.toNat + i)) := by
  obtain ⟨fs, hreplay, -⟩ := ScullSystem.run_inv hsane hsafe hrun
  rw [hevents, ScullEvent.replay, Trace.replay_append] at hreplay
  obtain ⟨fs₁, hpre, hrest⟩ := Option.bind_eq_some_iff.mp hreplay
  obtain ⟨fs₂, hafter, -⟩ := Option.bind_eq_some_iff.mp hrest
  obtain ⟨rfl, hprefix, -⟩ := ScullEvent.after_read hafter
  have hlast := ScullEvent.replay_lastStored (fun p => rfl) hpre (fs₁.fpos t + i)
  refine ⟨Int.natCast_nonneg _, ?_⟩
  rw [Int.toNat_natCast, ← hlast]
  have hfound : (fs₁.file.read (fs₁.fpos t) count)[i]? = bytes[i]? := by
    obtain ⟨rest, hrest⟩ := hprefix
    rw [← hrest, List.getElem?_append_left hi]
  have hlt : i < (fs₁.file.read (fs₁.fpos t) count).length :=
    Nat.lt_of_lt_of_le hi hprefix.length_le
  rw [← hfound]
  unfold ScullFile.read at hlt ⊢
  split at hlt
  · rename_i hin
    rw [if_pos hin]
    rw [List.length_map, List.length_range] at hlt
    rw [List.getElem?_map, List.getElem?_range hlt]
    rfl
  · cases hlt

/-- The last read finds a byte that nobody has written, and the one behind it. -/
theorem scull_run_reads_writeSeekRead :
    ∃ events s pre, (ScullSystem.init smallScull).run Kmalloc.onePage writerReader writeSeekRead =
        .ok (events, s) ∧
      events = pre ++ [.read false 2 5 [none, some 100] 2] ∧
      some none = some (ScullEvent.lastStored pre 2) ∧
      some (some 100) = some (ScullEvent.lastStored pre 3) := by
  have hview : ((ScullSystem.init smallScull).run Kmalloc.onePage writerReader
      writeSeekRead).toOption.map (fun r => r.1.getLast?) =
        some (some (.read false 2 5 [none, some 100] 2)) := by decide +kernel
  obtain ⟨⟨events, s⟩, hok, hlast⟩ := exists_of_view hview
  have hevents : events = events.dropLast ++ [.read false 2 5 [none, some 100] 2] :=
    (List.dropLast_append_getLast? _ hlast).symm
  have hreads (i : Nat) (hi : i < 2) := scull_run_reads saneGeometry_smallScull
    safeRun_writeSeekRead hok hevents hi
  exact ⟨events, s, events.dropLast, hok, hevents, (hreads 0 (by decide)).2,
    (hreads 1 (by decide)).2⟩

/-- There are no live blocks. -/
structure ScullMem.Blank (m : ScullMem) : Prop where
  qsets : m.qsets.liveAddrs = []
  arrays : m.arrays.liveAddrs = []
  quanta : m.quanta.liveAddrs = []

theorem ScullMem.Bare.blank {m : ScullMem} (h : m.Bare) : m.Blank :=
  ⟨h.qsets.perm_liveAddrs.eq_nil, h.arrays.perm_liveAddrs.eq_nil, h.quanta.perm_liveAddrs.eq_nil⟩

omit [DecidableEq τ] in
/-- Between two calls the device can be emptied. -/
theorem ScullSystem.Inv.trim (h : s.Inv fs) (hfree : s.lock = none) (params : ScullParams) :
    ∃ m, s.mem.trim params = .ok m ∧ m.Blank := by
  have hshape := h.shape
  rw [phase, hfree] at hshape
  obtain ⟨items, hheld⟩ := hshape
  obtain ⟨m, htrim, -, hbare⟩ :=
    ScullMem.trimList_spec hheld.toLayout hheld.qset_pos hheld.qset_eq hheld.data_eq
  refine ⟨((m.trimQuantum params.scullQuantum).trimQset params.scullQset).trimData, ?_,
    hbare.blank.qsets, hbare.blank.arrays, hbare.blank.quanta⟩
  rw [ScullMem.trim, htrim]
  rfl

/-- No block is lost and none is freed twice: between two calls `scull_trim` frees
everything that the device has, whatever the geometry is by then, and it has nothing
while somebody is about to finish `scull_trim`. -/
theorem scull_run_owns (hsane : SaneGeometry params.scullQuantum params.scullQset)
    (hsafe : (ScullSystem.init params).SafeRun kmalloc mode acts)
    (hrun : (ScullSystem.init params).run kmalloc mode acts = .ok (events, s)) :
    (s.lock = none → ∀ params', ∃ m, s.mem.trim params' = .ok m ∧ m.Blank) ∧
      ∀ t, s.tasks t = .trimQuantum ∨ s.tasks t = .trimQset ∨ s.tasks t = .trimData →
        s.mem.Blank := by
  obtain ⟨fs, -, hinv⟩ := ScullSystem.run_inv hsane hsafe hrun
  refine ⟨hinv.trim, fun t htrim => ?_⟩
  rcases htrim with hpc | hpc | hpc
  · have hshape := hinv.shape_of_holds (t := t) (by rw [hpc]; rfl)
    rw [hpc] at hshape
    exact ScullMem.Bare.blank (ScullMem.Trimmed.toBare hshape)
  · have hshape := hinv.shape_of_holds (t := t) (by rw [hpc]; rfl)
    rw [hpc] at hshape
    exact ScullMem.Bare.blank (ScullMem.Trimmed.toBare hshape)
  · have hshape := hinv.shape_of_holds (t := t) (by rw [hpc]; rfl)
    rw [hpc] at hshape
    exact ScullMem.Bare.blank hshape.1.toBare

theorem scull_run_owns_writeSeekRead :
    ∃ events s, (ScullSystem.init smallScull).run Kmalloc.onePage writerReader writeSeekRead =
        .ok (events, s) ∧
      ∃ m, s.mem.trim smallScull = .ok m ∧ m.Blank := by
  have hview : ((ScullSystem.init smallScull).run Kmalloc.onePage writerReader
      writeSeekRead).toOption.map (fun r => r.2.lock) = some none := by decide +kernel
  obtain ⟨⟨events, s⟩, hok, hfree⟩ := exists_of_view hview
  exact ⟨events, s, hok,
    (scull_run_owns saneGeometry_smallScull safeRun_writeSeekRead hok).1 hfree smallScull⟩

/-! ## The default geometry -/

/-- The geometry that a call has loaded is the default. -/
def ScullPc.LoadedDefault : ScullPc → Prop
  | .qset _ n => n = SCULL_QUANTUM
  | .lock _ n q | .body _ n q => n = SCULL_QUANTUM ∧ q = SCULL_QSET
  | _ => True

/-- Nobody has seen another geometry than the default. -/
structure ScullSystem.Default (s : ScullSystem τ) : Prop where
  params : s.params.geometry = (SCULL_QUANTUM, SCULL_QSET)
  quantum : s.mem.dev.quantum = SCULL_QUANTUM
  qset : s.mem.dev.qset = SCULL_QSET
  loaded : ∀ t, (s.tasks t).LoadedDefault

/-- A write starts before the last list item that the loop can count to. -/
def ScullSystem.PlainAt (s : ScullSystem τ) (t : τ) : ScullPc → Prop
  | .body (.write _) _ _ => s.fpos t < 2 ^ 32 * (SCULL_QUANTUM * SCULL_QSET)
  | _ => True

/-- Nobody who changes the parameters is privileged, and nobody writes behind the last
list item that the loop can count to. -/
def ScullSystem.PlainStep (s : ScullSystem τ) : ScullAct τ → Prop
  | .ioctl c => c.env.capable = false
  | .step t _ => s.PlainAt t (s.tasks t)
  | .call _ _ => True

omit [DecidableEq τ] in
instance ScullSystem.decidablePlainAt (s : ScullSystem τ) (t : τ) :
    (pc : ScullPc) → Decidable (s.PlainAt t pc)
  | .body (.write _) _ _ => inferInstanceAs (Decidable (_ < _))
  | .body (.read _) _ _ | .closed | .openLock | .trimList | .trimQuantum | .trimQset | .trimData
  | .user | .quantum _ | .qset _ _ | .lock _ _ _ => inferInstanceAs (Decidable True)

omit [DecidableEq τ] in
instance ScullSystem.decidablePlainStep (s : ScullSystem τ) :
    (act : ScullAct τ) → Decidable (s.PlainStep act)
  | .step t _ => inferInstanceAs (Decidable (s.PlainAt t (s.tasks t)))
  | .ioctl c => inferInstanceAs (Decidable (c.env.capable = false))
  | .call _ _ => inferInstanceAs (Decidable True)

/-- A run of plain steps. -/
def ScullSystem.PlainRun (kmalloc : Kmalloc) (mode : τ → FMode) (s : ScullSystem τ)
    (acts : List (ScullAct τ)) : Prop :=
  Trace.Along (fun s act => s.step kmalloc mode act) ScullSystem.PlainStep s acts

instance ScullSystem.decidablePlainRun (s : ScullSystem τ) (acts : List (ScullAct τ)) :
    Decidable (s.PlainRun kmalloc mode acts) :=
  inferInstanceAs
    (Decidable (Trace.Along (fun s act => s.step kmalloc mode act) ScullSystem.PlainStep s acts))

namespace ScullSystem.Default

variable {pc : ScullPc} {t : τ} {act : ScullAct τ} {answer : ScullAnswer}

omit [DecidableEq τ] in
theorem scullQuantum (h : s.Default) : s.params.scullQuantum = SCULL_QUANTUM :=
  (Prod.mk.inj h.params).1

omit [DecidableEq τ] in
theorem scullQset (h : s.Default) : s.params.scullQset = SCULL_QSET := (Prod.mk.inj h.params).2

/-- A task goes on with the geometry of the device. -/
theorem goto (h : s.Default) (hpc : pc.LoadedDefault) : (s.goto t pc).Default := by
  refine ⟨h.params, h.quantum, h.qset, fun u => ?_⟩
  show (Function.update s.tasks t pc u).LoadedDefault
  by_cases hut : u = t
  · rw [hut, Function.update_self]
    exact hpc
  · rw [Function.update_of_ne hut]
    exact h.loaded u

omit [DecidableEq τ] in
/-- On a device with the default geometry a plain step is safe. -/
theorem safeStep (h : s.Default) (hinv : s.Inv fs) (hplain : s.PlainStep act) :
    s.SafeStep act := by
  cases act with
  | call t c => trivial
  | ioctl c => trivial
  | step t answer =>
    have hloaded := h.loaded t
    show s.SafeAt t (s.tasks t)
    replace hplain : s.PlainAt t (s.tasks t) := hplain
    cases hpc : s.tasks t with
    | trimQset =>
      show SaneGeometry s.mem.dev.quantum s.params.scullQset
      rw [h.quantum, h.scullQset]
      decide
    | body op quantum qset =>
      rw [hpc] at hloaded
      obtain ⟨rfl, rfl⟩ := hloaded
      refine ⟨⟨h.quantum.symm, h.qset.symm⟩, ?_⟩
      cases op with
      | read count => trivial
      | write buf =>
        have hpos : s.fpos t < 2 ^ 32 * (SCULL_QUANTUM * SCULL_QSET) := by
          rw [hpc] at hplain
          exact hplain
        have hprod : 2 ^ 32 * (SCULL_QUANTUM * SCULL_QSET) =
            ((2 ^ 32 * (SCULL_QUANTUM.toNat * SCULL_QSET.toNat) : Nat) : Int) := by decide
        show (s.fpos t).toNat / (SCULL_QUANTUM.toNat * SCULL_QSET.toNat) < 2 ^ 32
        rw [Nat.div_lt_iff_lt_mul (by decide)]
        rw [(hinv.fpos t).1] at hpos ⊢
        rw [Int.toNat_natCast]
        rw [hprod] at hpos
        exact Int.ofNat_lt.mp hpos
    | closed | openLock | trimList | trimQuantum | trimData | user | quantum | qset | lock =>
      trivial

omit [DecidableEq τ] in
/-- What keeps the parameters and the geometry keeps the default. -/
theorem congr {s' : ScullSystem τ} (h : s.Default) (hparams : s'.params = s.params)
    (hgeometry : s'.mem.dev.quantum = s.mem.dev.quantum ∧ s'.mem.dev.qset = s.mem.dev.qset)
    (htasks : s'.tasks = s.tasks) : s'.Default := by
  refine ⟨?_, hgeometry.1.trans h.quantum, hgeometry.2.trans h.qset, ?_⟩
  · rw [hparams]
    exact h.params
  · rw [htasks]
    exact h.loaded

theorem mutexLockInterruptible (h : s.Default) {fail : ScullPc} (hpc : pc.LoadedDefault)
    (hfail : fail.LoadedDefault) : (s.mutexLockInterruptible t answer fail pc).2.Default := by
  unfold ScullSystem.mutexLockInterruptible
  split
  · exact goto (congr h rfl ⟨rfl, rfl⟩ rfl) hpc
  · split
    · exact h.goto hfail
    · exact h

theorem taskStep (h : s.Default) (hinv : s.Inv fs) (hplain : s.PlainStep (.step t answer))
    {e : ScullEvent τ} {s' : ScullSystem τ} (hstep : s.taskStep kmalloc t answer = .ok (e, s')) :
    s'.Default := by
  have hsafe := h.safeStep hinv hplain
  have hloaded := h.loaded t
  unfold ScullSystem.taskStep at hstep
  cases hpc : s.tasks t with
  | closed | user =>
    simp only [hpc] at hstep
    obtain ⟨-, rfl⟩ := Prod.mk.inj (Except.ok.inj hstep)
    exact h
  | openLock =>
    simp only [hpc] at hstep
    obtain rfl : _ = s' := congrArg Prod.snd (Except.ok.inj hstep)
    exact h.mutexLockInterruptible trivial trivial
  | trimList =>
    have hshape := hinv.shape_of_holds (t := t) (by rw [hpc]; rfl)
    rw [hpc] at hshape
    obtain ⟨items, hheld⟩ := hshape
    obtain ⟨m, htrim, hdev, -⟩ :=
      ScullMem.trimList_spec hheld.toLayout hheld.qset_pos hheld.qset_eq hheld.data_eq
    simp only [hpc, htrim, ok_bind] at hstep
    obtain ⟨-, rfl⟩ := Prod.mk.inj (Except.ok.inj hstep)
    exact goto (h.congr rfl (by rw [hdev]; exact ⟨rfl, rfl⟩) rfl) trivial
  | trimQuantum =>
    simp only [hpc] at hstep
    obtain ⟨-, rfl⟩ := Prod.mk.inj (Except.ok.inj hstep)
    exact goto ⟨h.params, h.scullQuantum, h.qset, h.loaded⟩ trivial
  | trimQset =>
    simp only [hpc] at hstep
    obtain ⟨-, rfl⟩ := Prod.mk.inj (Except.ok.inj hstep)
    exact goto ⟨h.params, h.quantum, h.scullQset, h.loaded⟩ trivial
  | trimData =>
    have hlock := (hinv.lock t).mpr (by rw [hpc]; rfl)
    have hunlock : ({ s with mem := s.mem.trimData } : ScullSystem τ).mutexUnlock t =
        .ok { s with mem := s.mem.trimData, lock := none } := if_pos hlock
    simp only [hpc, hunlock, ok_bind] at hstep
    obtain ⟨-, rfl⟩ := Prod.mk.inj (Except.ok.inj hstep)
    exact goto (h.congr rfl ⟨rfl, rfl⟩ rfl) trivial
  | quantum op =>
    simp only [hpc] at hstep
    obtain ⟨-, rfl⟩ := Prod.mk.inj (Except.ok.inj hstep)
    exact h.goto h.quantum
  | qset op quantum =>
    simp only [hpc] at hstep hloaded
    obtain ⟨-, rfl⟩ := Prod.mk.inj (Except.ok.inj hstep)
    exact h.goto ⟨hloaded, h.qset⟩
  | lock op quantum qset =>
    simp only [hpc] at hstep hloaded
    obtain rfl : _ = s' := congrArg Prod.snd (Except.ok.inj hstep)
    exact h.mutexLockInterruptible hloaded trivial
  | body op quantum qset =>
    obtain ⟨e₁, s₁, fs₁, hbody, hmoved⟩ := hinv.body kmalloc hpc hsafe
    have hlock := hmoved.lock.trans ((hinv.lock t).mpr (by rw [hpc]; rfl))
    have hunlock : s₁.mutexUnlock t = .ok { s₁ with lock := none } := if_pos hlock
    simp only [hpc, hbody, ok_bind] at hstep
    rw [hunlock, ok_bind] at hstep
    obtain ⟨-, rfl⟩ := Prod.mk.inj (Except.ok.inj hstep)
    exact goto (h.congr hmoved.params hmoved.geometry hmoved.tasks) trivial

theorem enter (h : s.Default) (t : τ) (c : ScullCall) : (s.enter mode t c).2.Default := by
  unfold ScullSystem.enter
  split
  · split
    · exact h.goto trivial
    · exact goto (h.congr rfl ⟨rfl, rfl⟩ rfl) trivial
  · exact h.goto trivial
  · split
    · exact h
    · exact h.congr rfl ⟨rfl, rfl⟩ rfl
  · split
    · exact h.goto trivial
    · exact h
  · exact h

theorem step (h : s.Default) (hinv : s.Inv fs) (hplain : s.PlainStep act) {e : ScullEvent τ}
    {s' : ScullSystem τ} (hstep : s.step kmalloc mode act = .ok (e, s')) : s'.Default := by
  cases act with
  | call t c =>
    obtain rfl : _ = s' := congrArg Prod.snd (Except.ok.inj hstep)
    exact h.enter t c
  | step t answer => exact h.taskStep hinv hplain hstep
  | ioctl c =>
    obtain ⟨-, rfl⟩ := Prod.mk.inj (Except.ok.inj hstep)
    refine ⟨?_, h.quantum, h.qset, h.loaded⟩
    show (scullIoctl c.env c.cmd c.arg s.params).params.geometry = _
    rw [scullIoctl_geometry hplain, h.params]
    split <;> rfl

/-- A run of plain steps is a run of safe steps. -/
theorem safeRun (h : s.Default) (hinv : s.Inv fs)
    (hplain : s.PlainRun kmalloc mode acts) :
    s.SafeRun kmalloc mode acts := by
  refine Trace.Along.of_inv (I := fun s => s.Default ∧ ∃ fs, s.Inv fs) ?_ ?_ ⟨h, fs, hinv⟩ hplain
  · intro s act e s' hs hplain hstep
    obtain ⟨h, fs, hinv⟩ := hs
    obtain ⟨e₁, s₁, fs₁, hstep₁, -, hinv₁⟩ :=
      hinv.step kmalloc mode (h.safeStep hinv hplain)
    rw [hstep] at hstep₁
    obtain ⟨-, rfl⟩ := Prod.mk.inj (Except.ok.inj hstep₁)
    exact ⟨h.step hinv hplain hstep, fs₁, hinv₁⟩
  · intro s act hs hplain
    obtain ⟨h, fs, hinv⟩ := hs
    exact h.safeStep hinv hplain

end ScullSystem.Default

/-- If the module is loaded with the default geometry, unprivileged callers cannot make
anything go wrong, whatever they call in whatever order, as long as nobody writes
behind 16 petabytes. -/
theorem scull_run_unprivileged (kmalloc : Kmalloc) (mode : τ → FMode) (params : ScullParams)
    (hdefault : params.geometry = (SCULL_QUANTUM, SCULL_QSET)) (acts : List (ScullAct τ))
    (hplain : (ScullSystem.init params).PlainRun kmalloc mode acts) :
    ∃ events s fs, (ScullSystem.init params).run kmalloc mode acts = .ok (events, s) ∧
      ScullEvent.replay (.init params) events = some fs ∧
      s.mem.dev.quantum = SCULL_QUANTUM ∧ s.mem.dev.qset = SCULL_QSET := by
  have hsame := Prod.mk.inj hdefault
  have hsane : SaneGeometry params.scullQuantum params.scullQset := by
    rw [hsame.1, hsame.2]
    decide
  have hinit : (ScullSystem.init params : ScullSystem τ).Default :=
    ⟨hdefault, hsame.1, hsame.2, fun _ => trivial⟩
  have hinv : (ScullSystem.init params : ScullSystem τ).Inv (.init params) :=
    ScullSystem.Inv.init hsane
  have hsafe := hinit.safeRun hinv hplain
  obtain ⟨events, s, fs, hrun, hreplay, -⟩ := hinv.run hsafe
  obtain ⟨_, -, hend⟩ := Trace.run_keeps (K := fun s _ => s.Default)
    (fun hinv hsafe => hinv.step kmalloc mode hsafe)
    (fun hinv _ h hplain hstep _ => h.step hinv hplain hstep) hinv hinit hsafe hplain hrun
  exact ⟨events, s, fs, hrun, hreplay, hend.quantum, hend.qset⟩

/-- A task writes on a device with the default geometry, and an unprivileged one resets
the parameters. -/
def openResetWrite : List (ScullAct Unit) :=
  .call () .open :: .ioctl ⟨⟨false, true, true, true, 0⟩, SCULL_IOCRESET, 0⟩ ::
    .call () (.op (.write [97])) ::
      List.replicate 4 (.step () ⟨false, fun _ => true, true, true, 0⟩)

theorem scull_run_unprivileged_openResetWrite :
    ∃ events s fs, (ScullSystem.init .default).run ⟨2 ^ 22, by decide⟩ (fun _ => ⟨true, true⟩)
        openResetWrite = .ok (events, s) ∧
      ScullEvent.replay (.init .default) events = some fs ∧
      s.mem.dev.quantum = SCULL_QUANTUM ∧ s.mem.dev.qset = SCULL_QSET :=
  scull_run_unprivileged ⟨2 ^ 22, by decide⟩ (fun _ => ⟨true, true⟩) .default rfl openResetWrite
    (by decide +kernel)

/-- On a device with another geometry an unprivileged task resets the parameters
while a write waits for the mutex.  The write allocates an array of two quanta, and
`scull_trim` looks for a thousand. -/
example :
    let steps (t : Bool) (n : Nat) :=
      List.replicate n (ScullAct.step t ⟨false, fun _ => true, true, true, 0⟩)
    let acts : List (ScullAct Bool) :=
      .call false .open :: .call false (.op (.write [97])) :: steps false 2 ++
        .ioctl ⟨⟨false, true, true, true, 0⟩, SCULL_IOCRESET, 0⟩ :: .call true .open ::
        steps true 5 ++ steps false 2 ++ .call true .release :: .call true .open :: steps true 2
    ((ScullSystem.init smallScull).run Kmalloc.onePage (fun t => ⟨!t, true⟩)
      acts).toOption.isNone = true := by
  decide +kernel

end Runs

end AesdChar.Scull
