import AesdChar.Server.ReadBack

/-!
# The server on a regular file

Without `USE_AESD_CHAR_DEVICE` the server keeps the messages in a regular file,
and a timer thread adds timestamps.  Both work under `file_mutex`, so the file
sees one section after the other.

A worker opens the file with `O_RDWR` and writes at the start of it.  The timer
thread opens it in mode `a+` and writes at the end.  `file_keeps_everything_iff`
says for which sequences of sections nothing is lost.
-/

namespace AesdChar

open CodeLib CodeLib.CInt CodeLib.CString

/-! ## The timer thread and `main` -/

/-- What a timestamp shows of a `struct tm`.  These are the values as they are shown:
`tm_year` counts from 1900 and `tm_mon` from 0. -/
structure Tm where
  year : Nat
  mon : Nat
  mday : Nat
  hour : Nat
  min : Nat
  sec : Nat
deriving DecidableEq, Repr

/-- The bytes of a literal. -/
def ascii (s : String) : List Byte := s.toList.map fun c => c.toNat.toUInt8

/-- The decimal digits of a number, at least `width` of them. -/
def paddedDecimal (width n : Nat) : List Byte :=
  List.replicate (width - (decimal n).length) 48 ++ decimal n

/-- `strftime` with `"timestamp: %Y/%m/%d/%H/%M/%S\n"`. -/
def timestamp (info : Tm) : List Byte :=
  ascii "timestamp: " ++ paddedDecimal 0 info.year ++ ascii "/" ++ paddedDecimal 2 info.mon ++
    ascii "/" ++ paddedDecimal 2 info.mday ++ ascii "/" ++ paddedDecimal 2 info.hour ++
    ascii "/" ++ paddedDecimal 2 info.min ++ ascii "/" ++ paddedDecimal 2 info.sec ++ [newline]

/-- The critical section of `timer_thread`: `fopen` with mode `a+`, `fputs` and
`fclose`. -/
def timerSection (fopenOk : Bool) (info : Tm) (file : List Byte) : List Byte :=
  if fopenOk then file ++ timestamp info else file

/-- `main` opens the file with mode `w` and closes it. -/
def truncateFile (fopenOk : Bool) (file : List Byte) : List Byte := if fopenOk then [] else file

/-- The build that uses a regular file. -/
def fileBuild (copy : Copy) : Build := ⟨copy, false⟩

/-! ## One message -/

section Message

variable {ι σ : Type} [DecidableEq ι] {build : Build} {ops : FileOps σ} {env : WorkerEnv} {me : ι}
  {w : Worker} {dev : σ} {file : List Byte} {copy : Copy}

/-- A worker receives its command and opens the device. -/
theorem Worker.comes_opened (hopen : env.openOk = true) :
    Worker.Comes build ops env me (· == .done) .start ⟨dev, none⟩ (Worker.opened env.recv)
      ⟨dev, some me⟩ := by
  apply Comes.step rfl (step_recv rfl (receive_eq build.copy env.recv))
  apply Comes.step rfl (step_lock_free rfl rfl)
  apply Comes.step rfl (step_openDev rfl hopen)
  exact Comes.refl

/-- A worker that has replied releases what it holds. -/
theorem Worker.comes_done (hpc : w.pc = .closeDev) :
    Worker.Comes build ops env me (· == .done) w ⟨dev, some me⟩
      { w with pc := .done, socketCloses := w.socketCloses + 1, bThreadCompleted := true }
      ⟨dev, none⟩ := by
  apply Comes.step (by rw [hpc]; rfl) (step_closeDev hpc)
  apply Comes.step rfl (step_unlock rfl rfl)
  apply Comes.step rfl (step_closeSocket rfl)
  apply Comes.step rfl (step_lockDone_free rfl rfl)
  apply Comes.step rfl (step_complete rfl)
  apply Comes.step rfl (step_unlockDone rfl rfl)
  exact Comes.refl

/-- The file after a message. -/
def fileAfter (env : WorkerEnv) (file : List Byte) : List Byte :=
  if IsSeek (command env.recv) then file else writeAt file 0 (command env.recv)

/-- A regular file knows no requests. -/
theorem Worker.request_regularFile
    (hseek : strncmp ioctlPrefix.length w.fullBuf ioctlPrefix = 0) :
    w.request regularFile env file = .ok ({ w with pc := .read }, file) := by
  unfold Worker.request
  rw [if_pos hseek]
  split
  · rfl
  · rfl

/-- One write takes all that is left. -/
theorem Worker.writeRound_regularFile (env : WorkerEnv) (file : List Byte) {n : Nat}
    (hn : n < w.totalLen) (hlen : w.totalLen ≤ w.fullBuf.length) (hmax : w.totalLen < 2 ^ 63) :
    w.writeRound regularFile env n file =
      .ok (.wrote (w.unwritten n) (w.unwritten n).length,
        { w with
          writes := w.writes + 1
          fPos := w.fPos + (w.unwritten n).length
          pc := .write w.totalLen },
        writeAt file w.fPos.toNat (w.unwritten n)) := by
  have hrest : (w.unwritten n).length = w.totalLen - n := by
    rw [unwritten, List.length_take, List.length_drop]
    omega
  have hnonneg : ¬ ((w.unwritten n).length : Int) < 0 := by omega
  have htotal : sizeT ((n : Int) + (w.unwritten n).length) = w.totalLen := by
    rw [show (n : Int) + (w.unwritten n).length = (w.totalLen : Nat) by omega]
    exact sizeT_of_lt (Nat.lt_trans hmax (by decide))
  unfold writeRound
  rw [if_pos hn]
  simp only [regularFile, ok_bind, hnonneg, if_false, htotal, pure_eq_ok, CallResult.filePos,
    Int.natCast_nonneg, if_true]

/-- The worker goes back to the start of the file. -/
theorem Worker.rewind_regularFile :
    w.rewind (fileBuild copy) regularFile env file =
      .ok ({ w with pc := .read, fPos := 0 }, file) :=
  rfl

/-- The write loop writes the command at the start of the file. -/
theorem Worker.comes_writeLoop (copy : Copy) (me : ι) (file : List Byte) (hok : w.Ok env)
    (hpc : w.pc = .write 0) (hpos : w.fPos = 0) :
    ∃ writes, Worker.Comes (fileBuild copy) regularFile env me (· == .done) w ⟨file, some me⟩
      { w with pc := .read, fPos := 0, writes := writes }
      ⟨writeAt file 0 (command env.recv), some me⟩ := by
  have hne : w.pc ≠ .recv := by
    rw [hpc]
    exact Pc.noConfusion
  have hgo : (w.pc == Pc.done) = false := by
    rw [hpc]
    rfl
  rcases Nat.eq_zero_or_pos w.totalLen with hzero | hpositive
  · have hnil : command env.recv = [] := by
      rw [← List.length_eq_zero_iff, ← (hok.buf hne).2, hzero]
    rw [hnil]
    refine ⟨w.writes, Comes.step hgo (step_write hpc (writeRound_done (Nat.le_of_eq hzero))) ?_⟩
    apply Comes.step rfl (step_rewind rfl rewind_regularFile)
    exact Comes.refl
  · obtain ⟨hle, hmax⟩ := hok.totalLen_le hne
    have hround := writeRound_regularFile env file hpositive hle hmax
    rw [hok.unwritten_zero hne, hpos] at hround
    refine ⟨w.writes + 1, Comes.step hgo (step_write hpc hround) ?_⟩
    apply Comes.step rfl (step_write rfl (writeRound_done (Nat.le_refl _)))
    apply Comes.step rfl (step_rewind rfl rewind_regularFile)
    exact Comes.refl

/-- A worker on a regular file comes to its reply loop, at the start of the
file. -/
theorem Worker.comes_written (copy : Copy) (me : ι) (file : List Byte) (hok : w.Ok env)
    (hpc : w.pc = .request) (hpos : w.fPos = 0) :
    ∃ writes, Worker.Comes (fileBuild copy) regularFile env me (· == .done) w ⟨file, some me⟩
      { w with pc := .read, fPos := 0, writes := writes } ⟨fileAfter env file, some me⟩ := by
  have hne : w.pc ≠ .recv := by
    rw [hpc]
    exact Pc.noConfusion
  have hseek_iff := strncmp_received_iff (length_command_le env.recv)
  rw [← (hok.buf hne).1] at hseek_iff
  have hgo : (w.pc == Pc.done) = false := by
    rw [hpc]
    rfl
  by_cases hseek : IsSeek (command env.recv)
  · rw [fileAfter, if_pos hseek, ← hpos]
    exact ⟨w.writes, Comes.step hgo (step_request hpc (request_regularFile (hseek_iff.mpr hseek)))
      Comes.refl⟩
  · rw [fileAfter, if_neg hseek]
    have hok' : { w with pc := .write 0 }.Ok env := ⟨fun _ => hok.buf hne, hok.pos⟩
    obtain ⟨writes, hcomes⟩ := comes_writeLoop copy me file hok' rfl hpos
    exact ⟨writes, Comes.step hgo
      (step_request hpc (request_write env fun h => hseek (hseek_iff.mp h))) hcomes⟩

/-- A message is written at the start of the file, and the reply is the whole
file. -/
theorem Worker.runTo_done (copy : Copy) (me : ι) (hs : env.Succeeds) (file : List Byte) :
    ∃ fuel w', Worker.start.runTo (fileBuild copy) regularFile env me (· == .done) fuel
        ⟨file, none⟩ = .ok (w', ⟨fileAfter env file, none⟩) ∧ w'.reply = fileAfter env file := by
  let content := fileAfter env file
  obtain ⟨writes, hwritten⟩ := comes_written copy me file (ok_opened env) rfl rfl
  let reading : Worker := { opened env.recv with pc := .read, fPos := 0, writes := writes }
  have hread : (Pc.read == Pc.done) = false := rfl
  have hsend : ∀ buf n, (Pc.send buf n == Pc.done) = false := fun _ _ => rfl
  have hserves : Serves regularFile env content content := regularFile_serves env content
  obtain ⟨reads, fPos, hreplied⟩ := @comes_readBack ι _ _ (fileBuild copy) regularFile env me
    (· == .done) reading ⟨content, some me⟩ content 0 0 hserves hread hsend content rfl
    (Or.inr (Nat.zero_le _)) (Nat.zero_le _) rfl rfl content.length (Nat.sub_le _ _)
  rw [Nat.sub_zero, replyIndices_all hs.sends (Nat.le_refl _), gather_range', List.drop_zero,
    List.take_length] at hreplied
  obtain ⟨fuel, hrun⟩ := (((comes_opened hs.openOk).trans hwritten).trans
    (hreplied.trans (comes_done rfl))).runTo rfl
  exact ⟨fuel, _, hrun, rfl⟩

end Message

/-! ## Any number of sections -/

/-- What goes on while `file_mutex` is held: a worker for which every call
succeeds, or a round of the timer thread. -/
inductive Section
  | message (env : WorkerEnv) (succeeds : env.Succeeds)
  | tick (info : Tm)

/-- What a section is meant to add to the file: a command that is not a seek
request, or a timestamp. -/
def Section.contribution : Section → List Byte
  | .message env _ => if IsSeek (command env.recv) then [] else command env.recv
  | .tick info => timestamp info

/-- A message that is not a seek request. -/
def Section.IsPlain : Section → Prop
  | .message env _ => ¬ IsSeek (command env.recv)
  | .tick _ => False

/-- What the sections add together. -/
def contributions (sections : List Section) : List Byte :=
  (sections.map Section.contribution).flatten

/-- A section that finds `file` leaves `file'`, and its client gets `reply`. -/
def Section.Outcome (copy : Copy) (file : List Byte) : Section → (file' reply : List Byte) → Prop
  | .message env _, file', reply => ∃ fuel w',
    Worker.start.runTo (fileBuild copy) regularFile env () (· == .done) fuel ⟨file, none⟩ =
      .ok (w', ⟨file', none⟩) ∧ w'.reply = reply
  | .tick info, file', reply => file' = timerSection true info file ∧ reply = []

/-- A run of sections, with the file and the reply after each of them. -/
inductive FileRun (copy : Copy) :
    (file : List Byte) → List Section → List (List Byte × List Byte) → Prop
  | nil {file} : FileRun copy file [] []
  | cons {file file' reply sec sections results} (hsec : sec.Outcome copy file file' reply)
      (hrest : FileRun copy file' sections results) :
      FileRun copy file (sec :: sections) ((file', reply) :: results)

/-- After each section the file is what all sections so far add, on top of
`before`, and the reply to a message is the whole file. -/
def KeepsFrom (before : List Byte) (sections : List Section)
    (results : List (List Byte × List Byte)) : Prop :=
  ∀ i sec file reply, sections[i]? = some sec → results[i]? = some (file, reply) →
    file = before ++ contributions (sections.take (i + 1)) ∧ (sec.IsPlain → reply = file)

/-- A message that adds something finds an empty file. -/
def FirstFrom (before : List Byte) (sections : List Section) : Prop :=
  ∀ i env hs, sections[i]? = some (.message env hs) →
    (Section.message env hs).contribution ≠ [] → before ++ contributions (sections.take i) = []

/-- The file after a section. -/
def Section.after (file : List Byte) : Section → List Byte
  | .message env _ => fileAfter env file
  | .tick info => timerSection true info file

/-- The reply of a section. -/
def Section.reply (file : List Byte) : Section → List Byte
  | .message env _ => fileAfter env file
  | .tick _ => []

theorem Section.outcome (copy : Copy) (file : List Byte) (sec : Section) :
    sec.Outcome copy file (sec.after file) (sec.reply file) := by
  cases sec with
  | message env hs =>
    obtain ⟨fuel, w', hrun, hreply⟩ := Worker.runTo_done copy () hs file
    exact ⟨fuel, w', hrun, hreply⟩
  | tick info => exact ⟨rfl, rfl⟩

/-- A section has one outcome. -/
theorem Section.Outcome.unique {copy : Copy} {file file' reply file'' reply' : List Byte}
    {sec : Section} (h : sec.Outcome copy file file' reply)
    (h' : sec.Outcome copy file file'' reply') : file' = file'' ∧ reply = reply' := by
  cases sec with
  | message env hs =>
    obtain ⟨fuel, w, hrun, rfl⟩ := h
    obtain ⟨fuel', w', hrun', rfl⟩ := h'
    have hend := Worker.runTo_unique hrun hrun'
    rw [Prod.mk.injEq, Shared.mk.injEq] at hend
    exact ⟨hend.2.1, congrArg Worker.reply hend.1⟩
  | tick info =>
    obtain ⟨rfl, rfl⟩ := h
    obtain ⟨rfl, rfl⟩ := h'
    exact ⟨rfl, rfl⟩

/-- A section keeps the file exactly if it is no message that finds something
and adds something. -/
theorem Section.after_eq_append_iff (file : List Byte) (sec : Section) :
    sec.after file = file ++ sec.contribution ↔
      ∀ env hs, sec = .message env hs → sec.contribution ≠ [] → file = [] := by
  cases sec with
  | message env hs =>
    have hiff : (Section.message env hs).after file =
        file ++ (Section.message env hs).contribution ↔
          (Section.message env hs).contribution ≠ [] → file = [] := by
      unfold after contribution fileAfter
      by_cases hseek : IsSeek (command env.recv)
      · simp [hseek]
      · simp only [hseek, if_false, writeAt_zero_eq_append_iff]
        exact or_iff_not_imp_left
    rw [hiff]
    constructor
    · rintro h env' hs' ⟨⟩
      exact h
    · intro h
      exact h env hs rfl
  | tick info =>
    refine ⟨fun _ _ _ h => ?_, fun _ => rfl⟩
    cases h

/-- The reply to a message is the whole file. -/
theorem Section.reply_eq_after {sec : Section} (h : sec.IsPlain) (file : List Byte) :
    sec.reply file = sec.after file := by
  cases sec with
  | message env hs => rfl
  | tick info => cases h

/-- The files and the replies of a run. -/
def fileResults : (file : List Byte) → List Section → List (List Byte × List Byte)
  | _, [] => []
  | file, sec :: sections =>
    (sec.after file, sec.reply file) :: fileResults (sec.after file) sections

theorem length_fileResults (file : List Byte) (sections : List Section) :
    (fileResults file sections).length = sections.length := by
  induction sections generalizing file with
  | nil => rfl
  | cons sec sections ih => exact congrArg (· + 1) (ih _)

/-- There is one run of the sections. -/
theorem fileRun_iff {copy : Copy} {file : List Byte} {sections : List Section}
    {results : List (List Byte × List Byte)} :
    FileRun copy file sections results ↔ results = fileResults file sections := by
  constructor
  · intro h
    induction h with
    | nil => rfl
    | @cons file file' reply sec sections results hsec _ ih =>
      obtain ⟨rfl, rfl⟩ := hsec.unique (sec.outcome copy file)
      rw [ih, fileResults]
  · rintro rfl
    induction sections generalizing file with
    | nil => exact FileRun.nil
    | cons sec sections ih => exact FileRun.cons (sec.outcome copy file) ih

theorem contributions_cons (sec : Section) (sections : List Section) :
    contributions (sec :: sections) = sec.contribution ++ contributions sections := rfl

theorem keepsFrom_cons {before file reply : List Byte} {sec : Section} {sections : List Section}
    {results : List (List Byte × List Byte)} :
    KeepsFrom before (sec :: sections) ((file, reply) :: results) ↔
      (file = before ++ sec.contribution ∧ (sec.IsPlain → reply = file)) ∧
        KeepsFrom (before ++ sec.contribution) sections results := by
  constructor
  · intro h
    constructor
    · have hhead := h 0 sec file reply rfl rfl
      rwa [List.take_succ_cons, List.take_zero, contributions_cons, contributions, List.map_nil,
        List.flatten_nil, List.append_nil] at hhead
    · intro i sec' file' reply' hsec hres
      have htail := h (i + 1) sec' file' reply' hsec hres
      rwa [List.take_succ_cons, contributions_cons, ← List.append_assoc] at htail
  · rintro ⟨hhead, htail⟩ i sec' file' reply' hsec hres
    cases i with
    | zero =>
      cases hsec
      cases hres
      rwa [List.take_succ_cons, List.take_zero, contributions_cons, contributions, List.map_nil,
        List.flatten_nil, List.append_nil]
    | succ i =>
      rw [List.take_succ_cons, contributions_cons, ← List.append_assoc]
      exact htail i sec' file' reply' hsec hres

theorem firstFrom_cons {before : List Byte} {sec : Section} {sections : List Section} :
    FirstFrom before (sec :: sections) ↔
      (∀ env hs, sec = .message env hs → sec.contribution ≠ [] → before = []) ∧
        FirstFrom (before ++ sec.contribution) sections := by
  constructor
  · intro h
    constructor
    · rintro env hs rfl hne
      have hhead := h 0 env hs rfl hne
      rwa [List.take_zero, contributions, List.map_nil, List.flatten_nil, List.append_nil] at hhead
    · intro i env hs hsec hne
      have htail := h (i + 1) env hs hsec hne
      rwa [List.take_succ_cons, contributions_cons, ← List.append_assoc] at htail
  · rintro ⟨hhead, htail⟩ i env hs hsec hne
    cases i with
    | zero =>
      cases hsec
      rw [List.take_zero, contributions, List.map_nil, List.flatten_nil, List.append_nil]
      exact hhead env hs rfl hne
    | succ i =>
      rw [List.take_succ_cons, contributions_cons, ← List.append_assoc]
      exact htail i env hs hsec hne

/-- The sections keep everything exactly if every message that adds something
finds an empty file. -/
theorem keepsFrom_fileResults_iff (before : List Byte) (sections : List Section) :
    KeepsFrom before sections (fileResults before sections) ↔ FirstFrom before sections := by
  induction sections generalizing before with
  | nil =>
    constructor
    · intro _ i env hs hsec
      cases hsec
    · intro _ i sec file reply hsec
      cases hsec
  | cons sec sections ih =>
    rw [fileResults, keepsFrom_cons, firstFrom_cons, ← Section.after_eq_append_iff]
    constructor
    · rintro ⟨⟨hhead, -⟩, htail⟩
      rw [hhead] at htail
      exact ⟨hhead, (ih _).mp htail⟩
    · rintro ⟨hhead, htail⟩
      refine ⟨⟨hhead, fun hplain => Section.reply_eq_after hplain before⟩, ?_⟩
      rw [hhead]
      exact (ih _).mpr htail

/-- After each section the file is the concatenation of what the sections so far
add, and the reply to each message that is not a seek request is the whole file. -/
def KeepsEverything (sections : List Section) (results : List (List Byte × List Byte)) : Prop :=
  ∀ i sec file reply, sections[i]? = some sec → results[i]? = some (file, reply) →
    file = contributions (sections.take (i + 1)) ∧ (sec.IsPlain → reply = file)

/-- Before a message that adds something, nothing was added. -/
def MessagesComeFirst (sections : List Section) : Prop :=
  ∀ i env hs, sections[i]? = some (.message env hs) →
    (Section.message env hs).contribution ≠ [] → contributions (sections.take i) = []

/-- The sections run, in one way.  Nothing is lost exactly if no message that
adds something comes after a section that added something. -/
theorem file_keeps_everything_iff (copy : Copy) (old : List Byte) (sections : List Section) :
    (∃ results, FileRun copy (truncateFile true old) sections results ∧
      results.length = sections.length) ∧
    ∀ results, FileRun copy (truncateFile true old) sections results →
      (KeepsEverything sections results ↔ MessagesComeFirst sections) := by
  refine ⟨⟨fileResults [] sections, fileRun_iff.mpr rfl, length_fileResults [] sections⟩, ?_⟩
  intro results hrun
  rw [fileRun_iff.mp hrun]
  exact keepsFrom_fileResults_iff [] sections

/-- The client sends `a` and `b` in two messages.  The second one overwrites the
first. -/
theorem file_loses_first_message :
    ∃ (c₁ c₂ : Chunk) (hs₁ : (WorkerEnv.succeeding [c₁]).Succeeds)
      (hs₂ : (WorkerEnv.succeeding [c₂]).Succeeds),
      let sections : List Section := [.message _ hs₁, .message _ hs₂]
      let results : List (List Byte × List Byte) :=
        [([97, newline], [97, newline]), ([98, newline], [98, newline])]
      contributions sections = [97, newline, 98, newline] ∧
      (FileRun .server [] sections results ∧ FileRun .metaAesd [] sections results) ∧
      ¬ KeepsEverything sections results := by
  let c₁ : Chunk := ⟨[97, newline], by decide, by decide⟩
  let c₂ : Chunk := ⟨[98, newline], by decide, by decide⟩
  let sections : List Section :=
    [.message _ (WorkerEnv.succeeds_succeeding [c₁]),
      .message _ (WorkerEnv.succeeds_succeeding [c₂])]
  have hresults : fileResults [] sections =
      [([97, newline], [97, newline]), ([98, newline], [98, newline])] := by decide
  refine ⟨c₁, c₂, WorkerEnv.succeeds_succeeding _, WorkerEnv.succeeds_succeeding _, by decide,
    ⟨fileRun_iff.mpr hresults.symm, fileRun_iff.mpr hresults.symm⟩, fun hkeeps => ?_⟩
  obtain ⟨hfile, -⟩ := hkeeps 1 _ _ _ rfl rfl
  exact absurd hfile (by decide)

end AesdChar
