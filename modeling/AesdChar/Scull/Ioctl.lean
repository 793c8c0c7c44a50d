import AesdChar.Driver.Basic

/-!
# The parameters of scull

All scull devices share three parameters: the size of a quantum, the length of a
quantum set and the size of the buffer of a pipe.  `scull_ioctl` of
`scull/main.c` changes them at run time.  The commands for the quantum and those
for the quantum set differ in the parameter, and the exchange also in how it answers.

`ioctls_unprivileged` says who can change which parameter over a whole run.
-/

namespace AesdChar.Scull

open CodeLib CodeLib.CInt

def EPERM : Int := 1
def EAGAIN : Int := 11
def EBUSY : Int := 16
def ERESTARTSYS : Int := 512

def SCULL_QUANTUM : Int := 4000
def SCULL_QSET : Int := 1000
def SCULL_P_BUFFER : Int := 4000

/-- The access mode of an open file. -/
structure FMode where
  read : Bool
  write : Bool
deriving DecidableEq, Repr

/-- An allocator that has blocks of a page. -/
def Kmalloc.onePage : Kmalloc := ⟨2 ^ 12, by decide⟩

/-! ## Commands -/

/-- The character `k`. -/
def SCULL_IOC_MAGIC : Nat := 107
def SCULL_IOC_MAXNR : Nat := 14

/-- `_IOC`, with the direction and the size of the data behind the pointer. -/
def ioc (dir size nr : Nat) : Nat := dir * 2 ^ 30 + size * 2 ^ 16 + SCULL_IOC_MAGIC * 2 ^ 8 + nr

def iocDir (cmd : Nat) : Nat := cmd / 2 ^ 30 % 2 ^ 2

def SCULL_IOCRESET : Nat := ioc 0 0 0
def SCULL_IOCSQUANTUM : Nat := ioc 1 4 1
def SCULL_IOCSQSET : Nat := ioc 1 4 2
def SCULL_IOCTQUANTUM : Nat := ioc 0 0 3
def SCULL_IOCTQSET : Nat := ioc 0 0 4
def SCULL_IOCGQUANTUM : Nat := ioc 2 4 5
def SCULL_IOCGQSET : Nat := ioc 2 4 6
def SCULL_IOCQQUANTUM : Nat := ioc 0 0 7
def SCULL_IOCQQSET : Nat := ioc 0 0 8
def SCULL_IOCXQUANTUM : Nat := ioc 3 4 9
def SCULL_IOCXQSET : Nat := ioc 3 4 10
def SCULL_IOCHQUANTUM : Nat := ioc 0 0 11
def SCULL_IOCHQSET : Nat := ioc 0 0 12
def SCULL_P_IOCTSIZE : Nat := ioc 0 0 13
def SCULL_P_IOCQSIZE : Nat := ioc 0 0 14

/-- The letter of a command. -/
inductive ParamOp
  | set
  | tell
  | get
  | query
  | exchange
  | shift
deriving DecidableEq, Repr

/-- The labels of the `switch` in `scull_ioctl`. -/
inductive ScullCmd
  | reset
  | quantum (op : ParamOp)
  | qset (op : ParamOp)
  | tellSize
  | querySize
deriving DecidableEq, Repr

/-- The number behind a label. -/
def ScullCmd.code : ScullCmd → Nat
  | .reset => SCULL_IOCRESET
  | .quantum .set => SCULL_IOCSQUANTUM
  | .quantum .tell => SCULL_IOCTQUANTUM
  | .quantum .get => SCULL_IOCGQUANTUM
  | .quantum .query => SCULL_IOCQQUANTUM
  | .quantum .exchange => SCULL_IOCXQUANTUM
  | .quantum .shift => SCULL_IOCHQUANTUM
  | .qset .set => SCULL_IOCSQSET
  | .qset .tell => SCULL_IOCTQSET
  | .qset .get => SCULL_IOCGQSET
  | .qset .query => SCULL_IOCQQSET
  | .qset .exchange => SCULL_IOCXQSET
  | .qset .shift => SCULL_IOCHQSET
  | .tellSize => SCULL_P_IOCTSIZE
  | .querySize => SCULL_P_IOCQSIZE

def ParamOp.all : List ParamOp := [.set, .tell, .get, .query, .exchange, .shift]

def ScullCmd.all : List ScullCmd :=
  .reset :: (ParamOp.all.map .quantum ++ ParamOp.all.map .qset ++ [.tellSize, .querySize])

/-- The label that `cmd` selects. -/
def ScullCmd.ofCode (cmd : Nat) : Option ScullCmd := ScullCmd.all.find? fun c => c.code = cmd

/-! ## `scull_ioctl` -/

/-- The global variables that `scull_ioctl` changes. -/
structure ScullParams where
  scullQuantum : Int
  scullQset : Int
  scullPBuffer : Int
deriving DecidableEq, Repr

/-- The values that the module is loaded with, unless told otherwise. -/
def ScullParams.default : ScullParams := ⟨SCULL_QUANTUM, SCULL_QSET, SCULL_P_BUFFER⟩

/-- The caller, and what lies at the address in `arg`. -/
structure IoctlEnv where
  capable : Bool
  accessOk : Bool
  readable : Bool
  writable : Bool
  value : Int

/-- The value of the call, the parameters behind it and the `int` that the caller
finds at its address. -/
structure IoctlResult where
  ret : Int
  params : ScullParams
  value : Int
deriving DecidableEq, Repr

/-- `__get_user`: a fault stores zero. -/
def getUserUnchecked (env : IoctlEnv) : Int × Int :=
  if env.readable then (0, env.value) else (-EFAULT, 0)

/-- `__put_user`. -/
def putUserUnchecked (env : IoctlEnv) (x : Int) : Int × Int :=
  if env.writable then (0, x) else (-EFAULT, env.value)

/-- `put_user`: it checks the address itself. -/
def putUser (env : IoctlEnv) (x : Int) : Int × Int :=
  if env.accessOk then putUserUnchecked env x else (-EFAULT, env.value)

/-- `copy_from_user`: how many bytes it leaves behind, and what it stores.  It fills up
what it could not copy with zeros. -/
def copyFromUser (xs : List Byte) (uncopied : Nat) : Nat × List Byte :=
  let left := min uncopied xs.length
  (left, xs.take (xs.length - left) ++ List.replicate left 0)

theorem length_copyFromUser (xs : List Byte) (uncopied : Nat) :
    (copyFromUser xs uncopied).2.length = xs.length := by
  simp only [copyFromUser, List.length_append, List.length_take, List.length_replicate]
  omega

theorem copyFromUser_of_zero {xs : List Byte} {uncopied : Nat}
    (h : (copyFromUser xs uncopied).1 = 0) : (copyFromUser xs uncopied).2 = xs := by
  have hleft : min uncopied xs.length = 0 := h
  simp [copyFromUser, hleft]

/-- A copy that fails stores a front of the bytes, and zeros behind it. -/
theorem copyFromUser_of_ne_zero {xs : List Byte} {uncopied : Nat}
    (h : (copyFromUser xs uncopied).1 ≠ 0) :
    uncopied ≠ 0 ∧ ∃ k, k < xs.length ∧
      (copyFromUser xs uncopied).2 = xs.take k ++ List.replicate (xs.length - k) 0 := by
  have hleft : min uncopied xs.length ≠ 0 := h
  refine ⟨by omega, xs.length - min uncopied xs.length, by omega, ?_⟩
  rw [Nat.sub_sub_self (Nat.min_le_right _ _)]
  rfl

/-- One of the parameters. -/
structure Param where
  get : ScullParams → Int
  set : ScullParams → Int → ScullParams

def Param.quantum : Param := ⟨ScullParams.scullQuantum, fun p x => { p with scullQuantum := x }⟩
def Param.qset : Param := ⟨ScullParams.scullQset, fun p x => { p with scullQset := x }⟩

namespace Param

variable (param : Param) (env : IoctlEnv) (arg : Nat) (p : ScullParams)

/-- The check that all commands make that change a parameter. -/
def privileged (r : IoctlResult) : IoctlResult :=
  if env.capable then r else ⟨-EPERM, p, env.value⟩

/-- Set: `arg` points to the value. -/
def ioctlSet : IoctlResult :=
  privileged env p ⟨(getUserUnchecked env).1, param.set p (getUserUnchecked env).2, env.value⟩

/-- Tell: `arg` is the value. -/
def ioctlTell : IoctlResult :=
  privileged env p ⟨0, param.set p (int32 arg), env.value⟩

/-- Get: `arg` is pointer to result. -/
def ioctlGet : IoctlResult :=
  ⟨(putUserUnchecked env (param.get p)).1, p, (putUserUnchecked env (param.get p)).2⟩

/-- Query: return it. -/
def ioctlQuery : IoctlResult := ⟨param.get p, p, env.value⟩

/-- eXchange: use `arg` as pointer. -/
def ioctlExchange : IoctlResult :=
  let tmp := param.get p
  let (retval, x) := getUserUnchecked env
  let p' := param.set p x
  privileged env p
    (if retval = 0 then ⟨(putUserUnchecked env tmp).1, p', (putUserUnchecked env tmp).2⟩
    else ⟨retval, p', env.value⟩)

/-- sHift: like Tell and Query. -/
def ioctlShift : IoctlResult :=
  privileged env p ⟨param.get p, param.set p (int32 arg), env.value⟩

/-- What the six commands of a parameter do. -/
def ioctl : ParamOp → IoctlResult
  | .set => param.ioctlSet env p
  | .tell => param.ioctlTell env arg p
  | .get => param.ioctlGet env p
  | .query => param.ioctlQuery env p
  | .exchange => param.ioctlExchange env p
  | .shift => param.ioctlShift env arg p

/-- eXchange, for the quantum set: `put_user` checks the address a second time. -/
def ioctlExchangeQset : IoctlResult :=
  let tmp := p.scullQset
  let (retval, x) := getUserUnchecked env
  let p' := { p with scullQset := x }
  privileged env p
    (if retval = 0 then ⟨(putUser env tmp).1, p', (putUser env tmp).2⟩
    else ⟨retval, p', env.value⟩)

end Param

/-- The cases of the `switch`. -/
def ScullCmd.exec (env : IoctlEnv) (arg : Nat) (p : ScullParams) : ScullCmd → IoctlResult
  | .reset => ⟨0, { p with scullQuantum := SCULL_QUANTUM, scullQset := SCULL_QSET }, env.value⟩
  | .quantum op => Param.quantum.ioctl env arg p op
  | .qset .exchange => Param.ioctlExchangeQset env p
  | .qset op => Param.qset.ioctl env arg p op
  -- The pipe shares the method, and asks for no capability.
  | .tellSize => ⟨0, { p with scullPBuffer := int32 arg }, env.value⟩
  | .querySize => ⟨p.scullPBuffer, p, env.value⟩

/-- `scull_ioctl`. -/
def scullIoctl (env : IoctlEnv) (cmd arg : Nat) (p : ScullParams) : IoctlResult :=
  if iocType cmd ≠ SCULL_IOC_MAGIC then ⟨-ENOTTY, p, env.value⟩
  else if iocNr cmd > SCULL_IOC_MAXNR then ⟨-ENOTTY, p, env.value⟩
  else if iocDir cmd ≠ 0 ∧ env.accessOk = false then ⟨-EFAULT, p, env.value⟩
  else
    match ScullCmd.ofCode cmd with
    | none => ⟨-ENOTTY, p, env.value⟩
    | some c => c.exec env arg p

/-- A call of `scull_ioctl`. -/
structure IoctlCall where
  env : IoctlEnv
  cmd : Nat
  arg : Nat

/-- The parameters after a row of calls. -/
def ioctls (p : ScullParams) (calls : List IoctlCall) : ScullParams :=
  calls.foldl (fun p c => (scullIoctl c.env c.cmd c.arg p).params) p

/-! ## Who can change what -/

/-- The geometry of new devices. -/
def ScullParams.geometry (p : ScullParams) : Int × Int := (p.scullQuantum, p.scullQset)

section Change

variable {env : IoctlEnv} {cmd arg : Nat} {p : ScullParams} {r : IoctlResult} {c : ScullCmd}

theorem ScullCmd.ofCode_code (c : ScullCmd) : ScullCmd.ofCode c.code = some c := by
  cases c with
  | quantum op => cases op <;> decide
  | qset op => cases op <;> decide
  | reset => decide
  | tellSize => decide
  | querySize => decide

theorem ScullCmd.code_of_ofCode (h : ScullCmd.ofCode cmd = some c) : c.code = cmd := by
  have hfound := List.find?_some h
  simpa using hfound

theorem ScullCmd.iocType_code (c : ScullCmd) : iocType c.code = SCULL_IOC_MAGIC := by
  cases c with
  | quantum op => cases op <;> decide
  | qset op => cases op <;> decide
  | reset => decide
  | tellSize => decide
  | querySize => decide

theorem ScullCmd.iocNr_code (c : ScullCmd) : iocNr c.code ≤ SCULL_IOC_MAXNR := by
  cases c with
  | quantum op => cases op <;> decide
  | qset op => cases op <;> decide
  | reset => decide
  | tellSize => decide
  | querySize => decide

/-- A command with an address that can be checked does what its label says. -/
theorem scullIoctl_code (h : iocDir c.code = 0 ∨ env.accessOk = true) (arg : Nat)
    (p : ScullParams) : scullIoctl env c.code arg p = c.exec env arg p := by
  have haccess : ¬ (iocDir c.code ≠ 0 ∧ env.accessOk = false) := by
    rcases h with hdir | haccess
    · exact fun hno => hno.1 hdir
    · rw [haccess]
      simp
  rw [scullIoctl, if_neg (not_not_intro c.iocType_code), if_neg (Nat.not_lt.mpr c.iocNr_code),
    if_neg haccess, c.ofCode_code]

/-- A command does what its label says, or nothing. -/
theorem scullIoctl_cases (env : IoctlEnv) (cmd arg : Nat) (p : ScullParams) :
    (∃ err, scullIoctl env cmd arg p = ⟨-err, p, env.value⟩) ∨
      ∃ c : ScullCmd, c.code = cmd ∧ scullIoctl env cmd arg p = c.exec env arg p := by
  unfold scullIoctl
  split
  · exact Or.inl ⟨ENOTTY, rfl⟩
  · split
    · exact Or.inl ⟨ENOTTY, rfl⟩
    · split
      · exact Or.inl ⟨EFAULT, rfl⟩
      · cases hcode : ScullCmd.ofCode cmd with
        | none => exact Or.inl ⟨ENOTTY, rfl⟩
        | some c => exact Or.inr ⟨c, ScullCmd.code_of_ofCode hcode, rfl⟩

/-- The second check of an exchange decides nothing, because it comes to the same answer
as the first one. -/
theorem scullIoctl_exchange_qset (env : IoctlEnv) (arg : Nat) (p : ScullParams) :
    scullIoctl env SCULL_IOCXQSET arg p =
      if env.accessOk then Param.qset.ioctlExchange env p else ⟨-EFAULT, p, env.value⟩ := by
  cases haccess : env.accessOk with
  | true =>
    have hput (x : Int) : putUser env x = putUserUnchecked env x := by
      rw [putUser, if_pos haccess]
    rw [show SCULL_IOCXQSET = (ScullCmd.qset .exchange).code from rfl,
      scullIoctl_code (Or.inr haccess), if_pos rfl, ScullCmd.exec, Param.ioctlExchangeQset]
    simp only [hput]
    rfl
  | false =>
    have hdir : iocDir SCULL_IOCXQSET ≠ 0 := by decide
    have htype : ¬ iocType SCULL_IOCXQSET ≠ SCULL_IOC_MAGIC := by decide
    have hnr : ¬ iocNr SCULL_IOCXQSET > SCULL_IOC_MAXNR := by decide
    rw [scullIoctl, if_neg htype, if_neg hnr, if_pos ⟨hdir, haccess⟩, if_neg (by simp)]

/-- A parameter of the geometry has nothing to do with the pipes. -/
theorem Param.privileged_pBuffer (h : r.params.scullPBuffer = p.scullPBuffer) :
    (Param.privileged env p r).params.scullPBuffer = p.scullPBuffer := by
  rw [Param.privileged]
  split
  · exact h
  · rfl

theorem Param.ioctl_pBuffer {param : Param} {op : ParamOp}
    (hset : ∀ p x, (param.set p x).scullPBuffer = p.scullPBuffer) :
    (param.ioctl env arg p op).params.scullPBuffer = p.scullPBuffer := by
  cases op with
  | set => exact privileged_pBuffer (hset _ _)
  | tell => exact privileged_pBuffer (hset _ _)
  | get => rfl
  | query => rfl
  | exchange =>
    apply privileged_pBuffer
    split <;> exact hset _ _
  | shift => exact privileged_pBuffer (hset _ _)

/-- A caller without the capability is refused. -/
theorem Param.privileged_params (h : env.capable = false) (r : IoctlResult) :
    (Param.privileged env p r).params = p := by
  rw [privileged, h]
  rfl

/-- A caller without the capability changes no parameter of the geometry. -/
theorem Param.ioctl_params {param : Param} {op : ParamOp} (h : env.capable = false) :
    (param.ioctl env arg p op).params = p := by
  cases op with
  | set => exact privileged_params h _
  | tell => exact privileged_params h _
  | get => rfl
  | query => rfl
  | exchange => exact privileged_params h _
  | shift => exact privileged_params h _

/-- The size of the pipes is what was told last. -/
theorem scullIoctl_pBuffer (env : IoctlEnv) (arg : Nat) (p : ScullParams) (cmd : Nat) :
    (scullIoctl env cmd arg p).params.scullPBuffer =
      if cmd = SCULL_P_IOCTSIZE then int32 arg else p.scullPBuffer := by
  by_cases hcmd : cmd = SCULL_P_IOCTSIZE
  · have hdir : iocDir ScullCmd.tellSize.code = 0 := by decide
    have hexec := @scullIoctl_code env _ (Or.inl hdir) arg p
    rw [if_pos hcmd, hcmd, show SCULL_P_IOCTSIZE = ScullCmd.tellSize.code from rfl, hexec]
    simp only [ScullCmd.exec]
  · rw [if_neg hcmd]
    rcases scullIoctl_cases env cmd arg p with ⟨err, hnone⟩ | ⟨c, hcode, hexec⟩
    · rw [hnone]
    · rw [hexec]
      cases c with
      | reset => rfl
      | quantum op => exact Param.ioctl_pBuffer fun _ _ => rfl
      | qset op =>
        cases op with
        | exchange =>
          apply Param.privileged_pBuffer
          split <;> rfl
        | _ => exact Param.ioctl_pBuffer fun _ _ => rfl
      | tellSize => exact absurd hcode.symm hcmd
      | querySize => rfl

/-- Without the capability the geometry can only be reset. -/
theorem scullIoctl_geometry (h : env.capable = false) (cmd arg : Nat) (p : ScullParams) :
    (scullIoctl env cmd arg p).params.geometry =
      if cmd = SCULL_IOCRESET then (SCULL_QUANTUM, SCULL_QSET) else p.geometry := by
  by_cases hcmd : cmd = SCULL_IOCRESET
  · have hdir : iocDir ScullCmd.reset.code = 0 := by decide
    have hexec := @scullIoctl_code env _ (Or.inl hdir) arg p
    rw [if_pos hcmd, hcmd, show SCULL_IOCRESET = ScullCmd.reset.code from rfl, hexec]
    rfl
  · rw [if_neg hcmd]
    rcases scullIoctl_cases env cmd arg p with ⟨err, hnone⟩ | ⟨c, hcode, hexec⟩
    · rw [hnone]
    · rw [hexec]
      cases c with
      | reset => exact absurd hcode.symm hcmd
      | quantum op =>
        show (Param.quantum.ioctl env arg p op).params.geometry = _
        rw [Param.ioctl_params h]
      | qset op =>
        cases op with
        | exchange =>
          show (Param.ioctlExchangeQset env p).params.geometry = _
          rw [Param.ioctlExchangeQset, Param.privileged_params h]
        | _ =>
          show (Param.qset.ioctl env arg p _).params.geometry = _
          rw [Param.ioctl_params h]
      | tellSize =>
        have hother : ∀ x, { p with scullPBuffer := x }.geometry = p.geometry := fun _ => rfl
        exact hother _
      | querySize => rfl

end Change

/-! ## Rows of calls -/

/-- The sizes that the calls tell. -/
def toldSizes (calls : List IoctlCall) : List Int :=
  calls.filterMap fun c => if c.cmd = SCULL_P_IOCTSIZE then some (int32 c.arg) else none

/-- The size of the pipes is the one that was told last, whoever told it. -/
theorem ioctls_pBuffer (p : ScullParams) (calls : List IoctlCall) :
    (ioctls p calls).scullPBuffer = (toldSizes calls).getLast?.getD p.scullPBuffer := by
  induction calls generalizing p with
  | nil => rfl
  | cons c calls ih =>
    show (ioctls (scullIoctl c.env c.cmd c.arg p).params calls).scullPBuffer = _
    rw [ih, scullIoctl_pBuffer]
    by_cases hcmd : c.cmd = SCULL_P_IOCTSIZE
    · have htold : toldSizes (c :: calls) = int32 c.arg :: toldSizes calls :=
        List.filterMap_cons_some (if_pos hcmd)
      rw [if_pos hcmd, htold, List.getLast?_cons, Option.getD_some]
    · have htold : toldSizes (c :: calls) = toldSizes calls :=
        List.filterMap_cons_none (if_neg hcmd)
      rw [if_neg hcmd, htold]

/-- The size of the pipes is the one that was told last, whoever told it.  Callers without
the capability can set the geometry of the other devices only back to its default. -/
theorem ioctls_unprivileged (p : ScullParams) (calls : List IoctlCall) :
    (ioctls p calls).scullPBuffer = (toldSizes calls).getLast?.getD p.scullPBuffer ∧
      ((∀ c ∈ calls, c.env.capable = false) →
        (ioctls p calls).geometry =
          if ∃ c ∈ calls, c.cmd = SCULL_IOCRESET then (SCULL_QUANTUM, SCULL_QSET)
          else p.geometry) := by
  refine ⟨ioctls_pBuffer p calls, fun h => ?_⟩
  induction calls generalizing p with
  | nil => rw [if_neg (by simp)]; rfl
  | cons c calls ih =>
    show (ioctls (scullIoctl c.env c.cmd c.arg p).params calls).geometry = _
    rw [ih _ fun c' hc' => h c' (List.mem_cons_of_mem _ hc'),
      scullIoctl_geometry (h c List.mem_cons_self)]
    by_cases hcmd : c.cmd = SCULL_IOCRESET
    · simp [hcmd]
    · simp [hcmd]

/-- One caller resets the geometry, and another one asks for pipes of a byte. -/
theorem ioctls_unprivileged_reset :
    let env : IoctlEnv := ⟨false, true, true, true, 0⟩
    let calls := [IoctlCall.mk env SCULL_IOCRESET 0, .mk env SCULL_P_IOCTSIZE 1]
    ∃ p : ScullParams, p = ioctls ⟨1, 1, 1⟩ calls ∧ p.geometry = (4000, 1000) ∧
      p.scullPBuffer = (toldSizes calls).getLast?.getD 1 := by
  have hresult := ioctls_unprivileged ⟨1, 1, 1⟩
    [⟨⟨false, true, true, true, 0⟩, SCULL_IOCRESET, 0⟩,
      ⟨⟨false, true, true, true, 0⟩, SCULL_P_IOCTSIZE, 1⟩]
  refine ⟨_, rfl, (hresult.2 (by simp)).trans ?_, hresult.1⟩
  rw [if_pos ⟨_, List.mem_cons_self, rfl⟩]
  rfl

end AesdChar.Scull
