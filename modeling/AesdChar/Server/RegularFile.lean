import AesdChar.Driver.History
import AesdChar.Server.Worker

/-!
# Regular files, and what a reader gets from a device

Built without `USE_AESD_CHAR_DEVICE`, the server keeps its data in a regular
file.  `regularFile` has its file operations, for calls that succeed.  A write
goes to the position of the open file, over what is there.  A write through a
stream in mode `a+` goes to the end.

`Serves` is what the reply loop relies on, for any device: reads hand out the
content from the position of the file on.  The character device and a regular
file both do so.
-/

namespace AesdChar

open CodeLib CodeLib.CInt CodeLib.Ring

/-- A `write` at position `off`.  A gap behind the end of the file becomes zero
bytes. -/
def writeAt (file : List Byte) (off : Nat) (buf : List Byte) : List Byte :=
  if buf = [] then file
  else splice (file ++ List.replicate (off - file.length) 0) off buf

/-- The file operations of a regular file. -/
def regularFile : FileOps (List Byte) where
  read _ ubuf count fPos file :=
    let data := (file.drop fPos.toNat).take count
    .ok { ret := data.length
          fPos := fPos + data.length
          state := file
          ubuf := splice ubuf 0 data }
  write _ buf fPos file :=
    .ok ⟨buf.length, fPos + buf.length, writeAt file fPos.toNat buf⟩
  llseek fPos offset whence file :=
    let newpos : Option Int :=
      if whence = SEEK_SET then some offset
      else if whence = SEEK_CUR then some (fPos + offset)
      else if whence = SEEK_END then some (file.length + offset)
      else none
    match newpos with
    | none => .ok ⟨-EINVAL, fPos, file⟩
    | some newpos => if newpos < 0 then .ok ⟨-EINVAL, fPos, file⟩ else .ok ⟨newpos, newpos, file⟩
  unlockedIoctl _ _ _ fPos file := .ok ⟨-ENOTTY, fPos, file⟩

/-- A write at the start of the file covers what was there. -/
theorem writeAt_zero (file buf : List Byte) : writeAt file 0 buf = buf ++ file.drop buf.length := by
  unfold writeAt
  split
  · rename_i hnil
    rw [hnil]
    rfl
  · rw [Nat.zero_sub, List.replicate_zero, List.append_nil, splice_zero]

/-- A write at the start is an append exactly if there is nothing to write or
nothing there. -/
theorem writeAt_zero_eq_append_iff (file buf : List Byte) :
    writeAt file 0 buf = file ++ buf ↔ buf = [] ∨ file = [] := by
  rw [writeAt_zero]
  constructor
  · intro h
    have hlen := congrArg List.length h
    rw [List.length_append, List.length_append, List.length_drop] at hlen
    rcases Nat.lt_or_ge file.length buf.length with hlt | hge
    · exact Or.inr (List.length_eq_zero_iff.mp (by omega))
    · exact Or.inl (List.length_eq_zero_iff.mp (by omega))
  · rintro (rfl | rfl)
    · simp
    · simp

/-! ## Readers -/

section Serves

variable {σ : Type}

/-- The reads of a worker hand out the content of the device from the position
of the file on, and leave the device as it is.  A position is a `loff_t`, or one
that the reads came to. -/
def Serves (ops : FileOps σ) (env : WorkerEnv) (dev : σ) (content : List Byte) : Prop :=
  ∀ n off : Nat, off < 2 ^ 63 ∨ off ≤ content.length →
    let window := (content.drop off).take bufSize
    ops.read (env.reads n) [] bufSize off dev = .ok
      { ret := window.length
        fPos := (off + window.length : Nat)
        state := dev
        ubuf := window }

/-- A regular file is served. -/
theorem regularFile_serves (env : WorkerEnv) (file : List Byte) :
    Serves regularFile env file file := by
  intro n off _
  simp only [regularFile, Int.toNat_natCast, splice_zero, List.drop_nil, List.append_nil,
    Nat.cast_add]

/-- The character device is served, if no copy to the user fails. -/
theorem Idle.serves {kmalloc : Kmalloc} {k : KState} {cmds : Slots} {log : CommandLog}
    (h : Idle kmalloc k cmds log) {env : WorkerEnv}
    (hok : ∀ n i, (env.reads n).uncopied i = 0) :
    Serves (aesdFops kmalloc) env k log.content := by
  intro n off hoff window
  have hlt : off < 2 ^ 63 := by
    rcases hoff with hlt | hle
    · exact hlt
    · exact Nat.lt_of_le_of_lt hle h.content_lt
  obtain ⟨r, hread, hstate, hres⟩ := aesdRead_spec h (env.reads n) [] bufSize hlt
  rcases hres with ⟨⟨i, hi⟩, -⟩ | ⟨hret, hfPos, hubuf⟩
  · exact absurd (hok n i) hi
  · rw [List.drop_nil, List.append_nil] at hubuf
    show aesdRead (env.reads n) [] bufSize off k = _
    rw [hread]
    obtain ⟨⟨ret, fPos, state⟩, ubuf⟩ := r
    subst hret hfPos hubuf hstate
    rfl

end Serves

end AesdChar
