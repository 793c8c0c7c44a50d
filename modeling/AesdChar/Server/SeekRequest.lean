import AesdChar.Server.Reply

/-!
# Seek requests end to end

A client that sends `AESDCHAR_IOCSEEKTO:X,Y` gets the content of the device
from byte `Y` of command `X` on.  The pieces are the receive phase, the prefix
test, `sscanf`, the seek of the driver and the reply loop.
-/

namespace AesdChar

open CodeLib CodeLib.CInt CodeLib.Ring CodeLib.CString

variable {kmalloc : Kmalloc} {k : KState} {cmds : Slots} {log : CommandLog}
  {env : WorkerEnv} {w : Worker} {copy : Copy}

/-- The request that a client sends. -/
def seekRequest (x y : Nat) : List Byte :=
  ioctlPrefix ++ (decimal x ++ 44 :: (decimal y ++ [newline]))

/-- The bytes behind the prefix: digits, a comma, digits and a newline. -/
private theorem mem_arguments {x y : Nat} {b : Byte}
    (h : b ∈ decimal x ++ 44 :: (decimal y ++ [newline])) :
    isDigit b = true ∨ b = 44 ∨ b = newline := by
  rcases List.mem_append.mp h with hx | h
  · exact Or.inl (isDigit_of_mem_decimal b hx)
  · rcases List.mem_cons.mp h with hcomma | h
    · exact Or.inr (Or.inl hcomma)
    · rcases List.mem_append.mp h with hy | hnl
      · exact Or.inl (isDigit_of_mem_decimal b hy)
      · exact Or.inr (Or.inr (List.mem_singleton.mp hnl))

private theorem isDigit_newline : isDigit newline = false := by decide

/-- A request for numbers of 32 bits fits the buffer with room to spare. -/
theorem length_seekRequest_lt {x y : Nat} (hx : x < 2 ^ 32) (hy : y < 2 ^ 32) :
    (seekRequest x y).length < fullBufSize := by
  have hpre : ioctlPrefix.length = 19 := by decide
  have hlx := length_decimal_le hx
  have hly := length_decimal_le hy
  simp only [seekRequest, List.length_append, List.length_cons, List.length_nil, hpre]
  unfold fullBufSize
  omega

/-- The worker receives the request, however it is cut into chunks. -/
theorem command_seekRequest {chunks : List Chunk} {x y : Nat} (hx : x < 2 ^ 32) (hy : y < 2 ^ 32)
    (hchunks : bytesOf chunks = seekRequest x y) : command chunks = seekRequest x y := by
  have hsplit : seekRequest x y =
      (ioctlPrefix ++ (decimal x ++ 44 :: decimal y)) ++ [newline] := by
    simp [seekRequest]
  have hlen := length_seekRequest_lt hx hy
  rw [hsplit] at hchunks hlen ⊢
  refine command_eq_bytesOf hchunks ?_ hlen
  rw [List.mem_append, List.mem_append, List.mem_cons]
  rintro (hpre | hdigit | hcomma | hdigit)
  · exact absurd hpre (by decide)
  · exact absurd (isDigit_of_mem_decimal _ hdigit) (by simp [isDigit_newline])
  · exact absurd hcomma (by decide)
  · exact absurd (isDigit_of_mem_decimal _ hdigit) (by simp [isDigit_newline])

/-- `sscanf` reads the two numbers from the buffer. -/
theorem sscanfPair_seekRequest {x y : Nat} (hx : x < 2 ^ 32) (hy : y < 2 ^ 32)
    (behind : List Byte) :
    sscanfPair (str ((received (seekRequest x y)).drop ioctlPrefix.length ++ behind)) =
      some (x, y) := by
  have hlen := length_seekRequest_lt hx hy
  obtain ⟨n, hn⟩ : ∃ n, fullBufSize - (seekRequest x y).length = n + 1 :=
    ⟨fullBufSize - (seekRequest x y).length - 1, by omega⟩
  have hnonzero : ∀ b ∈ decimal x ++ 44 :: (decimal y ++ [newline]), b ≠ 0 := by
    rintro b hb rfl
    rcases mem_arguments hb with h | h | h
    · exact absurd h (by decide)
    · exact absurd h (by decide)
    · exact absurd h (by decide)
  have hstr : str ((received (seekRequest x y)).drop ioctlPrefix.length ++ behind) =
      decimal x ++ 44 :: (decimal y ++ [newline]) := by
    rw [received, hn, seekRequest, List.append_assoc, List.drop_left, List.append_assoc, str,
      List.takeWhile_append_of_pos (by simpa using hnonzero)]
    simp [List.replicate_succ]
  rw [hstr]
  refine sscanfPair_decimal hx hy fun c hc => ?_
  rw [← Option.some.inj hc]
  exact isDigit_newline

/-! ## The request -/

/-- The step from the request to the reply loop. -/
theorem Worker.request_seekRequest (h : Idle kmalloc k cmds log) (hs : env.Succeeds) {x y : Nat}
    (hx : x < log.visible.length) (hy : y < (log.visible[x]).length) (hy32 : y < 2 ^ 32)
    (hbuf : w.fullBuf = received (seekRequest x y)) :
    w.request (aesdFops kmalloc) env k =
      .ok ({ w with pc := .read, fPos := ((log.visible.take x).flatten.length + y : Nat) }, k) := by
  have hx10 : log.visible.length ≤ maxWriteOperations := by
    rw [CommandLog.visible, length_rtake]
    exact Nat.min_le_right _ _
  have hx32 : x < 2 ^ 32 := by
    unfold maxWriteOperations at hx10
    omega
  have hseek : strncmp ioctlPrefix.length w.fullBuf ioctlPrefix = 0 := by
    rw [hbuf, strncmp_received_iff (Nat.le_of_lt (length_seekRequest_lt hx32 hy32))]
    exact List.prefix_append _ _
  have hioctl := aesdUnlockedIoctl_seek h w.fPos hx hy
  unfold Worker.request
  rw [if_pos hseek, hbuf, sscanfPair_seekRequest hx32 hy32]
  simp only [aesdFops, hs.ioctl, hioctl, ok_bind, pure_eq_ok]

/-- A seek request for a byte of a stored command is answered with the content
from there on, and changes nothing. -/
theorem run_seekRequest (copy : Copy) {calls : List Call} {events : List Event} {s : Driver}
    (hrun : Driver.loaded.run kmalloc calls = .ok (events, s)) {entries : List (List Byte)}
    (hentries : s.k.commands = .ok entries) {x y : Nat} (hx : x < entries.length)
    (hy : y < (entries[x]).length) (hy32 : y < 2 ^ 32) (hs : env.Succeeds)
    (hrecv : bytesOf env.recv = seekRequest x y) :
    ∃ n actions t, (System.start s.k).run (charBuild copy) (aesdFops kmalloc) (fun _ => env)
        (List.replicate n ()) = .ok (actions, t) ∧
      (t.workers ()).pc = .done ∧
      (t.workers ()).reply = entries.flatten.drop ((entries.take x).flatten.length + y) ∧
      t.shared.dev = s.k := by
  obtain ⟨cmds, hready⟩ := Driver.ready_of_run hrun
  have hidle := hready.idle
  rw [hidle.commands_eq, Except.ok.injEq] at hentries
  subst hentries
  have hx32 : x < 2 ^ 32 := by
    have hlen := length_rtake maxWriteOperations (CommandLog.ofWrites (payloads events)).closed
    rw [← CommandLog.visible] at hlen
    unfold maxWriteOperations at hlen
    omega
  have hbuf : (Worker.opened env.recv).fullBuf = received (seekRequest x y) :=
    congrArg received (command_seekRequest hx32 hy32 hrecv)
  have hopened := run_opened (charBuild copy) (aesdFops kmalloc) (fun _ => env) s.k hs.openOk
  have hrequest : (single (Worker.opened env.recv) ⟨s.k, some ()⟩).step (charBuild copy)
      (aesdFops kmalloc) (fun _ => env) () = .ok (.internal, single _ ⟨s.k, some ()⟩) :=
    single_step _ (Worker.step_request rfl
      (Worker.request_seekRequest hidle hs hx hy hy32 hbuf))
  have hrunning :=
    (running_single (fun _ => env) hidle (Worker.ok_opened env) rfl).of_step hrequest
  obtain ⟨n, actions, t, hreply, hdone, htarget, hdev⟩ :=
    hrunning.finishes_reply copy hs.toDelivers (fun _ => hs.reopenOk)
      ⟨_, rfl, List.nil_append _⟩
  have hall := System.run_append hopened (System.run_cons hrequest hreply)
  rw [← List.replicate_succ, List.replicate_append_replicate] at hall
  exact ⟨_, _, t, hall, hdone, htarget, hdev⟩

/-- The command `ab` is stored, and a client asks for its second byte. -/
theorem run_seekRequest_second_byte :
    ∃ events s, Driver.loaded.run ⟨4096, by decide⟩ [.write 0 [97, 98, newline] .granting] =
        .ok (events, s) ∧
      ∃ n actions t, (System.start s.k).run (charBuild .metaAesd) (aesdFops ⟨4096, by decide⟩)
          (fun _ => .succeeding (singles (seekRequest 0 1))) (List.replicate n ()) =
            .ok (actions, t) ∧
        (t.workers ()).pc = .done ∧
        (t.workers ()).reply = [[97, 98, newline]].flatten.drop
          (([[97, 98, newline]].take 0).flatten.length + 1) ∧
        t.shared.dev = s.k :=
  ⟨_, _, rfl, run_seekRequest .metaAesd
    (show Driver.loaded.run _ [.write 0 [97, 98, newline] .granting] = .ok (_, _) from rfl)
    (show KState.commands _ = .ok [[97, 98, newline]] from rfl) (by decide) (by decide) (by decide)
    (WorkerEnv.succeeds_succeeding _) (bytesOf_singles _)⟩

end AesdChar
