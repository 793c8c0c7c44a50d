import AesdChar.Driver.Framing

/-!
# The receive phase of a worker

`threadfunc` collects the bytes of a client in `full_buf` until a chunk holds
a newline or the stream ends.  A chunk that does not fit is dropped, and the
loop goes on.

`accepted` is what the loop keeps.  `receive_eq` says that the buffer is the
kept bytes followed by zeros, that no store leaves the buffer and that both
copies of the server agree.  The results on messages and on streams are about
`command`, the bytes that are handed to the device.
-/

namespace AesdChar

open CodeLib CodeLib.CInt

/-- The two copies of `aesdsocket.c`: the one in `server/` and the one in
`meta-aesd/`. -/
inductive Copy
  | server
  | metaAesd
deriving DecidableEq, Repr

/-- `sizeof(full_buf)`. -/
def fullBufSize : Nat := 2048

/-- `sizeof(buf)`, and `sizeof(send_buf)`. -/
def bufSize : Nat := 1024

/-- What one call of `recv` that returns a positive number delivers. -/
structure Chunk where
  bytes : List Byte
  pos : 0 < bytes.length
  le : bytes.length ≤ bufSize

/-- A store of `xs` to `buf` from index `off` on.  A store behind the end of
the array is a fault. -/
def storeAt (buf : List Byte) (off : Nat) (xs : List Byte) : Except Fault (List Byte) :=
  if off + xs.length ≤ buf.length then .ok (splice buf off xs) else .error .badAccess

/-- The `while` loop around `recv`, with `full_buf` and `total_len`.  The list
is what `recv` returns until it returns zero or an error. -/
def receiveLoop : List Chunk → (fullBuf : List Byte) → (totalLen : Nat) →
    Except Fault (List Byte × Nat)
  | [], fullBuf, totalLen => .ok (fullBuf, totalLen)
  | c :: cs, fullBuf, totalLen => do
    let (fullBuf, totalLen) ←
      (if totalLen + c.bytes.length < fullBufSize then do
        let fullBuf ← storeAt fullBuf totalLen c.bytes
        return (fullBuf, totalLen + c.bytes.length)
      else .ok (fullBuf, totalLen))
    if newline ∈ c.bytes then .ok (fullBuf, totalLen)
    else receiveLoop cs fullBuf totalLen

/-- The receive phase: `full_buf` and `total_len` as the worker enters the
critical section with them. -/
def receive (copy : Copy) (chunks : List Chunk) : Except Fault (List Byte × Nat) := do
  let (fullBuf, totalLen) ← receiveLoop chunks (List.replicate fullBufSize 0) 0
  let fullBuf ← (match copy with
    | .server => .ok fullBuf
    | .metaAesd => storeAt fullBuf totalLen [0])
  if 0 < totalLen ∧ fullBuf[totalLen - 1]? ≠ some newline then do
    let fullBuf ← storeAt fullBuf totalLen [newline]
    return (fullBuf, totalLen + 1)
  else return (fullBuf, totalLen)

/-! ## What the loop keeps -/

/-- The bytes that the loop keeps when it has `n` bytes. -/
def accepted : (n : Nat) → List Chunk → List Byte
  | _, [] => []
  | n, c :: cs =>
    let kept := if n + c.bytes.length < fullBufSize then c.bytes else []
    if newline ∈ c.bytes then kept else kept ++ accepted (n + kept.length) cs

/-- The bytes that are handed to the device: what was kept, with a newline at
the end. -/
def command (chunks : List Chunk) : List Byte :=
  let kept := accepted 0 chunks
  if kept ≠ [] ∧ kept.getLast? ≠ some newline then kept ++ [newline] else kept

/-- The bytes of a row of chunks. -/
def bytesOf (chunks : List Chunk) : List Byte := (chunks.map Chunk.bytes).flatten

@[simp] theorem bytesOf_cons (c : Chunk) (cs : List Chunk) :
    bytesOf (c :: cs) = c.bytes ++ bytesOf cs := rfl

@[simp] theorem bytesOf_append (cs cs' : List Chunk) :
    bytesOf (cs ++ cs') = bytesOf cs ++ bytesOf cs' := by
  simp [bytesOf]

theorem bytesOf_concat (cs : List Chunk) (c : Chunk) :
    bytesOf (cs ++ [c]) = bytesOf cs ++ c.bytes := by
  simp [bytesOf]

/-- A row of chunks is empty or has a last chunk. -/
theorem eq_nil_or_concat (chunks : List Chunk) : chunks = [] ∨ ∃ cs c, chunks = cs ++ [c] := by
  rcases List.eq_nil_or_concat chunks with h | ⟨cs, c, h⟩
  · exact Or.inl h
  · exact Or.inr ⟨cs, c, by rw [h, List.concat_eq_append]⟩

theorem accepted_length {n : Nat} (h : n < fullBufSize) (chunks : List Chunk) :
    n + (accepted n chunks).length < fullBufSize := by
  induction chunks generalizing n with
  | nil => exact h
  | cons c cs ih =>
    rw [accepted]
    by_cases hfit : n + c.bytes.length < fullBufSize
    · simp only [hfit, if_true]
      split
      · exact hfit
      · rw [List.length_append, ← Nat.add_assoc]
        exact ih hfit
    · simp only [hfit, if_false]
      split
      · exact h
      · simpa using ih h

/-- The array after `xs` was received. -/
def received (xs : List Byte) : List Byte := xs ++ List.replicate (fullBufSize - xs.length) 0

theorem length_received {xs : List Byte} (h : xs.length ≤ fullBufSize) :
    (received xs).length = fullBufSize := by
  rw [received, List.length_append, List.length_replicate]
  omega

@[simp] theorem take_received (xs : List Byte) : (received xs).take xs.length = xs :=
  List.take_left

/-- Storing behind the received bytes receives more. -/
theorem storeAt_received {xs ys : List Byte} (h : xs.length + ys.length ≤ fullBufSize) :
    storeAt (received xs) xs.length ys = .ok (received (xs ++ ys)) := by
  have hlen := length_received (Nat.le_trans (Nat.le_add_right _ _) h)
  rw [storeAt, if_pos (by rw [hlen]; exact h)]
  congr 1
  rw [splice, take_received, received, received, List.drop_append, List.drop_eq_nil_of_le (by simp),
    List.nil_append, List.drop_replicate, List.length_append, Nat.add_sub_cancel_left,
    Nat.sub_sub]

/-- The loop keeps `accepted`. -/
theorem receiveLoop_eq {xs : List Byte} (h : xs.length < fullBufSize) (chunks : List Chunk) :
    receiveLoop chunks (received xs) xs.length =
      .ok (received (xs ++ accepted xs.length chunks),
        (xs ++ accepted xs.length chunks).length) := by
  induction chunks generalizing xs with
  | nil => simp [receiveLoop, accepted]
  | cons c cs ih =>
    rw [receiveLoop, accepted]
    by_cases hfit : xs.length + c.bytes.length < fullBufSize
    · simp only [hfit, if_true, storeAt_received (Nat.le_of_lt hfit), ok_bind, pure_eq_ok]
      rw [← List.length_append] at hfit ⊢
      split
      · rfl
      · rw [ih hfit, List.append_assoc]
    · simp only [hfit, if_false, ok_bind, List.nil_append, List.length_nil, Nat.add_zero]
      split
      · rw [List.append_nil]
      · exact ih h

/-- The last received byte, as the worker looks at it. -/
private theorem received_getLast {xs : List Byte} (h : xs ≠ []) :
    (received xs)[xs.length - 1]? = xs.getLast? := by
  have hpos := List.length_pos_iff.mpr h
  rw [received, List.getElem?_append_left (by omega), List.getLast?_eq_getElem?]

/-- The receive phase stores inside the array only, and hands on `command`. -/
theorem receive_eq (copy : Copy) (chunks : List Chunk) :
    receive copy chunks = .ok (received (command chunks), (command chunks).length) := by
  have hlt : (accepted 0 chunks).length < fullBufSize := by
    simpa using accepted_length (n := 0) (by decide) chunks
  have hroom : ∀ b : Byte, (accepted 0 chunks).length + [b].length ≤ fullBufSize := fun _ => hlt
  have hloop := receiveLoop_eq (show ([] : List Byte).length < fullBufSize by decide) chunks
  simp only [List.nil_append, List.length_nil] at hloop
  -- The zero byte that one copy stores is there already.
  have hzero : received (accepted 0 chunks ++ [0]) = received (accepted 0 chunks) := by
    have hsucc : fullBufSize - (accepted 0 chunks).length =
        fullBufSize - (accepted 0 chunks ++ [0]).length + 1 := by
      rw [List.length_append, List.length_singleton]
      omega
    rw [received, received, hsucc, List.replicate_succ, List.append_assoc]
    rfl
  have hcopy : (match copy with
      | .server => Except.ok (received (accepted 0 chunks))
      | .metaAesd => storeAt (received (accepted 0 chunks)) (accepted 0 chunks).length [0]) =
      .ok (received (accepted 0 chunks)) := by
    cases copy with
    | server => rfl
    | metaAesd => rw [storeAt_received (hroom 0), hzero]
  have hinit : List.replicate fullBufSize 0 = received [] := rfl
  unfold receive
  simp only [hinit, hloop, ok_bind, hcopy]
  by_cases hnil : accepted 0 chunks = []
  · simp [command, hnil]
  · rw [received_getLast hnil]
    by_cases hlast : (accepted 0 chunks).getLast? = some newline
    · simp [command, hlast]
    · have hpos := List.length_pos_iff.mpr hnil
      simp [command, hnil, hlast, hpos, storeAt_received (hroom newline)]

/-- The command bytes of a worker: `full_buf[0..total_len)`. -/
def handed (copy : Copy) (chunks : List Chunk) : Except Fault (List Byte) := do
  let (fullBuf, totalLen) ← receive copy chunks
  return fullBuf.take totalLen

theorem handed_eq (copy : Copy) (chunks : List Chunk) :
    handed copy chunks = .ok (command chunks) := by
  rw [handed, receive_eq, ok_bind]
  simp only [take_received, pure_eq_ok]

/-- The buffer has room for every command. -/
theorem length_command_le (chunks : List Chunk) : (command chunks).length ≤ fullBufSize := by
  have hlt : (accepted 0 chunks).length < fullBufSize := by
    simpa using accepted_length (n := 0) (by decide) chunks
  unfold command
  dsimp only
  split
  · rw [List.length_append]
    exact hlt
  · exact Nat.le_of_lt hlt

/-- A command ends with a newline. -/
theorem command_eq_nil_or (chunks : List Chunk) :
    command chunks = [] ∨ ∃ body, command chunks = body ++ [newline] := by
  unfold command
  dsimp only
  split
  · exact Or.inr ⟨_, rfl⟩
  · rename_i h
    by_cases hnil : accepted 0 chunks = []
    · exact Or.inl hnil
    · have hlast : (accepted 0 chunks).getLast? = some newline := by
        by_contra hne
        exact h ⟨hnil, hne⟩
      exact Or.inr ⟨_, (List.dropLast_append_getLast? _ hlast).symm⟩

theorem newline_mem_command {chunks : List Chunk} (h : command chunks ≠ []) :
    newline ∈ command chunks := by
  rcases command_eq_nil_or chunks with hnil | ⟨body, hbody⟩
  · exact absurd hnil h
  · rw [hbody]
    exact List.mem_append_right _ (List.mem_singleton_self _)

/-! ## Chunks without a newline -/

/-- Chunks without a newline are kept as long as they fit. -/
theorem accepted_append {n : Nat} {cs : List Chunk} (hnl : newline ∉ bytesOf cs)
    (hfit : n + (bytesOf cs).length < fullBufSize) (ds : List Chunk) :
    accepted n (cs ++ ds) = bytesOf cs ++ accepted (n + (bytesOf cs).length) ds := by
  induction cs generalizing n with
  | nil => rfl
  | cons c cs ih =>
    rw [bytesOf_cons, List.mem_append, not_or] at hnl
    rw [bytesOf_cons, List.length_append, ← Nat.add_assoc] at hfit
    have hc : n + c.bytes.length < fullBufSize := Nat.lt_of_le_of_lt (Nat.le_add_right _ _) hfit
    rw [List.cons_append, accepted]
    simp only [hc, if_true, hnl.1, if_false]
    rw [ih hnl.2 hfit, bytesOf_cons, List.length_append, List.append_assoc, Nat.add_assoc]

/-- A chunk with a newline is the last one that the loop looks at. -/
theorem accepted_cons_of_mem {n : Nat} {c : Chunk} (hnl : newline ∈ c.bytes) (cs : List Chunk) :
    accepted n (c :: cs) = if n + c.bytes.length < fullBufSize then c.bytes else [] := by
  rw [accepted]
  simp only [hnl, if_true]

/-- Bytes that end at a newline, or hold none, are kept whole if they fit. -/
theorem accepted_eq_bytesOf {n : Nat} {chunks : List Chunk} (h : NewlineLast (bytesOf chunks))
    (hfit : n + (bytesOf chunks).length < fullBufSize) : accepted n chunks = bytesOf chunks := by
  rcases eq_nil_or_concat chunks with rfl | ⟨cs, c, rfl⟩
  · rfl
  · have hne : c.bytes ≠ [] := List.length_pos_iff.mp c.pos
    rw [bytesOf_concat] at h hfit ⊢
    rw [NewlineLast, List.dropLast_append_of_ne_nil hne, List.mem_append, not_or] at h
    rw [List.length_append, ← Nat.add_assoc] at hfit
    rw [accepted_append h.1 (by omega), accepted]
    simp only [hfit, if_true, accepted, List.append_nil, ite_self]

/-! ## Messages -/

/-- A command that is one line and fits is handed on as it is. -/
theorem command_eq_bytesOf {chunks : List Chunk} {body : List Byte}
    (hbytes : bytesOf chunks = body ++ [newline]) (hbody : newline ∉ body)
    (hlen : (body ++ [newline]).length < fullBufSize) : command chunks = body ++ [newline] := by
  have haccepted : accepted 0 chunks = body ++ [newline] := by
    rw [← hbytes]
    refine accepted_eq_bytesOf ?_ ?_
    · rw [hbytes, NewlineLast, List.dropLast_concat]
      exact hbody
    · rw [Nat.zero_add, hbytes]
      exact hlen
  simp [command, haccepted]

/-- The chunks of a message: the newline is the end of the last one. -/
private theorem exists_last_chunk {body : List Byte} {chunks : List Chunk}
    (hchunks : bytesOf chunks = body ++ [newline]) :
    ∃ cs c init, chunks = cs ++ [c] ∧ c.bytes = init ++ [newline] ∧ body = bytesOf cs ++ init := by
  rcases eq_nil_or_concat chunks with rfl | ⟨cs, c, rfl⟩
  · simp [bytesOf] at hchunks
  · have hne : c.bytes ≠ [] := List.length_pos_iff.mp c.pos
    obtain ⟨init, last, hc⟩ : ∃ init last, c.bytes = init ++ [last] :=
      ⟨_, _, (List.dropLast_append_getLast hne).symm⟩
    rw [bytesOf_concat, hc, ← List.append_assoc] at hchunks
    obtain ⟨hinit, hlast⟩ := List.append_inj' hchunks rfl
    obtain rfl : last = newline := by simpa using hlast
    exact ⟨cs, c, init, rfl, hc, hinit.symm⟩

/-- A message of one line is handed on whole exactly if it has at most 2047
bytes, or if it has 2048 bytes and the newline came alone in the last chunk. -/
theorem handed_message_iff (copy : Copy) {body : List Byte} {chunks : List Chunk}
    (hbody : newline ∉ body) (hchunks : bytesOf chunks = body ++ [newline]) :
    handed copy chunks = .ok (body ++ [newline]) ↔
      (body ++ [newline]).length ≤ 2047 ∨
      (body ++ [newline]).length = 2048 ∧
        ∃ cs c, chunks = cs ++ [c] ∧ c.bytes = [newline] := by
  obtain ⟨cs, c, init, rfl, hc, rfl⟩ := exists_last_chunk hchunks
  rw [List.mem_append, not_or] at hbody
  have hmem : newline ∈ c.bytes := by simp [hc]
  have hclen : c.bytes.length = init.length + 1 := by simp [hc]
  have hlen : (bytesOf cs ++ init ++ [newline]).length = (bytesOf cs).length + c.bytes.length := by
    simp [hclen]
  rw [handed_eq, Except.ok.injEq, hlen]
  have hle := length_command_le (cs ++ [c])
  have hcle := c.le
  unfold fullBufSize at hle
  unfold bufSize at hcle
  rcases Nat.lt_or_ge (bytesOf cs).length fullBufSize with hroom | hfull
  · have haccepted : accepted 0 (cs ++ [c]) = bytesOf cs ++
        if (bytesOf cs).length + c.bytes.length < fullBufSize then c.bytes else [] := by
      rw [accepted_append hbody.1 (by rwa [Nat.zero_add]), Nat.zero_add, accepted_cons_of_mem hmem]
    by_cases hfit : (bytesOf cs).length + c.bytes.length < fullBufSize
    · -- Everything fits.
      rw [if_pos hfit, hc] at haccepted
      have hcommand : command (cs ++ [c]) = bytesOf cs ++ init ++ [newline] := by
        simp [command, haccepted]
      exact ⟨fun _ => Or.inl (Nat.le_of_lt_succ hfit), fun _ => hcommand⟩
    · -- The last chunk is dropped, and its newline is put back.
      rw [if_neg hfit, List.append_nil] at haccepted
      unfold fullBufSize at hfit
      have hne : bytesOf cs ≠ [] := by
        intro hnil
        rw [hnil, List.length_nil] at hfit
        omega
      have hlast : (bytesOf cs).getLast? ≠ some newline :=
        fun h => hbody.1 (List.mem_of_getLast? h)
      have hcommand : command (cs ++ [c]) = bytesOf cs ++ [newline] := by
        simp [command, haccepted, hne, hlast]
      rw [hcommand]
      constructor
      · intro heq
        have hinit : init = [] := by
          have := congrArg List.length heq
          simp only [List.length_append, List.length_singleton] at this
          exact List.eq_nil_of_length_eq_zero (by omega)
        subst hinit
        have : (bytesOf cs).length < 2048 := hroom
        simp only [List.length_nil] at hclen
        exact Or.inr ⟨by omega, cs, c, rfl, hc⟩
      · rintro (hsmall | ⟨-, cs', c', hsplit, hc'⟩)
        · omega
        · obtain ⟨-, hcc⟩ := List.append_inj' hsplit rfl
          obtain rfl : c = c' := by simpa using hcc
          have hinit : init = [] := by
            rw [hc'] at hclen
            exact List.eq_nil_of_length_eq_zero (by simpa using hclen.symm)
          rw [hinit, List.append_nil]
  · -- More was sent than the buffer can hold.
    unfold fullBufSize at hfull
    constructor
    · intro heq
      rw [heq, hlen] at hle
      omega
    · rintro (hsmall | ⟨hexact, -⟩)
      · omega
      · omega

/-- A line of three bytes that arrives whole. -/
theorem handed_message_iff_short :
    handed .server [⟨[97, 98, newline], by decide, by decide⟩] = .ok ([97, 98] ++ [newline]) ↔
      ([97, 98] ++ [newline] : List Byte).length ≤ 2047 ∨
      ([97, 98] ++ [newline] : List Byte).length = 2048 ∧
        ∃ (cs : List Chunk) (c : Chunk),
          [⟨[97, 98, newline], by decide, by decide⟩] = cs ++ [c] ∧ c.bytes = [newline] :=
  handed_message_iff .server (by decide) rfl

/-- A line of 2048 bytes in two halves: the second half is dropped. -/
theorem handed_message_shortened :
    ∃ (body : List Byte) (chunks : List Chunk), newline ∉ body ∧
      bytesOf chunks = body ++ [newline] ∧
      ∀ copy, handed copy chunks ≠ .ok (body ++ [newline]) := by
  have hletters : ∀ n, newline ∉ List.replicate n (97 : Byte) := by
    intro n hmem
    exact absurd (List.eq_of_mem_replicate hmem) (by decide)
  obtain ⟨c₁, h₁⟩ : ∃ c : Chunk, c.bytes = List.replicate 1024 97 :=
    ⟨⟨List.replicate 1024 97, by rw [List.length_replicate]; decide,
      by rw [List.length_replicate]; decide⟩, rfl⟩
  obtain ⟨c₂, h₂⟩ : ∃ c : Chunk, c.bytes = List.replicate 1023 97 ++ [newline] :=
    ⟨⟨List.replicate 1023 97 ++ [newline],
      by rw [List.length_append, List.length_replicate]; decide,
      by rw [List.length_append, List.length_replicate]; decide⟩, rfl⟩
  have hbytes : bytesOf [c₁] = List.replicate 1024 97 := by
    rw [bytesOf_cons, h₁]
    exact List.append_nil _
  have hlen : (bytesOf [c₁]).length = 1024 := by rw [hbytes, List.length_replicate]
  have haccepted : accepted 0 ([c₁] ++ [c₂]) = List.replicate 1024 97 := by
    rw [accepted_append (by rw [hbytes]; exact hletters _) (by rw [hlen]; decide),
      accepted_cons_of_mem (by rw [h₂]; exact List.mem_append_right _ List.mem_cons_self), hbytes,
      List.length_replicate, h₂, List.length_append, List.length_replicate]
    exact List.append_nil _
  refine ⟨List.replicate 1024 97 ++ List.replicate 1023 97, [c₁] ++ [c₂], ?_, ?_, ?_⟩
  · rw [List.mem_append]
    exact not_or.mpr ⟨hletters _, hletters _⟩
  · rw [bytesOf_concat, hbytes, h₂, List.append_assoc]
  · intro copy heq
    rw [handed_eq, Except.ok.injEq, command, haccepted] at heq
    have hlengths := congrArg List.length heq
    split at hlengths
    · simp only [List.length_append, List.length_replicate, List.length_singleton] at hlengths
      omega
    · simp only [List.length_append, List.length_replicate, List.length_singleton] at hlengths
      omega

/-! ## Streams -/

/-- One chunk for each byte. -/
def singles (xs : List Byte) : List Chunk :=
  xs.map fun b => ⟨[b], Nat.one_pos, show 1 ≤ bufSize by decide⟩

@[simp] theorem bytesOf_singles (xs : List Byte) : bytesOf (singles xs) = xs := by
  induction xs with
  | nil => rfl
  | cons b bs ih =>
    rw [singles, List.map_cons, bytesOf_cons, ← singles, ih]
    rfl

/-- The chunks of a short stream do not matter exactly if no newline comes
before the last byte. -/
theorem handed_stream_iff (copy : Copy) {stream : List Byte} (hlen : stream.length ≤ 2047) :
    (∀ chunks chunks', bytesOf chunks = stream → bytesOf chunks' = stream →
      handed copy chunks = handed copy chunks') ↔ newline ∉ stream.dropLast := by
  have hlt : stream.length < fullBufSize := Nat.lt_succ_of_le hlen
  constructor
  · intro hsame hmem
    obtain ⟨x, y, hsplit, hx⟩ := List.eq_append_cons_of_mem (List.mem_of_mem_dropLast hmem)
    obtain ⟨b, bs, rfl⟩ : ∃ b bs, y = b :: bs := by
      cases y with
      | nil =>
        rw [hsplit, List.dropLast_concat] at hmem
        exact absurd hmem hx
      | cons b bs => exact ⟨b, bs, rfl⟩
    rw [hsplit, List.length_append, List.length_cons, List.length_cons] at hlt
    have hroom : 0 + (bytesOf (singles x)).length < fullBufSize := by
      rw [bytesOf_singles]
      omega
    have hx' : newline ∉ bytesOf (singles x) := by rwa [bytesOf_singles]
    let pair : Chunk := ⟨[newline, b], Nat.two_pos, show 2 ≤ bufSize by decide⟩
    -- Once the newline ends its chunk, once another byte follows in it.
    have hone : accepted 0 (singles stream) = x ++ [newline] := by
      rw [hsplit, singles, List.map_append, ← singles, accepted_append hx' hroom, List.map_cons,
        accepted_cons_of_mem List.mem_cons_self, bytesOf_singles]
      rw [if_pos (by rw [List.length_singleton]; omega)]
    have htwo : accepted 0 (singles x ++ pair :: singles bs) = x ++ [newline, b] := by
      rw [accepted_append hx' hroom, accepted_cons_of_mem List.mem_cons_self, bytesOf_singles]
      rw [if_pos (by simp [pair]; omega)]
    have hcommands := hsame (singles stream) (singles x ++ pair :: singles bs)
      (bytesOf_singles _) (by simp [hsplit, pair])
    have hshort : command (singles stream) = x ++ [newline] := by simp [command, hone]
    have hlong : x.length + 2 ≤ (command (singles x ++ pair :: singles bs)).length := by
      rw [command, htwo]
      split <;> simp
    rw [handed_eq, handed_eq, Except.ok.injEq] at hcommands
    rw [← hcommands, hshort, List.length_append, List.length_singleton] at hlong
    omega
  · intro hlast chunks chunks' h h'
    have hkept : ∀ cs : List Chunk, bytesOf cs = stream → accepted 0 cs = stream := by
      rintro cs rfl
      exact accepted_eq_bytesOf hlast (by rwa [Nat.zero_add])
    rw [handed_eq, handed_eq, command, command, hkept chunks h, hkept chunks' h']

/-- A stream of one line. -/
theorem handed_stream_iff_line :
    (∀ chunks chunks', bytesOf chunks = [97, newline] → bytesOf chunks' = [97, newline] →
      handed .server chunks = handed .server chunks') ↔
      newline ∉ ([97, newline] : List Byte).dropLast :=
  handed_stream_iff .server (by decide)

/-- Two lines in one chunk are one command, and in two chunks they are cut. -/
theorem handed_stream_differs :
    ∃ chunks chunks' : List Chunk, bytesOf chunks = bytesOf chunks' ∧
      (bytesOf chunks).length ≤ 2047 ∧
      ∀ copy, handed copy chunks ≠ handed copy chunks' := by
  refine ⟨[⟨[97, newline, 98], by decide, by decide⟩],
    [⟨[97, newline], by decide, by decide⟩, ⟨[98], by decide, by decide⟩], rfl, by decide, ?_⟩
  intro copy
  rw [handed_eq, handed_eq, Ne, Except.ok.injEq]
  decide

end AesdChar
