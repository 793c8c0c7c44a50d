import AesdChar.Server.Progress

/-!
# The last byte of the receive buffer

The receive loop leaves one byte of `full_buf` free, and two stores want it:
the terminator, which is there from the start or stored behind the loop, and
the newline that is put behind a command without one.  The newline comes last.
`FillsUp` is the case in which it takes the only zero byte that was left, and
`receive_terminated_iff` says that this is the only way for the buffer to lose
its terminator.
-/

namespace AesdChar

open CodeLib CodeLib.CInt CodeLib.CString

/-! ## The chunks that are stored -/

/-- The chunks up to the first one with a newline. -/
def untilNewline : List Chunk → List Chunk
  | [] => []
  | c :: cs => if newline ∈ c.bytes then [c] else c :: untilNewline cs

/-- The chunks that find a place when each takes its bytes from `room`, and one
byte has to stay free. -/
def fitting : (room : Nat) → List Chunk → List Chunk
  | _, [] => []
  | room, c :: cs =>
    if c.bytes.length < room then c :: fitting (room - c.bytes.length) cs else fitting room cs

/-- The chunks fill the buffer but for one byte, without a zero byte and
without a newline at the end. -/
def FillsUp (chunks : List Chunk) : Prop :=
  let stored := bytesOf (fitting fullBufSize (untilNewline chunks))
  stored.length = fullBufSize - 1 ∧ (0 : Byte) ∉ stored ∧ stored.getLast? ≠ some newline

/-- The loop keeps the chunks that fit. -/
theorem accepted_eq_fitting (n : Nat) (chunks : List Chunk) :
    accepted n chunks = bytesOf (fitting (fullBufSize - n) (untilNewline chunks)) := by
  induction chunks generalizing n with
  | nil => rfl
  | cons c cs ih =>
    have hroom : n + c.bytes.length < fullBufSize ↔ c.bytes.length < fullBufSize - n := by omega
    rw [accepted, untilNewline]
    by_cases hnl : newline ∈ c.bytes
    · simp only [if_pos hnl, fitting, hroom]
      split
      · exact (List.append_nil _).symm
      · rfl
    · simp only [if_neg hnl, fitting, hroom]
      split
      · rw [ih, Nat.sub_add_eq, bytesOf_cons]
      · rw [ih, List.nil_append, List.length_nil, Nat.add_zero]

/-! ## The terminator -/

theorem zero_mem_received_iff {xs : List Byte} :
    (0 : Byte) ∈ received xs ↔ (0 : Byte) ∈ xs ∨ xs.length < fullBufSize := by
  rw [received, List.mem_append, List.mem_replicate]
  constructor
  · intro h
    rcases h with hmem | ⟨hne, -⟩
    · exact Or.inl hmem
    · exact Or.inr (by omega)
  · intro h
    rcases h with hmem | hlt
    · exact Or.inl hmem
    · exact Or.inr ⟨by omega, rfl⟩

/-- The newline takes the last zero byte exactly if the chunks fill the buffer
up. -/
theorem zero_mem_command_iff (chunks : List Chunk) :
    (0 : Byte) ∈ received (command chunks) ↔ ¬ FillsUp chunks := by
  have hstored := accepted_eq_fitting 0 chunks
  have hlt := accepted_length (n := 0) (by decide) chunks
  rw [zero_mem_received_iff, FillsUp, command]
  rw [Nat.sub_zero] at hstored
  rw [← hstored]
  generalize accepted 0 chunks = stored at hlt
  rw [Nat.zero_add] at hlt
  by_cases happend : stored ≠ [] ∧ stored.getLast? ≠ some newline
  · have hnewline : (0 : Byte) ≠ newline := by decide
    rw [if_pos happend, List.mem_append, List.mem_singleton, List.length_append,
      List.length_singleton]
    constructor
    · intro h hfills
      have hlen := hfills.1
      rcases h with (hmem | heq) | hroom
      · exact hfills.2.1 hmem
      · exact hnewline heq
      · omega
    · intro h
      by_contra hnone
      rw [not_or, not_or] at hnone
      exact h ⟨by omega, hnone.1.1, happend.2⟩
  · -- Nothing is appended: the byte that the loop left free stays zero.
    rw [if_neg happend]
    refine iff_of_true (Or.inr hlt) fun hfills => happend ⟨?_, hfills.2.2⟩
    intro hnil
    rw [hnil] at hfills
    exact absurd hfills.1 (by decide)

/-- In both copies every store of the receive phase is inside the buffer.  The
buffer then holds a zero byte, and what a string function reads from it does
not depend on the memory behind it, unless the chunks fill the buffer up. -/
theorem receive_terminated_iff (copy : Copy) (chunks : List Chunk) :
    ∃ fullBuf totalLen, receive copy chunks = .ok (fullBuf, totalLen) ∧
      fullBuf.length = fullBufSize ∧ totalLen ≤ fullBufSize ∧
      ((∃ i, i < fullBufSize ∧ fullBuf[i]? = some 0) ↔ ¬ FillsUp chunks) ∧
      ((∀ behind, str (fullBuf ++ behind) = str fullBuf) ↔ ¬ FillsUp chunks) := by
  have hle := length_command_le chunks
  refine ⟨_, _, receive_eq copy chunks, length_received hle, hle, ?_, ?_⟩
  · rw [← zero_mem_command_iff, List.mem_iff_getElem?]
    constructor
    · intro ⟨i, _, hi⟩
      exact ⟨i, hi⟩
    · intro ⟨i, hi⟩
      obtain ⟨hlt, -⟩ := List.getElem?_eq_some_iff.mp hi
      rw [length_received hle] at hlt
      exact ⟨i, hlt, hi⟩
  · rw [str_append_eq_iff, zero_mem_command_iff]

/-- A seek request of 2047 bytes, in two chunks and without a newline: the
numbers are parsed past the end of the buffer. -/
theorem receive_unterminated :
    ∃ chunks : List Chunk, chunks.map Chunk.bytes =
        [ioctlPrefix ++ List.replicate 1005 49, List.replicate 1023 49] ∧
      ∀ copy, ∃ fullBuf totalLen, receive copy chunks = .ok (fullBuf, totalLen) ∧
        strncmp ioctlPrefix.length fullBuf ioctlPrefix = 0 ∧
        (∀ i, i < fullBufSize → fullBuf[i]? ≠ some 0) ∧
        ∀ behind, str (fullBuf.drop ioctlPrefix.length ++ behind) =
          fullBuf.drop ioctlPrefix.length ++ str behind := by
  have hlen₁ : (ioctlPrefix ++ List.replicate 1005 49).length = 1024 := by
    rw [List.length_append, List.length_replicate]
    rfl
  have hlen₂ : (List.replicate 1023 (49 : Byte)).length = 1023 := List.length_replicate
  let c₁ : Chunk := ⟨ioctlPrefix ++ List.replicate 1005 49, by omega, Nat.le_of_eq hlen₁⟩
  let c₂ : Chunk := ⟨List.replicate 1023 49, by omega, by rw [hlen₂]; decide⟩
  let sent : List Byte := ioctlPrefix ++ List.replicate 1005 49 ++ List.replicate 1023 49
  have hbytes : bytesOf [c₁, c₂] = sent := by
    rw [bytesOf_cons, bytesOf_cons]
    show _ ++ (_ ++ []) = sent
    rw [List.append_nil]
  have hlen : sent.length = 2047 := by rw [List.length_append, hlen₁, hlen₂]
  -- A byte that is neither in the prefix nor a one was not sent.
  have hsent : ∀ b : Byte, b ∉ ioctlPrefix → b ≠ 49 → b ∉ sent := by
    intro b hprefix hone hmem
    rcases List.mem_append.mp hmem with hmem | hmem
    · rcases List.mem_append.mp hmem with hmem | hmem
      · exact hprefix hmem
      · exact hone (List.eq_of_mem_replicate hmem)
    · exact hone (List.eq_of_mem_replicate hmem)
  have hnewline : newline ∉ sent := hsent _ (by decide) (by decide)
  have haccepted : accepted 0 [c₁, c₂] = sent := by
    have hfit : 0 + (bytesOf [c₁, c₂]).length < fullBufSize := by
      rw [hbytes, hlen]
      decide
    have happend := accepted_append (by rwa [hbytes]) hfit []
    rw [List.append_nil, hbytes] at happend
    rw [happend]
    exact List.append_nil _
  have hfills : FillsUp [c₁, c₂] := by
    have hstored := accepted_eq_fitting 0 [c₁, c₂]
    rw [haccepted, Nat.sub_zero] at hstored
    unfold FillsUp
    rw [← hstored]
    exact ⟨hlen, hsent _ (by decide) (by decide), fun h => hnewline (List.mem_of_getLast? h)⟩
  have hzero : (0 : Byte) ∉ received (command [c₁, c₂]) :=
    fun hmem => (zero_mem_command_iff _).mp hmem hfills
  refine ⟨[c₁, c₂], rfl, fun copy => ⟨_, _, receive_eq copy _, ?_, ?_, ?_⟩⟩
  · rw [strncmp_received_iff (length_command_le _), IsSeek]
    have hcommand : command [c₁, c₂] = sent ++ [newline] := by
      have hne : sent ≠ [] := by
        intro hnil
        rw [hnil] at hlen
        cases hlen
      rw [command, haccepted]
      exact if_pos ⟨hne, fun h => hnewline (List.mem_of_getLast? h)⟩
    rw [hcommand, List.append_assoc, List.append_assoc]
    exact List.prefix_append _ _
  · intro i _ hi
    exact hzero (List.mem_of_getElem? hi)
  · exact str_append_of_notMem fun hmem => hzero (List.mem_of_mem_drop hmem)

end AesdChar
