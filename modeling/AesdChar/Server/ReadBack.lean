import AesdChar.Server.Reply
import AesdChar.Server.RegularFile

/-!
# What a client gets when sends fail

The reply loop has two loops.  The inner one sends a chunk and gives up when a
`send` fails.  The outer one then reads the next chunk all the same.  The rest
of the chunk is lost, and what is accepted later leaves a hole.

`replyIndices` says which positions of the content are accepted, from the
results of `send` and the length of the content alone.  `run_readBack` shows
that a worker does just that.  `reply_prefix_iff` says for which results every
reply is a prefix of the content.
-/

namespace AesdChar

open CodeLib CodeLib.CInt CodeLib.Ring

/-! ## Phases of a worker -/

section Phase

variable {ι σ : Type} [DecidableEq ι] {build : Build} {ops : FileOps σ} {env : WorkerEnv} {me : ι}
  {stop : Pc → Bool} {w w' : Worker} {s s' : Shared ι σ}

/-- The steps of one worker up to the first place where `stop` holds. -/
def Worker.runTo (build : Build) (ops : FileOps σ) (env : WorkerEnv) (me : ι) (stop : Pc → Bool) :
    (fuel : Nat) → Worker → Shared ι σ → Except Fault (Worker × Shared ι σ)
  | 0, _, _ => .error .diverges
  | fuel + 1, w, s =>
    if stop w.pc then .ok (w, s)
    else do
      let (_, w, s) ← w.step build ops env me s
      w.runTo build ops env me stop fuel s

theorem Worker.runTo_stop (h : stop w.pc = true) (fuel : Nat) :
    w.runTo build ops env me stop (fuel + 1) s = .ok (w, s) := by
  rw [runTo, if_pos h]

theorem Worker.runTo_step (h : stop w.pc = false) {a : Action}
    (hstep : w.step build ops env me s = .ok (a, w', s')) (fuel : Nat) :
    w.runTo build ops env me stop (fuel + 1) s = w'.runTo build ops env me stop fuel s' := by
  rw [runTo, if_neg (by simp [h]), hstep]
  rfl

/-- More fuel does not change the result. -/
theorem Worker.runTo_mono {fuel : Nat} {r : Worker × Shared ι σ}
    (h : w.runTo build ops env me stop fuel s = .ok r) (extra : Nat) :
    w.runTo build ops env me stop (fuel + extra) s = .ok r := by
  induction fuel generalizing w s with
  | zero => cases h
  | succ fuel ih =>
    rw [show fuel + 1 + extra = fuel + extra + 1 by omega]
    rw [runTo] at h ⊢
    split
    · rename_i hstop
      rwa [if_pos hstop] at h
    · rename_i hstop
      rw [if_neg hstop] at h
      obtain ⟨p, hstep, h⟩ := bind_eq_ok h
      rw [hstep, ok_bind]
      exact ih h

/-- A phase has one end. -/
theorem Worker.runTo_unique {fuel fuel' : Nat} {r r' : Worker × Shared ι σ}
    (h : w.runTo build ops env me stop fuel s = .ok r)
    (h' : w.runTo build ops env me stop fuel' s = .ok r') : r = r' := by
  have hmono := runTo_mono h fuel'
  have hmono' := runTo_mono h' fuel
  rw [Nat.add_comm, hmono] at hmono'
  exact Except.ok.inj hmono'

end Phase

/-! ## The positions that are accepted -/

section Sends

variable (sends : Nat → Option Nat)

/-- The send loop over a chunk of `len` bytes of which `sent` are sent, from
the `n`-th call of `send` on: how many bytes are sent at its end, and the number
of the next call. -/
def sendChunk (len : Nat) : (fuel n sent : Nat) → Nat × Nat
  | 0, n, sent => (sent, n)
  | fuel + 1, n, sent =>
    if sent < len then
      match sends n with
      | none => (sent, n + 1)
      | some left => sendChunk len fuel (n + 1) (sent + sendCount left (len - sent))
    else (sent, n)

/-- The positions of the content that are accepted, for the `rest` bytes from
`pos` on, and the number of the next call of `send`. -/
def replyIndices : (fuel n pos rest : Nat) → List Nat × Nat
  | 0, n, _, _ => ([], n)
  | fuel + 1, n, pos, rest =>
    if rest = 0 then ([], n)
    else
      let len := min bufSize rest
      let (sent, n) := sendChunk sends len len n 0
      let (is, n) := replyIndices fuel n (pos + len) (rest - len)
      (List.range' pos sent ++ is, n)

/-- The number of calls of `send` that it takes to reply with `length`
bytes. -/
def sendsMade (length : Nat) : Nat := (replyIndices sends length 0 0 length).2

/-- Once a call of `send` from the `n`-th to before the `n'`-th has failed, the
later ones fail. -/
def FailsForGood (n n' : Nat) : Prop :=
  ∀ i j, n ≤ i → i < j → j < n' → sends i = none → sends j = none

variable {sends}

/-- The send loop sends the whole chunk, and no call fails, or the last call
fails and the chunk is not finished. -/
theorem sendChunk_cases {len fuel n sent : Nat} (hsent : sent ≤ len) (hfuel : len - sent ≤ fuel) :
    let r := sendChunk sends len fuel n sent
    sent ≤ r.1 ∧ n ≤ r.2 ∧
      ((r.1 = len ∧ ∀ i, n ≤ i → i < r.2 → sends i ≠ none) ∨
        (r.1 < len ∧ n < r.2 ∧ sends (r.2 - 1) = none ∧
          ∀ i, n ≤ i → i + 1 < r.2 → sends i ≠ none)) := by
  induction fuel generalizing n sent with
  | zero =>
    refine ⟨Nat.le_refl _, Nat.le_refl _, Or.inl ⟨?_, fun i hi hlt => ?_⟩⟩
    · show sent = len
      omega
    · exact absurd hlt (Nat.not_lt.mpr hi)
  | succ fuel ih =>
    intro r
    by_cases hlt : sent < len
    · cases hn : sends n with
      | none =>
        have hr : r = (sent, n + 1) := by
          show sendChunk sends len (fuel + 1) n sent = _
          rw [sendChunk, if_pos hlt, hn]
        rw [hr]
        refine ⟨Nat.le_refl _, Nat.le_succ _, Or.inr ⟨hlt, Nat.lt_succ_self _, hn, ?_⟩⟩
        intro i hi hlast
        omega
      | some left =>
        have hcount := sendCount_pos_le left (Nat.sub_pos_of_lt hlt)
        have hr : r = sendChunk sends len fuel (n + 1) (sent + sendCount left (len - sent)) := by
          show sendChunk sends len (fuel + 1) n sent = _
          rw [sendChunk, if_pos hlt, hn]
        have hfirst : ∀ i, n ≤ i → (n + 1 ≤ i → sends i ≠ none) → sends i ≠ none := by
          intro i hi hrest
          rcases Nat.eq_or_lt_of_le hi with rfl | hlt'
          · rw [hn]
            exact Option.some_ne_none left
          · exact hrest hlt'
        rw [hr]
        have hsent' : sent + sendCount left (len - sent) ≤ len := by omega
        have hfuel' : len - (sent + sendCount left (len - sent)) ≤ fuel := by omega
        obtain ⟨hle, hn_le, hcases⟩ := @ih (n + 1) _ hsent' hfuel'
        refine ⟨by omega, by omega, ?_⟩
        rcases hcases with ⟨hfull, hok⟩ | ⟨hpart, hlt', hfail, hok⟩
        · exact Or.inl ⟨hfull, fun i hi hilt => hfirst i hi fun hi' => hok i hi' hilt⟩
        · exact Or.inr ⟨hpart, by omega, hfail,
            fun i hi hilt => hfirst i hi fun hi' => hok i hi' hilt⟩
    · have hr : r = (sent, n) := by
        show sendChunk sends len (fuel + 1) n sent = _
        rw [sendChunk, if_neg hlt]
      rw [hr]
      refine ⟨Nat.le_refl _, Nat.le_refl _, Or.inl ⟨?_, fun i hi hilt => ?_⟩⟩
      · show sent = len
        omega
      · exact absurd hilt (Nat.not_lt.mpr hi)

/-- A chunk whose first call of `send` fails is lost. -/
theorem sendChunk_none {len n : Nat} (hlen : 0 < len) (hn : sends n = none) :
    sendChunk sends len len n 0 = (0, n + 1) := by
  obtain ⟨fuel, rfl⟩ := Nat.exists_eq_add_of_lt hlen
  rw [Nat.zero_add, sendChunk, if_pos (Nat.succ_pos _), hn]

/-- A chunk whose first call of `send` succeeds is sent in part at least. -/
theorem sendChunk_some {len n : Nat} (hlen : 0 < len) (hn : sends n ≠ none) :
    0 < (sendChunk sends len len n 0).1 ∧ n < (sendChunk sends len len n 0).2 := by
  obtain ⟨left, hleft⟩ := Option.ne_none_iff_exists'.mp hn
  obtain ⟨fuel, hfuel⟩ := Nat.exists_eq_add_of_lt hlen
  have hcount := sendCount_pos_le left hlen
  have hstep : sendChunk sends len len n 0 =
      sendChunk sends len fuel (n + 1) (sendCount left len) := by
    conv_lhs => rw [hfuel, Nat.zero_add]
    rw [sendChunk, if_pos (Nat.succ_pos _), hleft, hfuel]
    simp only [Nat.zero_add, Nat.sub_zero]
  have hrest : len - sendCount left len ≤ fuel := by omega
  rw [hstep]
  obtain ⟨hle, hn_le, -⟩ := @sendChunk_cases sends _ _ (n + 1) _ hcount.2 hrest
  exact ⟨Nat.lt_of_lt_of_le hcount.1 hle, Nat.lt_of_succ_le hn_le⟩

/-- One chunk, and the rest. -/
theorem replyIndices_succ {fuel n pos rest : Nat} (hrest : 0 < rest) :
    let len := min bufSize rest
    let c := sendChunk sends len len n 0
    let r := replyIndices sends fuel c.2 (pos + len) (rest - len)
    replyIndices sends (fuel + 1) n pos rest = (List.range' pos c.1 ++ r.1, r.2) := by
  rw [replyIndices, if_neg (Nat.pos_iff_ne_zero.mp hrest)]

theorem replyIndices_zero (fuel n pos : Nat) : replyIndices sends fuel n pos 0 = ([], n) := by
  cases fuel with
  | zero => rfl
  | succ fuel => rw [replyIndices, if_pos rfl]

theorem replyIndices_le (fuel n pos rest : Nat) : n ≤ (replyIndices sends fuel n pos rest).2 := by
  induction fuel generalizing n pos rest with
  | zero => exact Nat.le_refl n
  | succ fuel ih =>
    rcases Nat.eq_zero_or_pos rest with rfl | hrest
    · rw [replyIndices_zero]
    · rw [replyIndices_succ hrest]
      obtain ⟨-, hn, -⟩ := @sendChunk_cases sends (min bufSize rest) (min bufSize rest) n 0
        (Nat.zero_le _) (Nat.sub_le _ _)
      exact Nat.le_trans hn (ih _ _ _)

theorem chunk_pos {rest : Nat} (hrest : 0 < rest) : 0 < min bufSize rest :=
  Nat.lt_min.mpr ⟨by decide, hrest⟩

/-- Nothing is accepted if every call fails. -/
theorem replyIndices_all_fail {fuel n pos rest : Nat}
    (hfail : ∀ i, n ≤ i → i < (replyIndices sends fuel n pos rest).2 → sends i = none) :
    (replyIndices sends fuel n pos rest).1 = [] := by
  induction fuel generalizing n pos rest with
  | zero => rfl
  | succ fuel ih =>
    rcases Nat.eq_zero_or_pos rest with rfl | hrest
    · rw [replyIndices_zero]
    · rw [replyIndices_succ hrest] at hfail ⊢
      by_cases hn : sends n = none
      · rw [sendChunk_none (chunk_pos hrest) hn] at hfail ⊢
        apply ih
        intro i hi hlt
        exact hfail i (Nat.le_of_succ_le hi) hlt
      · have hlt := (sendChunk_some (chunk_pos hrest) hn).2
        exact absurd (hfail n (Nat.le_refl n)
          (Nat.lt_of_lt_of_le hlt (replyIndices_le _ _ _ _))) hn

/-- Something is accepted if some call succeeds. -/
theorem replyIndices_some {fuel n pos rest : Nat} (hfuel : rest ≤ fuel) {j : Nat} (hj : n ≤ j)
    (hlt : j < (replyIndices sends fuel n pos rest).2) (hsome : sends j ≠ none) :
    ∃ b tail, (replyIndices sends fuel n pos rest).1 = b :: tail ∧ pos ≤ b ∧ b < pos + rest := by
  induction fuel generalizing n pos rest with
  | zero =>
    have hn : j < n := hlt
    omega
  | succ fuel ih =>
    rcases Nat.eq_zero_or_pos rest with rfl | hrest
    · rw [replyIndices_zero] at hlt
      have hn : j < n := hlt
      omega
    · have hpos := chunk_pos hrest
      rw [replyIndices_succ hrest] at hlt ⊢
      by_cases hn : sends n = none
      · rw [sendChunk_none hpos hn] at hlt ⊢
        have hne : n ≠ j := by
          rintro rfl
          exact hsome hn
        obtain ⟨b, tail, hr, hle, hb⟩ := ih (by omega) (Nat.lt_of_le_of_ne hj hne) hlt
        exact ⟨b, tail, hr, by omega, by omega⟩
      · obtain ⟨k, hk⟩ := Nat.exists_eq_add_of_lt (sendChunk_some hpos hn).1
        rw [hk, Nat.zero_add, List.range'_succ]
        exact ⟨pos, _, rfl, Nat.le_refl _, by omega⟩

/-- If every call of `send` succeeds, the whole content is accepted. -/
theorem replyIndices_all (hsends : ∀ n, sends n ≠ none)
    {fuel n pos rest : Nat} (hfuel : rest ≤ fuel) :
    (replyIndices sends fuel n pos rest).1 = List.range' pos rest := by
  induction fuel generalizing n pos rest with
  | zero =>
    obtain rfl : rest = 0 := Nat.le_zero.mp hfuel
    rfl
  | succ fuel ih =>
    rcases Nat.eq_zero_or_pos rest with rfl | hrest
    · rw [replyIndices_zero]
      rfl
    · have hpos := chunk_pos hrest
      rw [replyIndices_succ hrest]
      rcases (@sendChunk_cases sends (min bufSize rest) (min bufSize rest) n 0
        (Nat.zero_le _) (Nat.sub_le _ _)).2.2 with ⟨hfull, -⟩ | ⟨-, -, hfail, -⟩
      · have hlen : min bufSize rest + (rest - min bufSize rest) = rest := by omega
        show List.range' pos _ ++ _ = _
        rw [hfull, ih (by omega), List.range'_append_1, hlen]
      · exact absurd hfail (hsends _)

/-- Without a success behind a failure, the accepted bytes are the first ones. -/
theorem replyIndices_of_failsForGood {fuel n pos rest : Nat} (hfuel : rest ≤ fuel)
    (h : FailsForGood sends n (replyIndices sends fuel n pos rest).2) :
    ∃ k ≤ rest, (replyIndices sends fuel n pos rest).1 = List.range' pos k := by
  induction fuel generalizing n pos rest with
  | zero => exact ⟨0, Nat.zero_le _, rfl⟩
  | succ fuel ih =>
    rcases Nat.eq_zero_or_pos rest with rfl | hrest
    · exact ⟨0, Nat.le_refl _, by rw [replyIndices_zero]; rfl⟩
    · have hpos := chunk_pos hrest
      rw [replyIndices_succ hrest] at h ⊢
      obtain ⟨-, hn, hcases⟩ := @sendChunk_cases sends (min bufSize rest) (min bufSize rest) n 0
        (Nat.zero_le _) (Nat.sub_le _ _)
      rcases hcases with ⟨hfull, -⟩ | ⟨hpart, hlt, hfail, -⟩
      · -- The whole chunk is accepted, and the rest follows on it.
        rw [hfull]
        obtain ⟨k, hk, hr⟩ := ih (by omega) fun i j hi => h i j (Nat.le_trans hn hi)
        refine ⟨min bufSize rest + k, by omega, ?_⟩
        show List.range' pos _ ++ _ = _
        rw [hr, List.range'_append_1]
      · -- The chunk ends with a failure, so every later call fails.
        refine ⟨_, Nat.le_trans (Nat.le_of_lt hpart) (Nat.min_le_right _ _), ?_⟩
        show List.range' pos _ ++ _ = _
        rw [replyIndices_all_fail, List.append_nil]
        intro j hj hj'
        exact h _ j (Nat.le_sub_one_of_lt hlt) (by omega) hj' hfail

/-- With a success behind a failure, there is a hole behind the first ones. -/
theorem replyIndices_of_not_failsForGood {fuel n pos rest : Nat} (hfuel : rest ≤ fuel)
    (h : ¬ FailsForGood sends n (replyIndices sends fuel n pos rest).2) :
    ∃ k b tail, (replyIndices sends fuel n pos rest).1 = List.range' pos k ++ b :: tail ∧
      pos + k < b ∧ b < pos + rest := by
  induction fuel generalizing n pos rest with
  | zero =>
    refine absurd (fun i j hi hij hj => ?_) h
    have hj' : j < n := hj
    omega
  | succ fuel ih =>
    rcases Nat.eq_zero_or_pos rest with rfl | hrest
    · refine absurd (fun i j hi hij hj => ?_) h
      rw [replyIndices_zero] at hj
      have hj' : j < n := hj
      omega
    · have hpos := chunk_pos hrest
      rw [replyIndices_succ hrest] at h ⊢
      obtain ⟨-, hn, hcases⟩ := @sendChunk_cases sends (min bufSize rest) (min bufSize rest) n 0
        (Nat.zero_le _) (Nat.sub_le _ _)
      rcases hcases with ⟨hfull, hok⟩ | ⟨hpart, hlt, hfail, hok⟩
      · rw [hfull]
        have h' := fun hrec : FailsForGood sends _ _ => h fun i j hi hij hj hnone =>
          (Nat.lt_or_ge i _).elim (fun hlt => absurd hnone (hok i hi hlt))
            fun hge => hrec i j hge hij hj hnone
        obtain ⟨k, b, tail, hr, hk, hb⟩ := ih (by omega) h'
        refine ⟨min bufSize rest + k, b, tail, ?_, by omega, by omega⟩
        show List.range' pos _ ++ _ = _
        rw [hr, ← List.append_assoc, List.range'_append_1]
      · -- Some later call succeeds, or all calls behind the failure fail.
        by_cases hall : ∀ j, (sendChunk sends (min bufSize rest) (min bufSize rest) n 0).2 ≤ j →
            j < (replyIndices sends fuel
              (sendChunk sends (min bufSize rest) (min bufSize rest) n 0).2
              (pos + min bufSize rest) (rest - min bufSize rest)).2 → sends j = none
        · refine absurd (fun i j hi hij hj hnone => ?_) h
          apply hall j _ hj
          rcases Nat.lt_or_ge (i + 1)
              (sendChunk sends (min bufSize rest) (min bufSize rest) n 0).2 with hi' | hi'
          · exact absurd hnone (hok i hi hi')
          · omega
        · push Not at hall
          obtain ⟨j, hj, hj', hsome⟩ := hall
          have hrest' : rest - min bufSize rest ≤ fuel := by omega
          obtain ⟨b, tail, hr, hle, hb⟩ := replyIndices_some hrest' hj hj' hsome
          refine ⟨(sendChunk sends (min bufSize rest) (min bufSize rest) n 0).1, b, tail, ?_,
            by omega, by omega⟩
          show List.range' pos _ ++ _ = _
          rw [hr]

end Sends

/-! ## What a worker replies -/

/-- The bytes of `content` at the positions `is`. -/
def gather (content : List Byte) (is : List Nat) : List Byte := is.filterMap (content[·]?)

theorem gather_append (content : List Byte) (is js : List Nat) :
    gather content (is ++ js) = gather content is ++ gather content js :=
  List.filterMap_append

/-- A row of positions gathers a stretch. -/
theorem gather_range' (content : List Byte) (pos k : Nat) :
    gather content (List.range' pos k) = (content.drop pos).take k := by
  induction k generalizing pos with
  | zero => rfl
  | succ k ih =>
    rw [List.range'_succ, gather, List.filterMap_cons]
    by_cases hpos : pos < content.length
    · rw [List.getElem?_eq_getElem hpos, List.drop_eq_getElem_cons hpos, List.take_succ_cons]
      exact congrArg _ (ih (pos + 1))
    · have hle := Nat.le_of_not_lt hpos
      rw [List.getElem?_eq_none hle, List.drop_eq_nil_of_le hle, List.take_nil]
      show gather content (List.range' (pos + 1) k) = []
      rw [ih, List.drop_eq_nil_of_le (Nat.le_succ_of_le hle), List.take_nil]

/-- What comes up to `m` is what comes up to `k`, and what comes from there. -/
theorem take_append_drop_take {α : Type} (xs : List α) {k m : Nat} (h : k ≤ m) :
    xs.take k ++ (xs.take m).drop k = xs.take m := by
  conv_rhs => rw [← List.take_append_drop k (xs.take m), List.take_take, Nat.min_eq_left h]

section ReadBack

variable {ι σ : Type} [DecidableEq ι] {build : Build} {ops : FileOps σ} {env : WorkerEnv} {me : ι}
  {stop : Pc → Bool} {w w' w'' : Worker} {s s' s'' : Shared ι σ} {content : List Byte}
  {off pos : Nat}

/-- A worker comes to `w'` on its way to where `stop` holds. -/
def Worker.Comes (build : Build) (ops : FileOps σ) (env : WorkerEnv) (me : ι) (stop : Pc → Bool)
    (w : Worker) (s : Shared ι σ) (w' : Worker) (s' : Shared ι σ) : Prop :=
  ∃ steps, ∀ fuel, w.runTo build ops env me stop (fuel + steps) s =
    w'.runTo build ops env me stop fuel s'

theorem Worker.Comes.refl : Worker.Comes build ops env me stop w s w s :=
  ⟨0, fun _ => rfl⟩

theorem Worker.Comes.step (h : stop w.pc = false) {a : Action}
    (hstep : w.step build ops env me s = .ok (a, w', s'))
    (hrest : Worker.Comes build ops env me stop w' s' w'' s'') :
    Worker.Comes build ops env me stop w s w'' s'' := by
  obtain ⟨steps, hrest⟩ := hrest
  refine ⟨steps + 1, fun fuel => ?_⟩
  rw [← Nat.add_assoc, runTo_step h hstep, hrest]

theorem Worker.Comes.trans (h : Worker.Comes build ops env me stop w s w' s')
    (h' : Worker.Comes build ops env me stop w' s' w'' s'') :
    Worker.Comes build ops env me stop w s w'' s'' := by
  obtain ⟨steps, h⟩ := h
  obtain ⟨steps', h'⟩ := h'
  refine ⟨steps' + steps, fun fuel => ?_⟩
  rw [← Nat.add_assoc, h, h']

/-- A worker that comes to where `stop` holds ends its phase there. -/
theorem Worker.Comes.runTo (h : Worker.Comes build ops env me stop w s w' s')
    (hstop : stop w'.pc = true) :
    ∃ fuel, w.runTo build ops env me stop fuel s = .ok (w', s') := by
  obtain ⟨steps, h⟩ := h
  exact ⟨0 + 1 + steps, by rw [h, runTo_stop hstop]⟩

/-- The send loop accepts what `sendChunk` says. -/
theorem Worker.comes_sendLoop (hstop : ∀ buf n, stop (.send buf n) = false) {buf : List Byte}
    {sent : Nat} (hsent : sent ≤ buf.length) (hpc : w.pc = .send buf sent) {fuel : Nat}
    (hfuel : buf.length - sent ≤ fuel) :
    let r := sendChunk env.sends buf.length fuel w.sends sent
    Worker.Comes build ops env me stop w s
      { w with pc := .read, sends := r.2, reply := w.reply ++ (buf.take r.1).drop sent } s := by
  have hgo : stop w.pc = false := by rw [hpc, hstop]
  induction fuel generalizing w sent with
  | zero =>
    have hall : ¬ sent < buf.length := by omega
    apply Comes.step hgo (step_send hpc)
    rw [sendRound, if_neg hall]
    simp only [sendChunk, List.drop_take_self, List.append_nil]
    exact Comes.refl
  | succ fuel ih =>
    intro r
    apply Comes.step hgo (step_send hpc)
    by_cases hlt : sent < buf.length
    · rw [sendRound, if_pos hlt]
      cases hn : env.sends w.sends with
      | none =>
        have hr : r = (sent, w.sends + 1) := by
          show sendChunk env.sends buf.length (fuel + 1) w.sends sent = _
          rw [sendChunk, if_pos hlt, hn]
        simp only [hr, List.drop_take_self, List.append_nil]
        exact Comes.refl
      | some left =>
        have hcount := sendCount_pos_le left (Nat.sub_pos_of_lt hlt)
        have hsent' : sent + sendCount left (buf.length - sent) ≤ buf.length := by omega
        have hfuel' : buf.length - (sent + sendCount left (buf.length - sent)) ≤ fuel := by omega
        have hr : r = sendChunk env.sends buf.length fuel (w.sends + 1)
            (sent + sendCount left (buf.length - sent)) := by
          show sendChunk env.sends buf.length (fuel + 1) w.sends sent = _
          rw [sendChunk, if_pos hlt, hn]
        have hle := (@sendChunk_cases env.sends _ _ (w.sends + 1) _ hsent' hfuel').1
        rw [← hr] at hle
        -- What this call accepts and what the later ones accept are adjacent.
        have hjoin : (buf.drop sent).take (sendCount left (buf.length - sent)) ++
            (buf.take r.1).drop (sent + sendCount left (buf.length - sent)) =
              (buf.take r.1).drop sent := by
          rw [← List.drop_drop, List.drop_take]
          exact take_append_drop_take _ (by omega)
        have hrest := @ih { w with
          sends := w.sends + 1
          reply := w.reply ++ (buf.drop sent).take (sendCount left (buf.length - sent))
          pc := .send buf (sent + sendCount left (buf.length - sent)) } _ hsent' rfl hfuel'
          (hstop _ _)
        simp only [← hr, List.append_assoc, hjoin] at hrest
        exact hrest
    · have hr : r = (sent, w.sends) := by
        show sendChunk env.sends buf.length (fuel + 1) w.sends sent = _
        rw [sendChunk, if_neg hlt]
      rw [sendRound, if_neg hlt]
      simp only [hr, List.drop_take_self, List.append_nil]
      exact Comes.refl

/-- A read round hands the next window of the content to the send loop, or ends
the reply. -/
theorem Worker.readRound_serves {dev : σ} (hs : Serves ops env dev content)
    (hpos : w.fPos = off) (hoff : off < 2 ^ 63 ∨ off ≤ content.length) :
    let window := (content.drop off).take bufSize
    w.readRound ops env dev = .ok
      ({ w with
        reads := w.reads + 1
        fPos := (off + window.length : Nat)
        pc := if window = [] then .closeDev else .send window 0 }, dev) := by
  intro window
  unfold readRound
  rw [hpos, hs w.reads off hoff, ok_bind]
  have hret : (0 : Int) ≤ window.length := Int.natCast_nonneg _
  by_cases hnil : window = []
  · simp only [← show window = (content.drop off).take bufSize from rfl, hnil]
    rfl
  · have hpositive : (0 : Int) < window.length := by
      exact_mod_cast List.length_pos_iff.mpr hnil
    simp only [← show window = (content.drop off).take bufSize from rfl, hnil, if_false,
      hpositive, if_true, Int.toNat_natCast, List.take_length, CallResult.filePos, hret, pure_eq_ok]

omit [DecidableEq ι] in
/-- A position that the reads come to. -/
private theorem position_ok {target : List Byte} (htarget : content.drop off = target)
    (hoff : off < 2 ^ 63 ∨ off ≤ content.length) (hle : pos ≤ target.length) :
    off + pos < 2 ^ 63 ∨ off + pos ≤ content.length := by
  rcases Nat.eq_zero_or_pos pos with rfl | hpos
  · exact hoff
  · rw [← htarget, List.length_drop] at hle
    exact Or.inr (by omega)

/-- The reply loop ends where nothing is left to read. -/
theorem Worker.comes_readEnd (hs : Serves ops env s.dev content) (hread : stop .read = false)
    (hoff : off < 2 ^ 63 ∨ off ≤ content.length) (hend : content.drop off = [])
    (hpc : w.pc = .read) (hpos : w.fPos = off) :
    Worker.Comes build ops env me stop w s
      { w with pc := .closeDev, reads := w.reads + 1, fPos := off } s := by
  have hround := readRound_serves hs hpos hoff
  rw [hend] at hround
  exact Comes.step (by rw [hpc, hread]) (step_read hpc hround) Comes.refl

/-- The reply loop accepts what `replyIndices` says, and leaves the device
alone. -/
theorem Worker.comes_readBack (hs : Serves ops env s.dev content) (hread : stop .read = false)
    (hsend : ∀ buf n, stop (.send buf n) = false) {target : List Byte}
    (htarget : content.drop off = target) (hoff : off < 2 ^ 63 ∨ off ≤ content.length)
    (hle : pos ≤ target.length) (hpc : w.pc = .read) (hpos : w.fPos = (off + pos : Nat))
    {fuel : Nat} (hfuel : target.length - pos ≤ fuel) :
    let r := replyIndices env.sends fuel w.sends pos (target.length - pos)
    ∃ reads fPos, Worker.Comes build ops env me stop w s
      { w with
        pc := .closeDev
        reads := reads
        fPos := fPos
        sends := r.2
        reply := w.reply ++ gather target r.1 } s := by
  induction fuel generalizing w pos with
  | zero =>
    have hend : content.drop (off + pos) = [] := by
      rw [← List.drop_drop, htarget]
      exact List.drop_eq_nil_of_le (by omega)
    refine ⟨w.reads + 1, (off + pos : Nat), ?_⟩
    simp only [replyIndices, gather, List.filterMap_nil, List.append_nil]
    exact comes_readEnd hs hread (position_ok htarget hoff hle) hend hpc hpos
  | succ fuel ih =>
    rcases Nat.eq_zero_or_pos (target.length - pos) with hzero | hrest
    · have hend : content.drop (off + pos) = [] := by
        rw [← List.drop_drop, htarget]
        exact List.drop_eq_nil_of_le (by omega)
      refine ⟨w.reads + 1, (off + pos : Nat), ?_⟩
      simp only [hzero, replyIndices_zero, gather, List.filterMap_nil, List.append_nil]
      exact comes_readEnd hs hread (position_ok htarget hoff hle) hend hpc hpos
    · -- One chunk, and the rest by induction.
      intro r
      let window := (target.drop pos).take bufSize
      let c := sendChunk env.sends window.length window.length w.sends 0
      have hlen : window.length = min bufSize (target.length - pos) := by
        rw [List.length_take, List.length_drop]
      have hpositive : 0 < window.length := by
        rw [hlen]
        exact chunk_pos hrest
      have hround := readRound_serves hs hpos (position_ok htarget hoff hle)
      rw [← List.drop_drop, htarget] at hround
      change w.readRound ops env s.dev = .ok ({ w with
        reads := w.reads + 1
        fPos := (off + pos + window.length : Nat)
        pc := if window = [] then .closeDev else .send window 0 }, s.dev) at hround
      rw [if_neg (List.length_pos_iff.mp hpositive), Nat.add_assoc] at hround
      let sending : Worker := { w with
        reads := w.reads + 1
        fPos := (off + (pos + window.length) : Nat)
        pc := .send window 0 }
      let sent : Worker := { sending with
        pc := .read
        sends := c.2
        reply := w.reply ++ (window.take c.1).drop 0 }
      have hchunk : Worker.Comes build ops env me stop sending s sent s :=
        comes_sendLoop hsend (Nat.zero_le _) rfl (Nat.le_refl _)
      have hle' : pos + window.length ≤ target.length := by omega
      have hfuel' : target.length - (pos + window.length) ≤ fuel := by omega
      obtain ⟨reads, fPos, hcomes⟩ := @ih sent (pos + window.length) hle' rfl rfl hfuel'
      refine ⟨reads, fPos, Comes.step (by rw [hpc, hread]) (step_read hpc hround)
        (hchunk.trans ?_)⟩
      have hc : c.1 ≤ window.length := by
        rcases (@sendChunk_cases env.sends _ _ w.sends 0 (Nat.zero_le window.length)
          (Nat.sub_le _ _)).2.2 with ⟨hfull, -⟩ | ⟨hpart, -⟩
        · exact Nat.le_of_eq hfull
        · exact Nat.le_of_lt hpart
      have hgather : gather target (List.range' pos c.1) = (window.take c.1).drop 0 := by
        rw [gather_range', List.drop_zero, List.take_take, Nat.min_eq_left]
        exact Nat.le_trans hc (List.length_take_le _ _)
      have hr : r = (List.range' pos c.1 ++ (replyIndices env.sends fuel c.2
          (pos + window.length) (target.length - (pos + window.length))).1,
          (replyIndices env.sends fuel c.2 (pos + window.length)
            (target.length - (pos + window.length))).2) := by
        show replyIndices env.sends (fuel + 1) w.sends pos (target.length - pos) = _
        rw [replyIndices_succ hrest, ← hlen, Nat.sub_sub]
      rw [hr, gather_append, hgather, ← List.append_assoc]
      exact hcomes

/-! ## Replies without holes -/

/-- The reply of a worker that starts to read at `off`. -/
theorem Worker.runTo_closeDev (build : Build) (me : ι) (hs : Serves ops env s.dev content)
    (hoff : off < 2 ^ 63) (hpc : w.pc = .read) (hpos : w.fPos = off) (hreply : w.reply = [])
    (hsends : w.sends = 0) :
    let target := content.drop off
    ∃ fuel w', w.runTo build ops env me (· == .closeDev) fuel s = .ok (w', s) ∧
      w'.reply = gather target (replyIndices env.sends target.length 0 0 target.length).1 := by
  intro target
  have hread : (Pc.read == Pc.closeDev) = false := rfl
  have hsend : ∀ buf n, (Pc.send buf n == Pc.closeDev) = false := fun _ _ => rfl
  obtain ⟨reads, fPos, hcomes⟩ := @comes_readBack ι σ _ build ops env me (· == .closeDev) w s
    content off 0 hs hread hsend target rfl (Or.inl hoff) (Nat.zero_le _) hpc hpos target.length
    (Nat.le_refl _)
  obtain ⟨fuel, hrun⟩ := hcomes.runTo rfl
  refine ⟨fuel, _, hrun, ?_⟩
  show w.reply ++ _ = _
  rw [hreply, hsends]
  rfl

/-- The bytes that a client gets are a prefix of the content from the start of
the reply on, whatever the content is, exactly if no call of `send` succeeds
behind one that failed.  `length` is how much there is to reply with.  Contents
are not told apart: bytes that agree by chance can hide a hole. -/
theorem reply_prefix_iff (build : Build) (env : WorkerEnv) (me : ι) (length : Nat) :
    (∀ (σ : Type) (ops : FileOps σ) (content : List Byte) (off : Nat) (w : Worker)
        (s : Shared ι σ),
      Serves ops env s.dev content → off < 2 ^ 63 → (content.drop off).length = length →
      w.pc = .read → w.fPos = off → w.reply = [] → w.sends = 0 →
      ∃ fuel w' s', w.runTo build ops env me (· == .closeDev) fuel s = .ok (w', s') ∧
        w'.reply <+: content.drop off) ↔
    FailsForGood env.sends 0 (sendsMade env.sends length) := by
  constructor
  · intro hprefixes
    by_contra hfails
    obtain ⟨k, b, tail, hindices, hk, hb⟩ :=
      replyIndices_of_not_failsForGood (Nat.le_refl length) hfails
    rw [Nat.zero_add] at hk hb
    -- A content that shows the hole: the first byte behind it is a different one.
    let content : List Byte := (List.replicate length 0).set b 1
    have hlen : content.length = length := by simp [content]
    let w : Worker := { Worker.start with pc := .read }
    let s : Shared ι (List Byte) := ⟨content, none⟩
    have hs : Serves regularFile env s.dev content := regularFile_serves env content
    obtain ⟨fuel, w', s', hrun, hpre⟩ :=
      hprefixes _ regularFile content 0 w s hs (by decide) hlen rfl rfl rfl rfl
    obtain ⟨fuel', w'', hrun', hreply⟩ :=
      Worker.runTo_closeDev (w := w) build me hs (by decide) rfl rfl rfl rfl
    obtain ⟨rfl, -⟩ := Prod.mk.inj (Worker.runTo_unique hrun hrun')
    rw [List.drop_zero] at hpre hreply
    rw [hreply, hlen, hindices, gather_append, gather_range'] at hpre
    have hbyte : content[b]? = some 1 := by simp [content, hb]
    have hzero : content[k]? = some 0 := by
      simp [content, Nat.ne_of_gt hk, Nat.lt_trans hk hb]
    have hgather : gather content (b :: tail) = 1 :: gather content tail :=
      List.filterMap_cons_some hbyte
    have hk_len : ((content.drop 0).take k).length = k := by
      rw [List.drop_zero, List.length_take, hlen]
      omega
    rw [hgather] at hpre
    obtain ⟨behind, hbehind⟩ := hpre
    have hone : content[k]? = some 1 := by
      conv_lhs => rw [← hbehind]
      rw [List.append_assoc, List.getElem?_append_right (Nat.le_of_eq hk_len), hk_len, Nat.sub_self]
      rfl
    rw [hzero] at hone
    cases hone
  · intro hfails σ ops content off w s hs hoff hlen hpc hpos hreply hsends
    obtain ⟨fuel, w', hrun, hreply'⟩ :=
      Worker.runTo_closeDev build me hs hoff hpc hpos hreply hsends
    refine ⟨fuel, w', s, hrun, ?_⟩
    obtain ⟨k, -, hindices⟩ := replyIndices_of_failsForGood (Nat.le_refl length) hfails
    rw [hreply', hlen, hindices, gather_range', List.drop_zero]
    exact List.take_prefix k _

end ReadBack

/-- A command of one chunk and two bytes, and a first `send` that fails: the
client gets the two bytes alone, from both copies. -/
theorem reply_has_hole :
    ∃ (kmalloc : Kmalloc) (events : List Event) (s : Driver) (env : WorkerEnv) (w : Worker),
      Driver.loaded.run kmalloc [.write 0 (List.replicate 1024 97 ++ [98, newline]) .granting] =
        .ok (events, s) ∧
      (∀ n i, (env.reads n).uncopied i = 0) ∧
      w.pc = .read ∧ w.fPos = 0 ∧ w.reply = [] ∧ w.sends = 0 ∧
      ∀ copy : Copy, ∃ fuel w' s',
        w.runTo (charBuild copy) (aesdFops kmalloc) env () (· == .closeDev) fuel ⟨s.k, some ()⟩ =
          .ok (w', s') ∧
        w'.reply = [98, newline] ∧ ¬ w'.reply <+: List.replicate 1024 97 ++ [98, newline] := by
  let kmalloc : Kmalloc := ⟨4096, by decide⟩
  let c : List Byte := List.replicate 1024 97 ++ [98, newline]
  let env : WorkerEnv :=
    { WorkerEnv.succeeding [] with sends := fun n => if n = 0 then none else some 0 }
  let w : Worker := { Worker.start with pc := .read }
  have hmem : newline ∈ c := List.mem_append_right _ (by decide)
  have hlen : c.length = 1026 := by
    rw [List.length_append, List.length_replicate]
    rfl
  obtain ⟨events, s, cmds, hrun, h⟩ := (Driver.ready_loaded kmalloc).run_commands 0 [c] rfl
    fun w' hw' => by
      rw [List.mem_singleton.mp hw']
      exact ⟨hmem, by rw [hlen]; decide⟩
  have hcontent : ([c].foldl CommandLog.write .empty).content = c := by
    rw [CommandLog.content, List.foldl_cons, List.foldl_nil, CommandLog.visible_write_of_mem _ hmem]
    show [c].flatten = c
    rw [List.flatten_cons, List.flatten_nil, List.append_nil]
  have hs : Serves (aesdFops kmalloc) env s.k c := by
    rw [← hcontent]
    exact h.idle.serves fun _ _ => rfl
  refine ⟨kmalloc, events, s, env, w, hrun, fun _ _ => rfl, rfl, rfl, rfl, rfl, fun copy => ?_⟩
  obtain ⟨fuel, w', hrun', hreply⟩ := Worker.runTo_closeDev (w := w) (s := ⟨s.k, some ()⟩)
    (charBuild copy) () hs (by decide) rfl rfl rfl rfl
  -- The chunk of 1024 bytes is lost, and the two bytes behind it are sent.
  have hindices : (replyIndices env.sends 1026 0 0 1026).1 = List.range' 1024 2 := rfl
  have hbytes : w'.reply = [98, newline] := by
    have hdrop : c.drop 1024 = [98, newline] := by
      apply List.drop_left'
      exact List.length_replicate
    rw [hreply, List.drop_zero, hlen, hindices, gather_range', hdrop]
    rfl
  refine ⟨fuel, w', _, hrun', hbytes, fun hpre => ?_⟩
  rw [hbytes, show (1024 : Nat) = 1023 + 1 from rfl, List.replicate_succ, List.cons_append,
    List.cons_prefix_cons] at hpre
  exact absurd hpre.1 (by decide)

end AesdChar
