import AesdChar.Driver.History

/-!
# What a read takes, and what a failed read leaves

`run_read_window` is a read of which no copy fails: it delivers the window that
was asked for.

The copy loop of `aesd_read` moves `*f_pos` after every copy.  A fault at the
first copy leaves `*f_pos` as it was, and a fault at a later one leaves it
behind the bytes of the copies before, which the caller is not told of.
`failed_read_keeps_position_iff` says which of the two it is.
-/

namespace AesdChar

open CodeLib CodeLib.CInt CodeLib.Ring

variable {kmalloc : Kmalloc} {k : KState} {cmds : Slots} {log : CommandLog}

/-! ## Reads without faults -/

/-- A read of which no copy fails delivers exactly the window that was asked
for, moves the position by what it delivered, and leaves the rest of the user
buffer and the device. -/
theorem run_read_window (kmalloc : Kmalloc) (calls : List Call) :
    ∃ events s commands, Driver.loaded.run kmalloc calls = .ok (events, s) ∧
      s.k.commands = .ok commands ∧
      ∀ (env : ReadEnv) (ubuf : List Byte) (count off : Nat),
        (∀ i, env.uncopied i = 0) → off < 2 ^ 63 →
        let content := commands.flatten
        let r := min count (content.length - off)
        aesdRead env ubuf count off s.k = .ok
          { ret := r
            fPos := (off + r : Nat)
            state := s.k
            ubuf := (content.drop off).take r ++ ubuf.drop r } := by
  obtain ⟨events, s, cmds, hrun, -, hready⟩ := Driver.run_loaded kmalloc calls
  refine ⟨events, s, _, hrun, hready.idle.commands_eq, ?_⟩
  intro env ubuf count off hok hoff content r
  have hlen : ((content.drop off).take count).length = r := by
    rw [List.length_take, List.length_drop]
  have htake : (content.drop off).take r = (content.drop off).take count := by
    rw [List.take_eq_take_iff, List.length_drop]
    omega
  obtain ⟨res, hread, hstate, hres⟩ := aesdRead_spec hready.idle env ubuf count hoff
  rcases hres with ⟨⟨i, hi⟩, -⟩ | ⟨hret, hfPos, hubuf⟩
  · exact absurd (hok i) hi
  · rw [hread, htake, ← hlen, ← hstate]
    congr 1
    obtain ⟨⟨ret, fPos, state⟩, ubuf'⟩ := res
    subst hret hfPos hubuf
    rfl

/-! ## Faults -/

/-- A fault at the first copy leaves the position. -/
theorem copyOut_fault_first (env : ReadEnv) {ps : List (List Byte)} (hps : ∀ p ∈ ps, p ≠ [])
    (bytesCopied copies : Nat) (fPos : Int) (ubuf : List Byte)
    (hfault : env.uncopied copies ≠ 0)
    (hret : (copyOut env ps bytesCopied copies fPos ubuf).1 < 0) :
    (copyOut env ps bytesCopied copies fPos ubuf).2.1 = fPos := by
  cases ps with
  | nil =>
    rw [copyOut] at hret
    omega
  | cons p ps =>
    have hp := List.length_pos_iff.mpr (hps p List.mem_cons_self)
    have hleft : ¬ min (env.uncopied copies) p.length = 0 := by omega
    simp only [copyOut, copyToUser, ne_eq, hleft, not_false_eq_true, if_true]

/-- Copies of which none fails. -/
theorem copyOut_ok (env : ReadEnv) (ps : List (List Byte)) (bytesCopied copies : Nat)
    (fPos : Int) (ubuf : List Byte)
    (hok : ∀ i, i < ps.length → env.uncopied (copies + i) = 0) :
    0 ≤ (copyOut env ps bytesCopied copies fPos ubuf).1 := by
  induction ps generalizing bytesCopied copies fPos ubuf with
  | nil =>
    rw [copyOut]
    omega
  | cons p ps ih =>
    have hfirst := hok 0 (Nat.zero_lt_succ _)
    rw [Nat.add_zero] at hfirst
    have hleft : min (env.uncopied copies) p.length = 0 := by omega
    simp only [copyOut, copyToUser_ok hleft, ne_eq, not_true_eq_false, if_false]
    refine ih _ _ _ _ fun i hi => ?_
    have hnext := hok (i + 1) (Nat.succ_lt_succ hi)
    rwa [show copies + (i + 1) = copies + 1 + i by omega] at hnext

/-- A fault at some copy makes the read fail, not before the position that the
copies start from. -/
theorem copyOut_fault (env : ReadEnv) {ps : List (List Byte)} (hps : ∀ p ∈ ps, p ≠ [])
    (bytesCopied copies : Nat) (fPos : Int) (ubuf : List Byte) {i : Nat} (hi : i < ps.length)
    (hfault : env.uncopied (copies + i) ≠ 0) :
    (copyOut env ps bytesCopied copies fPos ubuf).1 < 0 ∧
    fPos ≤ (copyOut env ps bytesCopied copies fPos ubuf).2.1 := by
  induction ps generalizing bytesCopied copies fPos ubuf i with
  | nil => cases hi
  | cons p ps ih =>
    have hp := List.length_pos_iff.mpr (hps p List.mem_cons_self)
    by_cases hleft : min (env.uncopied copies) p.length = 0
    · simp only [copyOut, copyToUser_ok hleft, ne_eq, not_true_eq_false, if_false]
      cases i with
      | zero =>
        rw [Nat.add_zero] at hfault
        omega
      | succ i =>
        obtain ⟨hneg, hle⟩ := ih (fun p' hp' => hps p' (List.mem_cons_of_mem _ hp'))
          (bytesCopied + p.length) (copies + 1) (fPos + p.length) (splice ubuf bytesCopied p)
          (Nat.lt_of_succ_lt_succ hi) (by rwa [show copies + 1 + i = copies + (i + 1) by omega])
        exact ⟨hneg, by omega⟩
    · simp only [copyOut, copyToUser, ne_eq, hleft, not_false_eq_true, if_true]
      exact ⟨by decide, Int.le_refl _⟩

/-- A read that fails at a later copy than the first moves the position. -/
theorem copyOut_fault_later (env : ReadEnv) {ps : List (List Byte)} (hps : ∀ p ∈ ps, p ≠ [])
    (bytesCopied copies : Nat) (fPos : Int) (ubuf : List Byte)
    (hfirst : env.uncopied copies = 0) {i : Nat} (hi : i < ps.length)
    (hfault : env.uncopied (copies + i) ≠ 0) :
    (copyOut env ps bytesCopied copies fPos ubuf).1 < 0 ∧
    (copyOut env ps bytesCopied copies fPos ubuf).2.1 ≠ fPos := by
  cases ps with
  | nil => cases hi
  | cons p ps =>
    have hp := List.length_pos_iff.mpr (hps p List.mem_cons_self)
    have hleft : min (env.uncopied copies) p.length = 0 := by omega
    cases i with
    | zero =>
      rw [Nat.add_zero] at hfault
      exact absurd hfirst hfault
    | succ i =>
      simp only [copyOut, copyToUser_ok hleft, ne_eq, not_true_eq_false, if_false]
      obtain ⟨hneg, hle⟩ := copyOut_fault env (fun p' hp' => hps p' (List.mem_cons_of_mem _ hp'))
        (bytesCopied + p.length) (copies + 1) (fPos + p.length) (splice ubuf bytesCopied p)
        (Nat.lt_of_succ_lt_succ hi) (by rwa [show copies + 1 + i = copies + (i + 1) by omega])
      exact ⟨hneg, by omega⟩

/-- A read that failed has consumed nothing: the position is as it was, and
every later read from there delivers what it would have delivered before. -/
def ConsumesNothingOnFailure (k : KState) (fPos : Int) (r : ReadResult KState) : Prop :=
  r.ret < 0 → r.fPos = fPos ∧
    ∀ env ubuf count, aesdRead env ubuf count r.fPos r.state = aesdRead env ubuf count fPos k

/-- The number of copies that a read makes if none fails: the commands that
its window meets. -/
def copiesOf (commands : List (List Byte)) (fPos : Int) (count : Nat) : Nat :=
  if fPos < 0 then 0 else (pieces commands fPos.toNat count).length

/-- When a failed read leaves `*f_pos`: the first copy fails, or none does. -/
theorem failed_read_keeps_position_iff (kmalloc : Kmalloc) (calls : List Call) (env : ReadEnv)
    (ubuf : List Byte) (count : Nat) (fPos : Int64) :
    ∃ events s commands r, Driver.loaded.run kmalloc calls = .ok (events, s) ∧
      s.k.commands = .ok commands ∧ aesdRead env ubuf count fPos.toInt s.k = .ok r ∧
      (ConsumesNothingOnFailure s.k fPos.toInt r ↔
        env.uncopied 0 ≠ 0 ∨
          ∀ i, i < copiesOf commands fPos.toInt count → env.uncopied i = 0) := by
  obtain ⟨events, s, cmds, hrun, -, hready⟩ := Driver.run_loaded kmalloc calls
  have hsigned : IsSigned64 fPos.toInt := ⟨fPos.le_toInt, fPos.toInt_lt⟩
  rcases Int.lt_or_le fPos.toInt 0 with hneg | hnonneg
  · have hread := aesdRead_neg hready.idle env ubuf count hsigned hneg
    refine ⟨events, s, _, _, hrun, hready.idle.commands_eq, hread, iff_of_true ?_ (Or.inr ?_)⟩
    · intro hret
      exact absurd hret (Int.lt_irrefl 0)
    · intro i hi
      rw [copiesOf, if_pos hneg] at hi
      cases hi
  · obtain ⟨off, hoff⟩ := Int.eq_ofNat_of_zero_le hnonneg
    have hlt : off < 2 ^ 63 := by
      have := hsigned.2
      rw [hoff] at this
      exact_mod_cast this
    have hread := aesdRead_eq hready.idle env ubuf count hlt
    rw [hoff]
    refine ⟨events, s, _, _, hrun, hready.idle.commands_eq, hread, ?_⟩
    generalize hps : pieces (CommandLog.ofWrites (payloads events)).visible off count = ps at hread
    have hne : ∀ p ∈ ps, p ≠ [] := by
      rw [← hps]
      exact pieces_ne_nil _ _ _
    have hcopies : copiesOf (CommandLog.ofWrites (payloads events)).visible (off : Int) count =
        ps.length := by
      rw [copiesOf, if_neg (by omega), Int.toNat_natCast, hps]
    rw [hcopies]
    constructor
    · intro hkeeps
      by_contra hcon
      rw [not_or, not_not] at hcon
      obtain ⟨hfirst, hnot⟩ := hcon
      simp only [not_forall] at hnot
      obtain ⟨i, hi, hfault⟩ := hnot
      obtain ⟨hret, hmoved⟩ := copyOut_fault_later env hne 0 0 off ubuf hfirst hi
        (by rwa [Nat.zero_add])
      exact hmoved (hkeeps hret).1
    · intro hcond hret
      have hpos : (copyOut env ps 0 0 off ubuf).2.1 = off := by
        rcases hcond with hfirst | hok
        · exact copyOut_fault_first env hne 0 0 off ubuf hfirst hret
        · have hnonneg := copyOut_ok env ps 0 0 off ubuf (by simpa using hok)
          exact absurd hret (Int.not_lt.mpr hnonneg)
      refine ⟨hpos, fun env' ubuf' count' => ?_⟩
      rw [hpos]

/-- Two commands of two bytes, a read of all four, and a fault at the second
copy: the read fails and `*f_pos` has moved behind the first command. -/
theorem failed_read_moves_position :
    ∃ (kmalloc : Kmalloc) (events : List Event) (s : Driver) (r : ReadResult KState),
      Driver.loaded.run kmalloc
        [.write 0 [97, newline] .granting, .write 0 [98, newline] .granting] = .ok (events, s) ∧
      aesdRead ⟨fun i => if i = 1 then 1 else 0⟩ [] 4 0 s.k = .ok r ∧
      r.ret = -EFAULT ∧ r.fPos = 2 ∧ ¬ ConsumesNothingOnFailure s.k 0 r := by
  let kmalloc : Kmalloc := ⟨4096, by decide⟩
  let env : ReadEnv := ⟨fun i => if i = 1 then 1 else 0⟩
  obtain ⟨events, s, cmds, hrun, h⟩ := (Driver.ready_loaded kmalloc).run_commands 0
    [[97, newline], [98, newline]] rfl (by decide)
  have hread := aesdRead_eq h.idle env [] 4 (show 0 < 2 ^ 63 by decide)
  have hvisible : ([[97, newline], [98, newline]].foldl CommandLog.write .empty).visible =
      [[97, newline], [98, newline]] := rfl
  rw [hvisible] at hread
  refine ⟨kmalloc, events, s, _, hrun, hread, rfl, rfl, fun hkeeps => ?_⟩
  have hstays : (2 : Int) = 0 := (hkeeps (show (-EFAULT : Int) < 0 by decide)).1
  exact absurd hstays (by decide)

end AesdChar
