import AesdChar.Driver.LogDriver

/-!
# The arithmetic of `aesd_llseek`

A seek adds an offset to a base that its `whence` selects, and the code does so
in 64 bits.  `SeeksExactly` says what the call would do over the integers.
The base is never negative, so the sum can leave the range of `loff_t` at the
upper end only, and there it turns negative: the call then fails where it
should have moved the file to the end of the content.
`aesdLlseek_exact_iff` says that this is the only way to go wrong.
-/

namespace AesdChar

open CodeLib CodeLib.CInt CodeLib.Ring

/-- The three places from which a seek counts. -/
inductive Whence
  | set
  | cur
  | fromEnd
deriving DecidableEq, Repr

/-- The constant of the C interface. -/
def Whence.code : Whence → Int
  | .set => SEEK_SET
  | .cur => SEEK_CUR
  | .fromEnd => SEEK_END

/-- The position from which a seek counts, on a device with `total` bytes. -/
def Whence.base (whence : Whence) (fPos : Int) (total : Nat) : Int :=
  match whence with
  | .set => 0
  | .cur => fPos
  | .fromEnd => total

/-- What a seek to `sum` does over the integers, on a device with `total`
bytes: a negative position is refused, any other is cut at the end. -/
structure SeeksExactly {σ : Type} (sum : Int) (total : Nat) (fPos : Int) (r : CallResult σ) :
    Prop where
  refused : r.ret = -EINVAL ∧ r.fPos = fPos ↔ sum < 0
  moved : 0 ≤ sum → r.fPos = min sum total ∧ r.ret = min sum total

theorem Whence.base_nonneg (whence : Whence) {fPos : Int} (hpos : 0 ≤ fPos) (total : Nat) :
    0 ≤ whence.base fPos total := by
  cases whence with
  | set => exact Int.le_refl 0
  | cur => exact hpos
  | fromEnd => exact Int.natCast_nonneg total

theorem Whence.base_lt (whence : Whence) {fPos : Int} (hpos : fPos < 2 ^ 63) {total : Nat}
    (htotal : total < 2 ^ 63) : whence.base fPos total < 2 ^ 63 := by
  cases whence with
  | set => exact (by decide : (0 : Int) < 2 ^ 63)
  | cur => exact hpos
  | fromEnd =>
    show (total : Int) < 2 ^ 63
    omega

section Log

variable {log : CommandLog} {whence : Whence} {fPos offset : Int}

/-- The three branches of the switch are one sum. -/
theorem CommandLog.llseek_whence (hoffset : IsSigned64 offset) :
    log.llseek fPos offset whence.code =
      let newpos := signed64 (whence.base fPos log.content.length + offset)
      if newpos < 0 then (-EINVAL, fPos)
      else (min newpos log.content.length, min newpos log.content.length) := by
  cases whence with
  | set =>
    have hset : signed64 (0 + offset) = offset := by
      rw [Int.zero_add]
      exact signed64_of_isSigned64 hoffset
    show log.llseek fPos offset SEEK_SET = _
    simp only [llseek, Whence.base, hset, if_true]
  | cur => rfl
  | fromEnd => rfl

/-- A sum that fits is treated as an integer. -/
theorem CommandLog.llseek_of_lt (hpos : 0 ≤ fPos) (hoffset : IsSigned64 offset)
    (hlt : whence.base fPos log.content.length + offset < 2 ^ 63) :
    log.llseek fPos offset whence.code =
      let sum := whence.base fPos log.content.length + offset
      if sum < 0 then (-EINVAL, fPos)
      else (min sum log.content.length, min sum log.content.length) := by
  have hbase := whence.base_nonneg hpos log.content.length
  have hsum : IsSigned64 (whence.base fPos log.content.length + offset) := by
    unfold IsSigned64 at hoffset ⊢
    omega
  rw [llseek_whence hoffset, signed64_of_isSigned64 hsum]

/-- A sum that does not fit turns negative, and the seek is refused. -/
theorem CommandLog.llseek_of_ge (hpos : fPos < 2 ^ 63) (htotal : log.content.length < 2 ^ 63)
    (hoffset : IsSigned64 offset)
    (hge : 2 ^ 63 ≤ whence.base fPos log.content.length + offset) :
    log.llseek fPos offset whence.code = (-EINVAL, fPos) := by
  have hbase := whence.base_lt hpos htotal
  have hlt : whence.base fPos log.content.length + offset < 2 ^ 64 := by
    have := hoffset.2
    omega
  rw [llseek_whence hoffset, signed64_of_ge hge hlt]
  exact if_pos (by omega)

/-- The seek is exact if and only if its sum fits. -/
theorem CommandLog.llseek_exact_iff {σ : Type} (k : σ) (hpos : 0 ≤ fPos ∧ fPos < 2 ^ 63)
    (htotal : log.content.length < 2 ^ 63) (hoffset : IsSigned64 offset) :
    SeeksExactly (whence.base fPos log.content.length + offset) log.content.length fPos
        ⟨(log.llseek fPos offset whence.code).1, (log.llseek fPos offset whence.code).2, k⟩ ↔
      whence.base fPos log.content.length + offset < 2 ^ 63 := by
  constructor
  · intro h
    by_contra hge
    have hret := llseek_of_ge hpos.2 htotal hoffset (Int.not_lt.mp hge)
    have hneg := h.refused.mp ⟨congrArg Prod.fst hret, congrArg Prod.snd hret⟩
    omega
  · intro hlt
    rw [llseek_of_lt hpos.1 hoffset hlt]
    generalize whence.base fPos log.content.length + offset = sum
    dsimp only
    by_cases hneg : sum < 0
    · rw [if_pos hneg]
      exact ⟨iff_of_true ⟨rfl, rfl⟩ hneg, fun hsum => absurd hneg (Int.not_lt.mpr hsum)⟩
    · rw [if_neg hneg]
      refine ⟨iff_of_false (fun hret => ?_) hneg, fun _ => ⟨rfl, rfl⟩⟩
      -- A position is not an error code.
      have hcode : min sum log.content.length = -EINVAL := hret.1
      unfold EINVAL at hcode
      omega

/-- Seeks whose sums fit return more for a larger offset. -/
theorem CommandLog.llseek_mono {offset' : Int} (hpos : 0 ≤ fPos) (hoffset : IsSigned64 offset)
    (hoffset' : IsSigned64 offset') (hle : offset ≤ offset')
    (hlt : whence.base fPos log.content.length + offset' < 2 ^ 63) :
    (log.llseek fPos offset whence.code).1 ≤ (log.llseek fPos offset' whence.code).1 := by
  rw [llseek_of_lt hpos hoffset (by omega), llseek_of_lt hpos hoffset' hlt]
  unfold EINVAL
  dsimp only
  split_ifs
  · exact Int.le_refl _
  · dsimp only
    omega
  · omega
  · dsimp only
    omega

/-- The largest offset breaks the order, unless the seek counts from zero. -/
theorem CommandLog.llseek_max_lt (hpos : 0 ≤ fPos ∧ fPos < 2 ^ 63)
    (htotal : log.content.length < 2 ^ 63) (hbase : 0 < whence.base fPos log.content.length) :
    (log.llseek fPos (2 ^ 63 - 1) whence.code).1 < (log.llseek fPos 0 whence.code).1 := by
  have hlt := whence.base_lt hpos.2 htotal
  have hmax : IsSigned64 (2 ^ 63 - 1) := by
    unfold IsSigned64
    omega
  rw [llseek_of_ge hpos.2 htotal hmax (by omega),
    llseek_of_lt hpos.1 isSigned64_zero (by omega)]
  unfold EINVAL
  dsimp only
  rw [if_neg (by omega)]
  dsimp only
  omega

end Log

/-! ## Every device and every file -/

/-- After any run of calls and for any file position, `aesd_llseek` seeks as
over the integers exactly if the sum of base and offset is below `2 ^ 63`.
This is also when the sum fits.  Over such offsets the result is monotone, and
it is monotone over all offsets exactly if the seek counts from zero. -/
theorem aesdLlseek_exact_iff (kmalloc : Kmalloc) (calls : List Call) :
    ∃ events s entries, Driver.loaded.run kmalloc calls = .ok (events, s) ∧
      s.k.commands = .ok entries ∧
      let total := entries.flatten.length
      ∀ fPos : Int, 0 ≤ fPos → IsSigned64 fPos → ∀ whence : Whence,
        ∃ ret : Int64 → Int,
          (∀ offset : Int64,
            let sum := whence.base fPos total + offset.toInt
            ∃ r, aesdLlseek fPos offset.toInt whence.code s.k = .ok r ∧ r.ret = ret offset ∧
              r.state = s.k ∧ (SeeksExactly sum total fPos r ↔ sum < 2 ^ 63) ∧
              (IsSigned64 sum ↔ sum < 2 ^ 63)) ∧
          (∀ offset offset' : Int64, offset ≤ offset' →
            whence.base fPos total + offset'.toInt < 2 ^ 63 → ret offset ≤ ret offset') ∧
          ((∀ offset offset' : Int64, offset ≤ offset' → ret offset ≤ ret offset') ↔
            whence.base fPos total = 0) := by
  obtain ⟨events, s, cmds, hrun, -, hready⟩ := Driver.run_loaded kmalloc calls
  have hidle := hready.idle
  have htotal := hidle.content_lt
  refine ⟨events, s, _, hrun, hidle.commands_eq, ?_⟩
  generalize CommandLog.ofWrites (payloads events) = log at hidle htotal
  intro total fPos hnonneg hsigned whence
  have hpos : 0 ≤ fPos ∧ fPos < 2 ^ 63 := ⟨hnonneg, hsigned.2⟩
  have hoffset := isSigned64_toInt
  have hmono : ∀ offset offset' : Int64, offset ≤ offset' →
      whence.base fPos log.content.length + offset'.toInt < 2 ^ 63 →
      (log.llseek fPos offset.toInt whence.code).1 ≤
        (log.llseek fPos offset'.toInt whence.code).1 :=
    fun offset offset' hle hlt =>
      CommandLog.llseek_mono hnonneg (hoffset offset) (hoffset offset')
        (Int64.le_iff_toInt_le.mp hle) hlt
  refine ⟨fun offset => (log.llseek fPos offset.toInt whence.code).1, fun offset => ?_, hmono,
    ?_, ?_⟩
  · refine ⟨_, hidle.llseek_eq fPos whence.code (hoffset offset), rfl, rfl,
      CommandLog.llseek_exact_iff s.k hpos htotal (hoffset offset), ?_⟩
    have hbase := whence.base_nonneg hnonneg total
    have hlow := (hoffset offset).1
    unfold IsSigned64
    omega
  · intro hall
    by_contra hne
    have hbase := whence.base_nonneg hnonneg total
    have hlt := CommandLog.llseek_max_lt hpos htotal
      (show 0 < whence.base fPos log.content.length from lt_of_le_of_ne hbase (Ne.symm hne))
    have hle := hall 0 Int64.maxValue (by decide)
    exact absurd hle (Int.not_le.mpr hlt)
  · intro hzero offset offset' hle
    refine hmono offset offset' hle ?_
    show whence.base fPos total + offset'.toInt < 2 ^ 63
    rw [hzero, Int.zero_add]
    exact (hoffset offset').2

/-- A seek back by one byte after a write of two. -/
theorem aesdLlseek_back_one :
    ∃ events s entries r,
      Driver.loaded.run ⟨4096, by decide⟩ [.write 0 [97, newline] .granting] = .ok (events, s) ∧
      s.k.commands = .ok entries ∧ aesdLlseek 2 (-1) SEEK_CUR s.k = .ok r ∧
      SeeksExactly 1 entries.flatten.length 2 r := by
  obtain ⟨events, s, entries, hrun, hcommands, hseek⟩ :=
    aesdLlseek_exact_iff ⟨4096, by decide⟩ [.write 0 [97, newline] .granting]
  obtain ⟨ret, hall, -, -⟩ := hseek 2 (by decide) (isSigned64_toInt 2) .cur
  obtain ⟨r, hr, -, -, hexact, -⟩ := hall (-1)
  have hlt : (2 : Int) + (-1 : Int64).toInt < 2 ^ 63 := by decide
  exact ⟨events, s, entries, r, hrun, hcommands, hr, hexact.mpr hlt⟩

/-- A write of two bytes leaves the file at position two.  From there the
largest offset overflows, and the seek is refused. -/
theorem aesdLlseek_overflow :
    ∃ events s r,
      Driver.loaded.run ⟨4096, by decide⟩ [.write 0 [97, newline] .granting] = .ok (events, s) ∧
      s.filePos 0 = 2 ∧ s.k.commands = .ok [[97, newline]] ∧
      aesdLlseek (s.filePos 0) Int64.maxValue.toInt SEEK_CUR s.k = .ok r ∧
      r.ret = -EINVAL ∧ r.fPos = 2 ∧ ¬ SeeksExactly (2 + Int64.maxValue.toInt) 2 2 r := by
  let run := Driver.loaded.run ⟨4096, by decide⟩ [.write 0 [97, newline] .granting]
  have hview : run.toOption.map (fun r => (r.2.filePos 0, r.2.k.commands,
      (aesdLlseek (r.2.filePos 0) Int64.maxValue.toInt SEEK_CUR r.2.k).toOption.map
        fun r => (r.ret, r.fPos))) =
      some (2, .ok [[97, newline]], some (-EINVAL, 2)) := by decide +kernel
  obtain ⟨⟨events, s⟩, hrun, hview⟩ := exists_of_view hview
  obtain ⟨hpos, hview⟩ := Prod.mk.inj hview
  obtain ⟨hcommands, hseek⟩ := Prod.mk.inj hview
  obtain ⟨r, hr, hres⟩ := exists_of_view hseek
  obtain ⟨hret, hfPos⟩ := Prod.mk.inj hres
  refine ⟨events, s, r, hrun, hpos, hcommands, hr, hret, hfPos, fun hexact => ?_⟩
  exact absurd (hexact.refused.mp ⟨hret, hfPos⟩) (by decide)

end AesdChar
