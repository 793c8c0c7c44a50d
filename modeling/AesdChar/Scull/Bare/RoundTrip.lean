import AesdChar.Scull.Bare.Runs

/-!
# What was written is read back

A single `write` stops at the end of a quantum, and so does a single `read`, so a caller has
to repeat them.  `scull_run_readBack` says that this is enough: from every state that a
device can be in, a caller that writes in a loop gets everything written if there
is memory, and a loop of reads from the same position delivers the same bytes, across
quanta and list items.
-/

namespace AesdChar.Scull

open CodeLib CodeLib.CInt

/-! ## The two loops -/

namespace ScullMem

variable (kmalloc : Kmalloc) (answers : Nat → ScullAnswer) (quantum qset : Int)

/-- A caller writes what is left until nothing is left, or a call stores nothing. -/
def writeLoop : (fuel : Nat) → List Byte → (pos : Int) → ScullMem →
    Except Fault (List Byte × Int × ScullMem)
  | 0, buf, pos, m => .ok (buf, pos, m)
  | fuel + 1, buf, pos, m =>
    if buf = [] then .ok (buf, pos, m)
    else do
      let r ← m.write kmalloc (answers fuel) quantum qset buf pos
      if r.ret ≤ 0 then return (buf, r.pos, r.mem)
      else writeLoop fuel (buf.drop r.ret.toNat) r.pos r.mem

/-- A caller reads until it has `count` bytes, or a call delivers nothing. -/
def readLoop : (fuel count : Nat) → (pos : Int) → ScullMem →
    Except Fault (List (Option Byte) × ScullMem)
  | 0, _, _, m => .ok ([], m)
  | fuel + 1, count, pos, m =>
    if count = 0 then .ok ([], m)
    else do
      let r ← m.read kmalloc (answers fuel) quantum qset count pos
      if r.ret ≤ 0 then return ([], r.mem)
      else do
        let (bytes, m) ← readLoop fuel (count - r.ret.toNat) r.pos r.mem
        return (r.bytes ++ bytes, m)

end ScullMem

/-! ## A stretch of the file -/

/-- The file has the bytes `xs` from `pos` on. -/
structure ScullFile.Has (f : ScullFile) (pos : Nat) (xs : List Byte) : Prop where
  cells_eq : ∀ i, (h : i < xs.length) → f.cells (pos + i) = some (some xs[i])
  le_size : xs ≠ [] → pos + xs.length ≤ f.size

section File

variable {f : ScullFile} {pos : Nat} {xs ys : List Byte}

theorem ScullFile.has_nil (f : ScullFile) (pos : Nat) : f.Has pos [] where
  cells_eq i hi := by cases hi
  le_size hne := absurd rfl hne

theorem ScullFile.Has.append (hx : f.Has pos xs) (hy : f.Has (pos + xs.length) ys) :
    f.Has pos (xs ++ ys) where
  cells_eq i hi := by
    rw [List.length_append] at hi
    by_cases hlt : i < xs.length
    · rw [List.getElem_append_left hlt]
      exact hx.cells_eq i hlt
    · rw [List.getElem_append_right (by omega), ← hy.cells_eq (i - xs.length) (by omega)]
      congr 1
      omega
  le_size hne := by
    cases ys with
    | nil =>
      rw [List.append_nil] at hne ⊢
      exact hx.le_size hne
    | cons y ys =>
      have hle := hy.le_size (by simp)
      rw [List.length_append]
      omega

theorem ScullFile.Has.drop (h : f.Has pos xs) {k : Nat} (hk : k ≤ xs.length) :
    f.Has (pos + k) (xs.drop k) where
  cells_eq i hi := by
    rw [List.length_drop] at hi
    rw [List.getElem_drop, Nat.add_assoc]
    exact h.cells_eq (k + i) (by omega)
  le_size hne := by
    have hpos := List.length_pos_iff.mpr hne
    rw [List.length_drop] at hpos ⊢
    have hle := h.le_size (List.length_pos_iff.mp (by omega))
    omega

/-- A transfer moves at least a byte. -/
theorem ScullFile.room_pos (hquantum : 0 < f.quantum) {count : Nat} (hcount : 0 < count) :
    0 < f.room pos count := by
  have hmod := Nat.mod_lt pos hquantum
  show 0 < min count _
  omega

/-- What a write has stored is there. -/
theorem ScullFile.has_store (hlen : xs.length ≤ f.quantum - pos % f.quantum) :
    ((f.store pos xs).grow (pos + xs.length)).Has pos xs where
  cells_eq i hi := by
    have hquantum : (pos + i) / f.quantum = pos / f.quantum :=
      (div_add_of_lt (by omega) (by omega)).1
    show (if (pos + i) / f.quantum = pos / f.quantum then some (if _ then _ else _) else _) = _
    rw [if_pos hquantum, if_pos (by omega), Nat.add_sub_cancel_left, List.getElem?_eq_getElem hi]
  le_size _ := Nat.le_max_right _ _

/-- A write does not touch what lies before it. -/
theorem ScullFile.Has.store (h : f.Has pos xs) (ys : List Byte) (size : Nat) :
    ((f.store (pos + xs.length) ys).grow size).Has pos xs where
  cells_eq i hi := by
    have hcell := h.cells_eq i hi
    show (if _ then some (if _ then _ else (f.cells (pos + i)).join) else f.cells (pos + i)) = _
    rw [hcell, if_neg (by omega : ¬ (pos + xs.length ≤ pos + i ∧ _))]
    split <;> rfl
  le_size hne := Nat.le_trans (h.le_size hne) (Nat.le_max_left _ _)

/-- A read delivers the front of a stretch. -/
theorem ScullFile.Has.read (h : f.Has pos xs) (hne : xs ≠ []) :
    f.read pos xs.length = (xs.take (f.room pos xs.length)).map some := by
  have hpos : 0 < xs.length := List.length_pos_iff.mpr hne
  have hle := h.le_size hne
  have hroom : f.room pos xs.length ≤ xs.length := Nat.min_le_left _ _
  have hfirst : f.cells pos ≠ none := by
    have hcell := h.cells_eq 0 hpos
    rw [Nat.add_zero] at hcell
    rw [hcell]
    simp
  unfold ScullFile.read
  rw [if_pos ⟨by omega, hfirst⟩, Nat.min_eq_left (by omega : xs.length ≤ f.size - pos)]
  apply List.ext_getElem
  · rw [List.length_map, List.length_range, List.length_map, List.length_take,
      Nat.min_eq_left hroom]
  · intro i hi hi'
    rw [List.length_map, List.length_range] at hi
    rw [List.getElem_map, List.getElem_map, List.getElem_range, List.getElem_take,
      h.cells_eq i (by omega), Option.join_some]

end File

/-! ## The loops are a round trip -/

section Loops

variable {m : ScullMem} {q : Nat} {items : List ListItem} {f : ScullFile} {kmalloc : Kmalloc}
  {answers : Nat → ScullAnswer}

/-- There is memory for every call, and every copy goes through. -/
def Unhindered (kmalloc : Kmalloc) (answers : Nat → ScullAnswer) (n q : Nat) : Prop :=
  ∀ i, (answers i).Granted kmalloc n q ∧ (answers i).uncopied = 0

/-- One write of the loop. -/
theorem ScullMem.Holds.writeOne (h : m.Holds q items f) {answer : ScullAnswer}
    (hgranted : answer.Granted kmalloc f.quantum q) (huncopied : answer.uncopied = 0) {pos : Nat}
    {buf : List Byte} (hreach : pos + buf.length ≤ 2 ^ 32 * (f.quantum * q)) (hne : buf ≠ []) :
    ∃ c m' items', 0 < c ∧ c ≤ buf.length ∧ c ≤ f.quantum - pos % f.quantum ∧
      m.write kmalloc answer f.quantum q buf pos =
        .ok ⟨c, some (buf.take c), ((pos + c : Nat) : Int), m'⟩ ∧
      m'.Holds q items' ((f.store pos (buf.take c)).grow (pos + c)) := by
  have hlen : 0 < buf.length := List.length_pos_iff.mpr hne
  have hin : InReach f.quantum q pos := by
    show pos / (f.quantum * q) < 2 ^ 32
    rw [Nat.div_lt_iff_lt_mul (Nat.mul_pos h.quantum_pos h.qset_pos)]
    omega
  obtain ⟨r, hwrite, hresult⟩ := h.write hin kmalloc answer buf
  rcases hresult with ⟨-, -, -, hno, -⟩ | ⟨bytes, hstored, hbytes_len, hresult⟩
  · exact absurd hgranted hno
  rcases hresult with ⟨hret, hbytes, hpos, items', hheld⟩ | ⟨-, -, hno, -⟩
  · have hroom := @ScullFile.room_pos f pos h.quantum_pos _ hlen
    refine ⟨bytes.length, r.mem, items', by omega, ?_, ?_, ?_, ?_⟩
    · rw [hbytes_len]
      exact Nat.min_le_left _ _
    · rw [hbytes_len]
      exact Nat.min_le_right _ _
    · rw [hwrite, ← hbytes, ← hstored, ← hret, Nat.cast_add, ← hpos]
    · rw [← hbytes]
      exact hheld
  · exact absurd huncopied hno

/-- The loop of writes leaves nothing behind, and keeps what it has written before. -/
theorem ScullMem.Holds.writeLoop (h : m.Holds q items f)
    (hanswers : Unhindered kmalloc answers f.quantum q) {pos : Nat} {xs : List Byte}
    (hxs : f.Has pos xs) {fuel : Nat} {buf : List Byte} (hfuel : buf.length ≤ fuel)
    (hreach : pos + xs.length + buf.length ≤ 2 ^ 32 * (f.quantum * q)) :
    ∃ m' items' f', m.writeLoop kmalloc answers f.quantum q fuel buf
        ((pos + xs.length : Nat) : Int) =
          .ok ([], ((pos + xs.length + buf.length : Nat) : Int), m') ∧
      m'.Holds q items' f' ∧ f'.quantum = f.quantum ∧ f'.Has pos (xs ++ buf) := by
  induction fuel generalizing m items f xs buf with
  | zero =>
    obtain rfl : buf = [] := List.length_eq_zero_iff.mp (by omega)
    exact ⟨m, items, f, rfl, h, rfl, by rw [List.append_nil]; exact hxs⟩
  | succ fuel ih =>
    by_cases hne : buf = []
    · subst hne
      exact ⟨m, items, f, rfl, h, rfl, by rw [List.append_nil]; exact hxs⟩
    · obtain ⟨c, m₁, items₁, hpos, hc, hroom, hwrite, hheld⟩ :=
        h.writeOne (hanswers fuel).1 (hanswers fuel).2 hreach hne
      have htake : (buf.take c).length = c := by
        rw [List.length_take, Nat.min_eq_left hc]
      have hdrop : (buf.drop c).length = buf.length - c := List.length_drop
      let f₁ := (f.store (pos + xs.length) (buf.take c)).grow (pos + xs.length + c)
      have hstored : f₁.Has (pos + xs.length) (buf.take c) := by
        have hhas := f.has_store (show (buf.take c).length ≤ _ by rw [htake]; exact hroom)
        rw [htake] at hhas
        exact hhas
      have hxs₁ : f₁.Has pos (xs ++ buf.take c) := (hxs.store _ _).append hstored
      have hend : pos + (xs ++ buf.take c).length = pos + xs.length + c := by
        rw [List.length_append, htake, Nat.add_assoc]
      have hreach₁ : pos + (xs ++ buf.take c).length + (buf.drop c).length ≤
          2 ^ 32 * (f₁.quantum * q) := by
        rw [hend, hdrop]
        show _ ≤ 2 ^ 32 * (f.quantum * q)
        omega
      obtain ⟨m₂, items₂, f₂, hloop, hheld₂, hquantum, hhas⟩ :=
        ih hheld hanswers hxs₁ (by omega) hreach₁
      refine ⟨m₂, items₂, f₂, ?_, hheld₂, hquantum, ?_⟩
      · rw [ScullMem.writeLoop, if_neg hne, hwrite, ok_bind,
          if_neg (show ¬ ((c : Nat) : Int) ≤ 0 by omega), Int.toNat_natCast]
        rw [hend, hdrop] at hloop
        rw [show pos + xs.length + buf.length = pos + xs.length + c + (buf.length - c) by omega]
        exact hloop
      · rw [List.append_assoc, List.take_append_drop] at hhas
        exact hhas

/-- One read of the loop. -/
theorem ScullMem.Holds.readOne (h : m.Holds q items f) {answer : ScullAnswer}
    (huncopied : answer.uncopied = 0) {pos : Nat} {xs : List Byte} (hxs : f.Has pos xs)
    (hne : xs ≠ []) :
    ∃ c, 0 < c ∧ c ≤ xs.length ∧ m.read kmalloc answer f.quantum q xs.length pos =
      .ok ⟨c, (xs.take c).map some, ((pos + c : Nat) : Int), m⟩ := by
  have hlen := List.length_pos_iff.mpr hne
  have hend := hxs.le_size hne
  have hsize := h.size_lt
  obtain ⟨r, hread, hmem, hresult⟩ :=
    @ScullMem.Holds.read _ _ _ _ kmalloc answer pos xs.length h (by omega) (by omega)
  have hroom : f.room pos xs.length ≤ xs.length := Nat.min_le_left _ _
  have hread_len : (f.read pos xs.length).length = f.room pos xs.length := by
    rw [hxs.read hne, List.length_map, List.length_take, Nat.min_eq_left hroom]
  rcases hresult with ⟨hret, hbytes, hpos⟩ | ⟨-, -, hno, -, -⟩
  · refine ⟨f.room pos xs.length, ScullFile.room_pos h.quantum_pos hlen, hroom, ?_⟩
    rw [hread_len] at hret hpos
    rw [hread, ← hxs.read hne, ← hbytes, ← hret, Nat.cast_add, ← hpos, ← hmem]
  · exact absurd huncopied hno

/-- The loop of reads delivers a stretch of the file. -/
theorem ScullMem.Holds.readLoop (h : m.Holds q items f) (huncopied : ∀ i, (answers i).uncopied = 0)
    {pos : Nat} {xs : List Byte} (hxs : f.Has pos xs) {fuel : Nat} (hfuel : xs.length ≤ fuel) :
    m.readLoop kmalloc answers f.quantum q fuel xs.length pos = .ok (xs.map some, m) := by
  induction fuel generalizing pos xs with
  | zero =>
    obtain rfl : xs = [] := List.length_eq_zero_iff.mp (by omega)
    rfl
  | succ fuel ih =>
    by_cases hne : xs = []
    · rw [hne]
      rfl
    · have hlen := List.length_pos_iff.mpr hne
      obtain ⟨c, hpos, hc, hread⟩ := h.readOne (huncopied fuel) hxs hne
      have hdrop : (xs.drop c).length = xs.length - c := List.length_drop
      have hloop := ih (hxs.drop hc) (by omega)
      rw [hdrop] at hloop
      rw [ScullMem.readLoop, if_neg (by omega), hread, ok_bind,
        if_neg (show ¬ ((c : Nat) : Int) ≤ 0 by omega)]
      show (m.readLoop kmalloc answers f.quantum q fuel (xs.length - (c : Int).toNat)
        ((pos + c : Nat) : Int) >>= _) = _
      rw [Int.toNat_natCast, hloop, ok_bind]
      show Except.ok ((xs.take c).map some ++ (xs.drop c).map some, m) = _
      rw [← List.map_append, List.take_append_drop]

end Loops

/-! ## Runs -/

section Runs

variable {τ : Type} [DecidableEq τ] {kmalloc : Kmalloc} {mode : τ → FMode} {s : ScullSystem τ}
  {params : ScullParams} {acts : List (ScullAct τ)} {events : List (ScullEvent τ)}

/-- From every state that a device can be in between two calls, a caller that writes in a
loop gets everything written, and it reads the same bytes back.  Every allocation and every
copy must go through, the range must end within the list items that the loop of
`scull_follow` can count to, and nobody else may use the device meanwhile. -/
theorem scull_run_readBack (hsane : SaneGeometry params.scullQuantum params.scullQset)
    (hsafe : (ScullSystem.init params).SafeRun kmalloc mode acts)
    (hrun : (ScullSystem.init params).run kmalloc mode acts = .ok (events, s))
    (hfree : s.lock = none) {answers : Nat → ScullAnswer}
    (hanswers : Unhindered kmalloc answers s.mem.dev.quantum.toNat s.mem.dev.qset.toNat)
    {pos : Nat} {buf : List Byte}
    (hreach : pos + buf.length ≤
      2 ^ 32 * (s.mem.dev.quantum.toNat * s.mem.dev.qset.toNat)) :
    let n := s.mem.dev.quantum
    let q := s.mem.dev.qset
    ∃ m, s.mem.writeLoop kmalloc answers n q buf.length buf pos =
        .ok ([], ((pos + buf.length : Nat) : Int), m) ∧
      m.readLoop kmalloc answers n q buf.length buf.length pos = .ok (buf.map some, m) := by
  obtain ⟨fs, -, hinv⟩ := ScullSystem.run_inv hsane hsafe hrun
  have hshape := hinv.shape
  rw [ScullSystem.phase, hfree] at hshape
  obtain ⟨items, hheld⟩ := hshape
  have hquantum : s.mem.dev.quantum.toNat = fs.file.quantum := by
    rw [hheld.quantum_eq]
    rfl
  rw [hquantum] at hanswers hreach
  obtain ⟨m, items', f, hwrite, hheld', hsame, hhas⟩ :=
    hheld.writeLoop hanswers (fs.file.has_nil pos) (Nat.le_refl buf.length) hreach
  have hread := @ScullMem.Holds.readLoop _ _ _ _ kmalloc _ hheld' (fun i => (hanswers i).2) _ _ hhas
    _ (Nat.le_refl buf.length)
  rw [hsame, ← hheld.quantum_eq, ← hheld.qset_eq] at hread
  rw [← hheld.quantum_eq, ← hheld.qset_eq] at hwrite
  exact ⟨m, hwrite, hread⟩

/-- Five bytes over three quanta and two list items. -/
theorem scull_run_readBack_writeSeekRead :
    ∃ events s m, (ScullSystem.init smallScull).run Kmalloc.onePage writerReader writeSeekRead =
        .ok (events, s) ∧
      s.mem.writeLoop Kmalloc.onePage (fun _ => ⟨false, fun _ => true, true, true, 0⟩) 2 2 5
        [1, 2, 3, 4, 5] ((1 : Nat) : Int) = .ok ([], ((6 : Nat) : Int), m) ∧
      m.readLoop Kmalloc.onePage (fun _ => ⟨false, fun _ => true, true, true, 0⟩) 2 2 5 5
        ((1 : Nat) : Int) = .ok ([some 1, some 2, some 3, some 4, some 5], m) := by
  have hview : ((ScullSystem.init smallScull).run Kmalloc.onePage writerReader
      writeSeekRead).toOption.map (fun r => (r.2.lock, r.2.mem.dev.quantum, r.2.mem.dev.qset)) =
        some (none, 2, 2) := by decide +kernel
  obtain ⟨⟨events, s⟩, hok, hstate⟩ := exists_of_view hview
  obtain ⟨hfree, hdev⟩ := Prod.mk.inj hstate
  obtain ⟨hquantum, hqset⟩ := Prod.mk.inj hdev
  have hanswers : Unhindered Kmalloc.onePage (fun _ => ⟨false, fun _ => true, true, true, 0⟩)
      s.mem.dev.quantum.toNat s.mem.dev.qset.toNat := by
    rw [hquantum, hqset]
    exact fun _ => ⟨⟨fun _ => rfl, rfl, rfl, by decide, by decide, by decide⟩, rfl⟩
  obtain ⟨m, hwrite, hread⟩ := @scull_run_readBack _ _ _ _ _ _ _ _ saneGeometry_smallScull
    safeRun_writeSeekRead hok hfree _ hanswers 1 [1, 2, 3, 4, 5] (by rw [hquantum, hqset]; decide)
  rw [hquantum, hqset] at hwrite hread
  exact ⟨events, s, m, hok, hwrite, hread⟩

end Runs

end AesdChar.Scull
