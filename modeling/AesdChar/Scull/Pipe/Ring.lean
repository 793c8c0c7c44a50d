import AesdChar.CodeLib.PieceRing
import AesdChar.Scull.Pipe.Basic

/-!
# The ring of a pipe

What `scull_p_read` and `scull_p_write` do to the bytes in the buffer.
`PipeMem.Ring` says that a list of bytes lies in the ring between the two
pointers.  A pointer may stand at the end of the buffer for a moment, before it
wraps.  `spacefree_cases` evaluates `spacefree`, and there is one spec lemma for
each of the two copies.
-/

namespace AesdChar.Scull

open CodeLib CodeLib.CInt CodeLib.Ring

/-! ## States -/

/-- The device has a buffer of these cells, and nothing else. -/
structure PipeMem.Buffered (kmalloc : Kmalloc) (m : PipeMem) (cells : List (Option Byte)) :
    Prop where
  buffer_ne : m.dev.buffer ≠ .null
  owns : m.heap.Owns [(m.dev.buffer, cells)]
  length_le : cells.length ≤ kmalloc.maxSize

/-- The device has no buffer. -/
structure PipeMem.Unbuffered (m : PipeMem) : Prop where
  buffer_eq : m.dev.buffer = .null
  owns : m.heap.Owns []

/-- The first `n` cells of the buffer are in use. -/
structure PipeMem.Sized (kmalloc : Kmalloc) (m : PipeMem) (cells : List (Option Byte)) (n : Nat) :
    Prop extends m.Buffered kmalloc cells where
  pos : 0 < n
  le : n ≤ cells.length
  buffersize_eq : m.dev.buffersize = n
  bufEnd_eq : m.dev.bufEnd = n

/-- The bytes `q` lie in the ring, with the read pointer at `x` and the write pointer
at `y`. -/
structure PipeMem.Ring (kmalloc : Kmalloc) (m : PipeMem) (cells : List (Option Byte))
    (n x y : Nat) (q : List Byte) : Prop extends m.Sized kmalloc cells n where
  rp_eq : m.dev.rp = x
  wp_eq : m.dev.wp = y
  rp_le : x ≤ n
  wp_le : y ≤ n
  carries : Carries cells n (x % n) q
  stop_eq : y % n = stop n (x % n) q.length

/-! ## Arithmetic -/

section Ring

variable {kmalloc : Kmalloc} {m : PipeMem} {cells : List (Option Byte)} {n x y : Nat}
  {q : List Byte}

theorem Kmalloc.lt_of_le {k : Nat} (h : k ≤ kmalloc.maxSize) : k < 2 ^ 63 := by
  have hmax := kmalloc.maxSize_le
  omega

theorem PipeMem.Sized.lt (h : m.Sized kmalloc cells n) : n < 2 ^ 63 :=
  Kmalloc.lt_of_le (Nat.le_trans h.le h.length_le)

/-- `spacefree`, when the read pointer has wrapped. -/
theorem ScullPipe.spacefree_cases {dev : ScullPipe} (hsize : dev.buffersize = n)
    (hrp : dev.rp = x) (hwp : dev.wp = y) (hx : x < n) (hy : y ≤ n) :
    x = y ∧ dev.spacefree = n - 1 ∨ y < x ∧ dev.spacefree = x - y - 1 ∨
      x < y ∧ dev.spacefree = x + n - y - 1 := by
  unfold spacefree
  rw [hsize, hrp, hwp]
  split
  · rename_i heq
    exact Or.inl ⟨by omega, rfl⟩
  · rename_i hne
    right
    rcases Nat.lt_or_ge y x with hlt | hge
    · left
      refine ⟨hlt, ?_⟩
      have hmod : ((x : Int) + n - y).tmod n = x - y := by
        rw [Int.tmod_eq_emod_of_nonneg (by omega),
          show (x : Int) + n - y = (x - y : Int) + n by omega, Int.add_emod_right]
        exact Int.emod_eq_of_lt (by omega) (by omega)
      rw [hmod]
    · right
      refine ⟨by omega, ?_⟩
      have hmod : ((x : Int) + n - y).tmod n = x + n - y := by
        rw [Int.tmod_eq_emod_of_nonneg (by omega)]
        exact Int.emod_eq_of_lt (by omega) (by omega)
      rw [hmod]

namespace PipeMem.Ring

theorem length_lt (h : m.Ring kmalloc cells n x y q) : q.length < n := h.carries.length_lt

/-- The write pointer, between two calls. -/
theorem cases (h : m.Ring kmalloc cells n x y q) (hx : x < n) (hy : y < n) :
    x + q.length < n ∧ y = x + q.length ∨ n ≤ x + q.length ∧ y = x + q.length - n := by
  have hstop := h.stop_eq
  rw [Nat.mod_eq_of_lt hx, Nat.mod_eq_of_lt hy] at hstop
  rw [hstop]
  exact stop_cases hx h.length_lt

/-- The pointers meet when the ring is empty, and at no other time. -/
theorem rp_eq_wp_iff (h : m.Ring kmalloc cells n x y q) (hx : x < n) (hy : y < n) :
    m.dev.rp = m.dev.wp ↔ q = [] := by
  have hlen := h.length_lt
  rw [h.rp_eq, h.wp_eq, ← List.length_eq_zero_iff]
  rcases h.cases hx hy with hcases | hcases <;> omega

/-- One cell of the ring is never used. -/
theorem spacefree_eq (h : m.Ring kmalloc cells n x y q) (hx : x < n) (hy : y < n) :
    m.dev.spacefree = n - 1 - q.length := by
  have hlen := h.length_lt
  rcases ScullPipe.spacefree_cases h.buffersize_eq h.rp_eq h.wp_eq hx h.wp_le with
    hspace | hspace | hspace <;> rcases h.cases hx hy with hcases | hcases <;> omega

/-- A write pointer that has not wrapped does not feign a full ring. -/
theorem full_of_spacefree (h : m.Ring kmalloc cells n x y q) (hx : x < n)
    (hfull : m.dev.spacefree = 0) : q.length + 1 = n := by
  rcases Nat.lt_or_eq_of_le h.wp_le with hy | hy
  · have hspace := h.spacefree_eq hx hy
    have hlen := h.length_lt
    omega
  · have hstop := h.stop_eq
    rw [Nat.mod_eq_of_lt hx, hy, Nat.mod_self] at hstop
    have hpos := h.pos
    have hlen := h.length_lt
    rcases ScullPipe.spacefree_cases h.buffersize_eq h.rp_eq h.wp_eq hx h.wp_le with
      hspace | hspace | hspace <;> rcases stop_cases hx hlen with hcases | hcases <;> omega

/-- A read pointer that has not wrapped does not feign an empty ring. -/
theorem ne_of_rp_eq (h : m.Ring kmalloc cells n x y q) (hx : x = n) (hy : y < n) :
    m.dev.rp ≠ m.dev.wp := by
  rw [h.rp_eq, h.wp_eq]
  omega

/-- A write pointer that has not wrapped feigns no empty ring. -/
theorem nil_of_rp_eq_wp (h : m.Ring kmalloc cells n x y q) (hx : x < n)
    (heq : m.dev.rp = m.dev.wp) : q = [] := by
  rw [h.rp_eq, h.wp_eq] at heq
  exact (h.rp_eq_wp_iff hx (by omega)).mp (by rw [h.rp_eq, h.wp_eq]; exact heq)

/-! ## The copies -/

theorem readCount_spec (h : m.Ring kmalloc cells n x y q) (hx : x < n) (hy : y < n)
    (hne : q ≠ []) (count : Nat) :
    m.dev.readCount count ≤ q.length ∧ x + m.dev.readCount count ≤ n ∧
      m.dev.readCount count ≤ count ∧ (0 < count → 0 < m.dev.readCount count) := by
  have hlen := h.length_lt
  have hpos : 0 < q.length := List.length_pos_iff.mpr hne
  have hn := h.lt
  have hcases := h.cases hx hy
  unfold ScullPipe.readCount
  rw [h.wp_eq, h.rp_eq, h.bufEnd_eq]
  split
  · rename_i hgt
    rw [sizeT_sub (by omega) (by omega)]
    omega
  · rename_i hle
    rw [sizeT_sub (by omega) (by omega)]
    omega

theorem writeCount_spec (h : m.Ring kmalloc cells n x y q) (hx : x < n) (hy : y < n)
    (hroom : q.length + 1 < n) (count : Nat) :
    q.length + m.dev.writeCount count < n ∧ y + m.dev.writeCount count ≤ n ∧
      m.dev.writeCount count ≤ count ∧ (0 < count → 0 < m.dev.writeCount count) := by
  have hn := h.lt
  have hcases := h.cases hx hy
  have hspace : sizeT m.dev.spacefree = n - 1 - q.length := by
    rw [h.spacefree_eq hx hy, show (n : Int) - 1 - q.length = ((n - 1 - q.length : Nat) : Int) by
      omega]
    exact sizeT_of_lt (by omega)
  unfold ScullPipe.writeCount
  simp only [hspace, h.wp_eq, h.rp_eq, h.bufEnd_eq]
  split
  · rename_i hge
    rw [sizeT_sub (by omega) (by omega)]
    omega
  · rename_i hlt
    rw [show (x : Int) - y - 1 = ((x - 1 : Nat) : Int) - y by omega,
      sizeT_sub (by omega) (by omega)]
    omega

theorem load_spec (h : m.Ring kmalloc cells n x y q) (hx : x < n) {k : Nat} (hk : k ≤ q.length)
    (hpiece : x + k ≤ n) : m.load m.dev.rp k = .ok (q.take k) := by
  have hcarries := h.carries
  rw [Nat.mod_eq_of_lt hx] at hcarries
  have hbytes := (hcarries.take hk hpiece).1
  have hlen : (q.take k).length = k := by
    rw [List.length_take]
    omega
  rw [load, h.rp_eq, if_neg (by omega), Int.toNat_natCast]
  have hload := h.owns.load List.mem_cons_self x (q.take k) (by rw [hlen]; exact hbytes)
  rwa [hlen] at hload

/-- The copy of `scull_p_read`: the caller gets the oldest bytes, or nothing moves. -/
theorem transferRead_spec (h : m.Ring kmalloc cells n x y q) (hx : x < n) (hy : y < n)
    (hne : q ≠ []) (count uncopied : Nat) :
    ∃ k, k ≤ q.length ∧ k ≤ count ∧ (0 < count → 0 < k) ∧
      (m.transferRead count uncopied = .ok (none, m) ∨
        ∃ m', m.transferRead count uncopied = .ok (some (q.take k), m') ∧
          m'.dev.nreaders = m.dev.nreaders ∧ m'.dev.nwriters = m.dev.nwriters ∧
          m'.Ring kmalloc cells n (x + k) y (q.drop k)) := by
  obtain ⟨hk, hpiece, hle, hpos⟩ := h.readCount_spec hx hy hne count
  refine ⟨m.dev.readCount count, hk, hle, hpos, ?_⟩
  unfold transferRead
  simp only [h.load_spec hx hk hpiece, ok_bind, pure_eq_ok]
  split
  · exact Or.inl rfl
  · right
    refine ⟨_, rfl, rfl, rfl, ?_⟩
    have hcarries := h.carries
    have hstop := h.stop_eq
    rw [Nat.mod_eq_of_lt hx] at hcarries hstop
    have htake := (hcarries.take hk hpiece).2
    constructor
    · exact ⟨⟨h.buffer_ne, h.owns, h.length_le⟩, h.pos, h.le, h.buffersize_eq, h.bufEnd_eq⟩
    · show m.dev.rp + _ = _
      rw [h.rp_eq, Nat.cast_add]
    · exact h.wp_eq
    · exact hpiece
    · exact h.wp_le
    · exact htake
    · rw [hstop, List.length_drop]
      exact (stop_take hk).symm

/-- The copy of `scull_p_write`: bytes come behind the others, or nothing moves. -/
theorem transferWrite_spec (h : m.Ring kmalloc cells n x y q) (hx : x < n) (hy : y < n)
    (hroom : q.length + 1 < n) (buf : List Byte) (uncopied : Nat) :
    ∃ k cells' m', k ≤ buf.length ∧ (buf ≠ [] → 0 < k) ∧
      m'.dev.nreaders = m.dev.nreaders ∧ m'.dev.nwriters = m.dev.nwriters ∧
      (m.transferWrite buf uncopied = .ok (none, m') ∧ m'.Ring kmalloc cells' n x y q ∨
        m.transferWrite buf uncopied = .ok (some (buf.take k), m') ∧
          m'.Ring kmalloc cells' n x (y + k) (q ++ buf.take k)) := by
  obtain ⟨hk, hpiece, hle, hpos⟩ := h.writeCount_spec hx hy hroom buf.length
  have hcarries := h.carries
  have hstop := h.stop_eq
  rw [Nat.mod_eq_of_lt hx] at hcarries hstop
  rw [Nat.mod_eq_of_lt hy] at hstop
  let k := m.dev.writeCount buf.length
  let left := (copyFromUser (buf.take k) uncopied).1
  let ys := (copyFromUser (buf.take k) uncopied).2
  have hys : ys.length = k := by
    show (copyFromUser (buf.take k) uncopied).2.length = k
    rw [length_copyFromUser, List.length_take]
    omega
  have hcap := hcarries.cap_le
  have hput := @Carries.put _ _ _ _ _ hcarries ys (by omega) (by omega)
  rw [← hstop] at hput
  obtain ⟨heap, hstore, howns⟩ := h.owns.store y ys (by omega)
  have hstore' : m.store m.dev.wp ys = .ok heap := by
    rw [store, h.wp_eq, if_neg (by omega), Int.toNat_natCast]
    exact hstore
  have hlen' : (splice cells y (ys.map some)).length = cells.length :=
    length_splice (by rw [List.length_map]; omega)
  have hle' : (splice cells y (ys.map some)).length ≤ kmalloc.maxSize := by
    rw [hlen']
    exact h.length_le
  let refused : PipeMem := { m with heap := heap }
  let accepted : PipeMem := ⟨heap, { m.dev with wp := m.dev.wp + k }⟩
  have hrun : m.transferWrite buf uncopied =
      if left ≠ 0 then .ok (none, refused) else .ok (some (buf.take k), accepted) := by
    show (m.store m.dev.wp ys >>= _) = _
    rw [hstore']
    rfl
  by_cases hleft : left = 0
  · have hall : ys = buf.take k := copyFromUser_of_zero hleft
    rw [hall] at hput howns hlen' hle'
    refine ⟨k, splice cells y ((buf.take k).map some), accepted, hle,
      fun hne => hpos (List.length_pos_iff.mpr hne), rfl, rfl,
      Or.inr ⟨by rw [hrun, if_neg (not_not_intro hleft)], ?_⟩⟩
    constructor
    · exact ⟨⟨h.buffer_ne, howns, hle'⟩, h.pos, by rw [hlen']; exact h.le, h.buffersize_eq,
        h.bufEnd_eq⟩
    · exact h.rp_eq
    · show m.dev.wp + _ = _
      rw [h.wp_eq, Nat.cast_add]
    · exact h.rp_le
    · exact hpiece
    · rw [Nat.mod_eq_of_lt hx]
      exact hput
    · rw [Nat.mod_eq_of_lt hx, List.length_append, stop_add, ← hstop, List.length_take,
        Nat.min_eq_left hle]
      rfl
  · refine ⟨k, splice cells y (ys.map some), refused, hle,
      fun hne => hpos (List.length_pos_iff.mpr hne), rfl, rfl,
      Or.inl ⟨by rw [hrun, if_pos hleft], ?_⟩⟩
    constructor
    · exact ⟨⟨h.buffer_ne, howns, hle'⟩, h.pos, by rw [hlen']; exact h.le, h.buffersize_eq,
        h.bufEnd_eq⟩
    · exact h.rp_eq
    · exact h.wp_eq
    · exact h.rp_le
    · exact h.wp_le
    · rw [Nat.mod_eq_of_lt hx]
      exact hput.left
    · exact h.stop_eq

/-! ## The wraps -/

theorem wrapRead_spec (h : m.Ring kmalloc cells n x y q) :
    m.wrapRead.Ring kmalloc cells n (x % n) y q := by
  have hpos := h.pos
  have hlt : x % n < n := Nat.mod_lt _ hpos
  unfold wrapRead
  rw [h.rp_eq, h.bufEnd_eq]
  split
  · rename_i heq
    have hzero : x % n = 0 := by
      rw [show x = n by omega, Nat.mod_self]
    have hcarries := h.carries
    have hstop := h.stop_eq
    rw [hzero] at hcarries hstop ⊢
    constructor
    · exact ⟨⟨h.buffer_ne, h.owns, h.length_le⟩, h.pos, h.le, h.buffersize_eq, h.bufEnd_eq⟩
    · rfl
    · exact h.wp_eq
    · omega
    · exact h.wp_le
    · rw [Nat.zero_mod]
      exact hcarries
    · rw [Nat.zero_mod]
      exact hstop
  · rename_i hne
    have hle := h.rp_le
    rw [Nat.mod_eq_of_lt (by omega)]
    exact h

theorem wrapWrite_spec (h : m.Ring kmalloc cells n x y q) :
    m.wrapWrite.Ring kmalloc cells n x (y % n) q := by
  have hpos := h.pos
  unfold wrapWrite
  rw [h.wp_eq, h.bufEnd_eq]
  split
  · rename_i heq
    have hzero : y % n = 0 := by
      rw [show y = n by omega, Nat.mod_self]
    have hstop := h.stop_eq
    rw [hzero] at hstop ⊢
    constructor
    · exact ⟨⟨h.buffer_ne, h.owns, h.length_le⟩, h.pos, h.le, h.buffersize_eq, h.bufEnd_eq⟩
    · exact h.rp_eq
    · rfl
    · exact h.rp_le
    · omega
    · exact h.carries
    · rw [Nat.zero_mod]
      exact hstop
  · rename_i hne
    have hle := h.wp_le
    rw [Nat.mod_eq_of_lt (by omega)]
    exact h

end PipeMem.Ring

end Ring

end AesdChar.Scull
