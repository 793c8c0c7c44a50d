import Mathlib.Tactic.Common
import Mathlib.Tactic.NormNum.Basic

/-!
# C integers on a 64-bit machine

`sizeT` and `signed64` are the conversions of a mathematical integer to
`size_t` and to the signed 64-bit types `ssize_t` and `loff_t`, and `int32` is the
one to `int`.  They wrap.  A lemma beside each says when nothing wraps.
-/

namespace CodeLib.CInt

/-- Conversion to `size_t`. -/
def sizeT (x : Int) : Nat := (x % 2 ^ 64).toNat

/-- Conversion to `ssize_t` or `loff_t`. -/
def signed64 (x : Int) : Int := Int.bmod x (2 ^ 64)

/-- Conversion to `uint32_t`. -/
def uint32 (x : Int) : Nat := (x % 2 ^ 32).toNat

/-- Conversion to `int`. -/
def int32 (x : Int) : Int := Int.bmod x (2 ^ 32)

theorem sizeT_lt (x : Int) : sizeT x < 2 ^ 64 := by
  unfold sizeT
  omega

theorem sizeT_of_lt {n : Nat} (h : n < 2 ^ 64) : sizeT (n : Int) = n := by
  unfold sizeT
  omega

/-- A difference that is not negative does not wrap. -/
theorem sizeT_sub {a b : Nat} (hba : b ≤ a) (ha : a < 2 ^ 64) :
    sizeT ((a : Int) - b) = a - b := by
  unfold sizeT
  omega

theorem signed64_of_lt {n : Nat} (h : n < 2 ^ 63) : signed64 (n : Int) = n := by
  unfold signed64
  rw [Int.bmod_eq_of_le] <;> omega

/-- A sum that stays in range does not wrap. -/
theorem signed64_add_of_lt {a b : Nat} (h : a + b < 2 ^ 63) :
    signed64 ((a : Int) + b) = ((a + b : Nat) : Int) := by
  rw [← Nat.cast_add]
  exact signed64_of_lt h

/-- The range of the signed 64-bit types. -/
def IsSigned64 (x : Int) : Prop := -2 ^ 63 ≤ x ∧ x < 2 ^ 63

theorem isSigned64_of_lt {n : Nat} (h : n < 2 ^ 63) : IsSigned64 n := by
  unfold IsSigned64
  omega

theorem isSigned64_zero : IsSigned64 0 := isSigned64_of_lt (n := 0) (by decide)

theorem isSigned64_toInt (x : Int64) : IsSigned64 x.toInt := ⟨x.le_toInt, x.toInt_lt⟩

theorem isSigned64_signed64 (x : Int) : IsSigned64 (signed64 x) := by
  unfold IsSigned64 signed64
  constructor
  · exact Int.le_bmod (by decide)
  · exact Int.bmod_lt (by decide)

/-- A value in range is kept. -/
theorem signed64_of_isSigned64 {x : Int} (h : IsSigned64 x) : signed64 x = x := by
  unfold IsSigned64 at h
  unfold signed64
  rw [Int.bmod_eq_of_le] <;> omega

/-- Above the range one period is lost. -/
theorem signed64_of_ge {x : Int} (hge : 2 ^ 63 ≤ x) (hlt : x < 2 ^ 64) :
    signed64 x = x - 2 ^ 64 := by
  have hlow : signed64 (x - 2 ^ 64) = x - 2 ^ 64 :=
    signed64_of_isSigned64 (by unfold IsSigned64; omega)
  rw [← hlow]
  exact (Int.sub_bmod_right x (2 ^ 64)).symm

/-- A negative value becomes a large `size_t`. -/
theorem sizeT_of_neg {x : Int} (hx : IsSigned64 x) (hneg : x < 0) : 2 ^ 63 ≤ sizeT x := by
  unfold IsSigned64 at hx
  unfold sizeT
  omega

theorem uint32_of_lt {n : Nat} (h : n < 2 ^ 32) : uint32 (n : Int) = n := by
  unfold uint32
  omega

/-- An `int` keeps a value in its range. -/
theorem int32_of_range {x : Int} (hge : -2 ^ 31 ≤ x) (hlt : x < 2 ^ 31) : int32 x = x := by
  unfold int32
  rw [Int.bmod_eq_of_le] <;> omega

theorem int32_of_lt {n : Nat} (h : n < 2 ^ 31) : int32 (n : Int) = n :=
  int32_of_range (by omega) (by omega)

end CodeLib.CInt
