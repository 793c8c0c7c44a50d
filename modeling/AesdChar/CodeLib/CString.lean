import AesdChar.CodeLib.CInt
import Mathlib.Data.Nat.Digits.Lemmas
import Mathlib.Data.Nat.Digits.Defs

/-!
# Strings and number parsing of the C library

A string is the bytes of a piece of memory up to the first zero byte.
`strncmp` and the conversion `%u` of `sscanf` are the documented functions:
`%u` skips white space, takes an optional sign and reads digits for as long as
there are any; the value saturates like that of `strtoul` and is then cut to
32 bits.

`scanU_decimal` is the round trip: `%u` reads back the decimal digits of a
number below `2 ^ 32`.
-/

namespace CodeLib.CString

open CodeLib.CInt

/-- The string at the start of a piece of memory. -/
def str (mem : List UInt8) : List UInt8 := mem.takeWhile (· ≠ 0)

/-- `strncmp`. -/
def strncmp : (n : Nat) → List UInt8 → List UInt8 → Int
  | n + 1, a :: as, b :: bs =>
    if a ≠ b then (a.toNat : Int) - b.toNat
    else if a = 0 then 0
    else strncmp n as bs
  | _, _, _ => 0

/-- `isspace`, in the C locale. -/
def isSpace (b : UInt8) : Bool := b = 32 || (9 ≤ b && b ≤ 13)

/-- `isdigit`. -/
def isDigit (b : UInt8) : Bool := 48 ≤ b && b ≤ 57

/-- The value of a row of digits. -/
def digitsValue (ds : List UInt8) : Nat :=
  ds.foldl (fun value d => 10 * value + (d.toNat - 48)) 0

/-- The value that `strtoul` gives a row of digits. -/
def strtoul (negative : Bool) (ds : List UInt8) : Nat :=
  let value := digitsValue ds
  if value < 2 ^ 64 then
    if negative then sizeT (-(value : Int)) else value
  else 2 ^ 64 - 1

/-- An optional sign. -/
def scanSign : List UInt8 → Bool × List UInt8
  | 45 :: s => (true, s)
  | 43 :: s => (false, s)
  | s => (false, s)

/-- The conversion `%u`: the value and what follows it. -/
def scanU (s : List UInt8) : Option (Nat × List UInt8) :=
  let (negative, s) := scanSign (s.dropWhile isSpace)
  let ds := s.takeWhile isDigit
  if ds = [] then none else some (uint32 (strtoul negative ds), s.dropWhile isDigit)

/-- `sscanf(s, "%u,%u", &a, &b)`, if it assigns both. -/
def sscanfPair (s : List UInt8) : Option (Nat × Nat) :=
  match scanU s with
  | some (a, 44 :: s) => (scanU s).map fun r => (a, r.1)
  | _ => none

/-- The decimal digits of a number. -/
def decimal (n : Nat) : List UInt8 :=
  if n = 0 then [48] else (Nat.digits 10 n).reverse.map fun d => UInt8.ofNat (48 + d)

/-! ## Lemmas -/

/-- A string that ends in its array does not depend on what lies behind the
array. -/
theorem str_append_of_mem {mem : List UInt8} (h : (0 : UInt8) ∈ mem) (behind : List UInt8) :
    str (mem ++ behind) = str mem := by
  obtain ⟨x, y, rfl, hx⟩ := List.eq_append_cons_of_mem h
  have hpos : ∀ b ∈ x, decide (b ≠ 0) = true := by
    intro b hb
    exact decide_eq_true fun hzero => hx (hzero ▸ hb)
  rw [List.append_assoc, str, str, List.takeWhile_append_of_pos hpos,
    List.takeWhile_append_of_pos hpos]
  rfl

/-- A string that does not end in its array goes on behind it. -/
theorem str_append_of_notMem {mem : List UInt8} (h : (0 : UInt8) ∉ mem) (behind : List UInt8) :
    str (mem ++ behind) = mem ++ str behind :=
  List.takeWhile_append_of_pos fun _ hb => decide_eq_true fun hzero => h (hzero ▸ hb)

/-- What lies behind an array does not matter exactly if a zero byte is in it. -/
theorem str_append_eq_iff {mem : List UInt8} :
    (∀ behind, str (mem ++ behind) = str mem) ↔ (0 : UInt8) ∈ mem := by
  constructor
  · intro hall
    by_contra hmem
    have hone := hall [1]
    have hnil := str_append_of_notMem hmem []
    rw [List.append_nil] at hnil
    rw [str_append_of_notMem hmem, hnil] at hone
    have hlen := congrArg List.length (List.append_cancel_left hone)
    exact absurd hlen (by decide)
  · exact str_append_of_mem

/-- Where the second string has `n` bytes and no zero byte, `strncmp` tests
for a prefix. -/
theorem strncmp_eq_zero_iff {s t : List UInt8} (hs : t.length ≤ s.length) (ht : (0 : UInt8) ∉ t) :
    strncmp t.length s t = 0 ↔ t <+: s := by
  induction t generalizing s with
  | nil => simp [strncmp]
  | cons b bs ih =>
    cases s with
    | nil => simp at hs
    | cons a as =>
      rw [List.mem_cons, not_or] at ht
      rw [List.length_cons, strncmp, List.cons_prefix_cons]
      by_cases hab : a = b
      · subst hab
        simp only [ne_eq, not_true_eq_false, if_false, Ne.symm ht.1, true_and]
        exact ih (Nat.le_of_succ_le_succ hs) ht.2
      · have hne : a.toNat ≠ b.toNat := fun h => hab (UInt8.toNat_inj.mp h)
        simp only [ne_eq, hab, not_false_eq_true, if_true, Ne.symm hab, false_and, iff_false]
        omega

theorem isDigit_iff {b : UInt8} : isDigit b = true ↔ 48 ≤ b.toNat ∧ b.toNat ≤ 57 := by
  rw [isDigit, Bool.and_eq_true, decide_eq_true_eq, decide_eq_true_eq, UInt8.le_iff_toNat_le,
    UInt8.le_iff_toNat_le]
  exact Iff.rfl

/-- A digit is neither white space nor a sign. -/
theorem isSpace_of_isDigit {b : UInt8} (h : isDigit b = true) : isSpace b = false := by
  have hb := isDigit_iff.mp h
  rw [← Bool.not_eq_true, isSpace, Bool.or_eq_true, Bool.and_eq_true, decide_eq_true_eq,
    decide_eq_true_eq, decide_eq_true_eq, UInt8.le_iff_toNat_le, UInt8.le_iff_toNat_le]
  rintro (rfl | ⟨-, hle⟩)
  · exact absurd hb (by decide)
  · have : b.toNat ≤ 13 := hle
    omega

theorem scanSign_of_isDigit {b : UInt8} (h : isDigit b = true) (s : List UInt8) :
    scanSign (b :: s) = (false, b :: s) := by
  unfold scanSign
  split
  · rename_i heq
    cases heq
    exact absurd h (by decide)
  · rename_i heq
    cases heq
    exact absurd h (by decide)
  · rfl

/-- A digit below ten as a byte. -/
private theorem toNat_digit {d : Nat} (h : d < 10) : (UInt8.ofNat (48 + d)).toNat = 48 + d := by
  rw [UInt8.toNat_ofNat_of_lt' (by simp [UInt8.size]; omega)]

private theorem isDigit_digit {d : Nat} (h : d < 10) : isDigit (UInt8.ofNat (48 + d)) = true := by
  rw [isDigit_iff, toNat_digit h]
  omega

theorem isDigit_of_mem_decimal {n : Nat} : ∀ b ∈ decimal n, isDigit b = true := by
  intro b hb
  unfold decimal at hb
  split at hb
  · rw [List.mem_singleton.mp hb]
    decide
  · obtain ⟨d, hd, rfl⟩ := List.mem_map.mp hb
    exact isDigit_digit (Nat.digits_lt_base (by decide) (List.mem_reverse.mp hd))

theorem decimal_ne_nil (n : Nat) : decimal n ≠ [] := by
  unfold decimal
  split
  · simp
  · rename_i h
    rw [Ne, List.map_eq_nil_iff, List.reverse_eq_nil_iff]
    exact Nat.digits_ne_nil_iff_ne_zero.mpr h

/-- The digits have the value of the number. -/
theorem digitsValue_decimal (n : Nat) : digitsValue (decimal n) = n := by
  unfold decimal
  split
  · rename_i h
    rw [h]
    decide
  · have hfold : ∀ ds : List Nat, (∀ d ∈ ds, d < 10) →
        digitsValue (ds.reverse.map fun d => UInt8.ofNat (48 + d)) = Nat.ofDigits 10 ds := by
      intro ds hds
      induction ds with
      | nil => rfl
      | cons d ds ih =>
        have hd := toNat_digit (hds d List.mem_cons_self)
        have ih := ih fun d' hd' => hds d' (List.mem_cons_of_mem _ hd')
        rw [digitsValue] at ih ⊢
        rw [List.reverse_cons, List.map_append, List.foldl_append, ih, List.map_singleton,
          List.foldl_cons, List.foldl_nil, hd, Nat.ofDigits_cons]
        simp
        omega
    rw [hfold _ fun d hd => Nat.digits_lt_base (by decide) hd, Nat.ofDigits_digits]

/-- A number below `2 ^ 32` has at most ten digits. -/
theorem length_decimal_le {n : Nat} (h : n < 2 ^ 32) : (decimal n).length ≤ 10 := by
  unfold decimal
  split
  · decide
  · rw [List.length_map, List.length_reverse, Nat.digits_length_le_iff (by decide)]
    exact Nat.lt_trans h (by decide)

/-- `%u` reads the digits of a number back. -/
theorem scanU_decimal {n : Nat} (hn : n < 2 ^ 32) {rest : List UInt8}
    (hrest : ∀ b ∈ rest.head?, isDigit b = false) :
    scanU (decimal n ++ rest) = some (n, rest) := by
  have hdigits := isDigit_of_mem_decimal (n := n)
  have hvalue : uint32 (strtoul false (decimal n)) = n := by
    have hlt : n < 2 ^ 64 := Nat.lt_trans hn (by decide)
    rw [strtoul, digitsValue_decimal, if_pos hlt, if_neg Bool.false_ne_true, uint32_of_lt hn]
  have htake : rest.takeWhile isDigit = [] ∧ rest.dropWhile isDigit = rest := by
    cases rest with
    | nil => exact ⟨rfl, rfl⟩
    | cons b bs =>
      have hb : isDigit b = false := hrest b rfl
      simp [hb]
  have hstart : scanSign ((decimal n ++ rest).dropWhile isSpace) = (false, decimal n ++ rest) := by
    rcases hdec : decimal n with _ | ⟨d, ds⟩
    · exact absurd hdec (decimal_ne_nil n)
    · have hd : isDigit d = true := hdigits d (by rw [hdec]; exact List.mem_cons_self)
      rw [List.cons_append, List.dropWhile_cons_of_neg (by simp [isSpace_of_isDigit hd])]
      exact scanSign_of_isDigit hd _
  rw [scanU, hstart]
  simp only [List.takeWhile_append_of_pos hdigits, List.dropWhile_append_of_pos hdigits, htake.1,
    htake.2, List.append_nil, decimal_ne_nil n, if_false, hvalue]

/-- `sscanf` reads back two numbers with a comma between them. -/
theorem sscanfPair_decimal {a b : Nat} (ha : a < 2 ^ 32) (hb : b < 2 ^ 32) {rest : List UInt8}
    (hrest : ∀ c ∈ rest.head?, isDigit c = false) :
    sscanfPair (decimal a ++ 44 :: (decimal b ++ rest)) = some (a, b) := by
  have hcomma : ∀ c ∈ (44 :: (decimal b ++ rest)).head?, isDigit c = false := by
    intro c hc
    rw [← Option.some.inj hc]
    decide
  rw [sscanfPair, scanU_decimal ha hcomma]
  simp only [scanU_decimal hb hrest, Option.map_some]

end CodeLib.CString
