import ServiceVm.Proofs.Word.Reading

/-!
# Division and multiplication

The four divisions round toward zero and leave a remainder with the sign of what is divided. A zero
divisor and the one quotient that cannot be read have results of their own. The upper half of a product
and the product modulo the size of a word make up the exact product, which has 128 bits.
-/
namespace ServiceVm

namespace Reading

variable {r : Reading} {x y : Int}

def quotient : Reading → BinaryOp
  | .u32 => .divU32
  | .s32 => .divS32
  | .u64 => .divU64
  | .s64 => .divS64

def remainder : Reading → BinaryOp
  | .u32 => .remU32
  | .s32 => .remS32
  | .u64 => .remU64
  | .s64 => .remS64

theorem toUInt32_eq_zero_iff (b : UInt64) : b.toUInt32 = 0 ↔ b.toNat % UInt32.size = 0 := by
  rw [← UInt32.toNat_inj, UInt64.toNat_toUInt32]
  rfl

theorem eq_zero_iff (b : UInt64) : b = 0 ↔ b.toNat % UInt64.size = 0 := by
  rw [Nat.mod_eq_of_lt b.toNat_lt, ← UInt64.toNat_inj]
  rfl

theorem quotient_apply (r : Reading) (a b old : UInt64) :
    r.quotient.apply a b old =
      if r.value b = 0 then Word.allOnes else r.word ((r.value a).tdiv (r.value b)) := by
  simp only [value_eq_zero]
  cases r with
  | u32 =>
    simp only [quotient, BinaryOp.apply, Word.divU32, toUInt32_eq_zero_iff, size, word, value_u32,
      ← Int.ofNat_tdiv, ← UInt32.toNat_div, Word.ofInt32_toNat]
  | s32 => simp only [quotient, BinaryOp.apply, Word.divS32, toUInt32_eq_zero_iff, size, word, value_s32]
  | u64 =>
    simp only [quotient, BinaryOp.apply, Word.divU64, eq_zero_iff, size, word, value_u64,
      ← Int.ofNat_tdiv, ← UInt64.toNat_div, Word.ofInt_toNat]
  | s64 => simp only [quotient, BinaryOp.apply, Word.divS64, eq_zero_iff, size, word, value_s64]

theorem remainder_apply (r : Reading) (a b old : UInt64) :
    r.remainder.apply a b old =
      if r.value b = 0 then r.word (r.value a) else r.word ((r.value a).tmod (r.value b)) := by
  simp only [value_eq_zero]
  cases r with
  | u32 =>
    simp only [remainder, BinaryOp.apply, Word.remU32, toUInt32_eq_zero_iff, size, word, value_u32,
      ← Int.ofNat_tmod, ← UInt32.toNat_mod, Word.ofInt32_toNat]
  | s32 =>
    simp only [remainder, BinaryOp.apply, Word.remS32, toUInt32_eq_zero_iff, size, word, value_s32,
      Word.ofInt32_signed32]
  | u64 =>
    simp only [remainder, BinaryOp.apply, Word.remU64, eq_zero_iff, size, word, value_u64,
      ← Int.ofNat_tmod, ← UInt64.toNat_mod, Word.ofInt_toNat]
  | s64 =>
    simp only [remainder, BinaryOp.apply, Word.remS64, eq_zero_iff, size, word, value_s64,
      Word.ofInt_signed]

/-! ## Quotients and remainders -/

/-- The one quotient that cannot be read. -/
def Overflows (r : Reading) (x y : Int) : Prop := r.isSigned = true ∧ x = r.least ∧ y = -1

theorem tmod_zero_or_sign (x y : Int) : x.tmod y = 0 ∨ (x.tmod y).sign = x.sign := by
  have sign := Int.sign_tmod x y
  split at sign
  · exact .inl (Int.sign_eq_zero_iff_zero.mp sign)
  · exact .inr sign

theorem holds_tmod (holds : r.Holds x) (y : Int) : r.Holds (x.tmod y) := by
  have small : (x.tmod y).natAbs ≤ x.natAbs := by
    rw [Int.natAbs_tmod]
    exact Nat.mod_le _ _
  apply holds.towardZero
  rcases Int.le_total 0 x with positive | negative
  · have := Int.tmod_nonneg y positive
    omega
  · have := Int.tmod_nonneg y (Int.neg_nonneg_of_nonpos negative)
    rw [Int.neg_tmod] at this
    omega

theorem holds_tdiv (left : r.Holds x) (right : r.Holds y) (nonzero : y ≠ 0) (fits : ¬r.Overflows x y) :
    r.Holds (x.tdiv y) := by
  have small := Int.natAbs_tdiv_le_natAbs x y
  rcases Int.lt_or_gt_of_ne nonzero with negative | positive
  · -- Only signed readings have negative divisors, and all but -1 at least halve what they divide.
    have signed : r.isSigned = true := by
      cases r <;> simp [Holds, least, isSigned] at right ⊢ <;> omega
    have half : r.least = -((r.size / 2 : Nat) : Int) := if_pos signed
    have even : r.size % 2 = 0 := by cases r <;> decide
    rw [Holds] at left ⊢
    by_cases one : y = -1
    · have other : x ≠ r.least := fun least => fits ⟨signed, least, one⟩
      rw [one, Int.tdiv_neg, Int.tdiv_one]
      omega
    · have halved : (x.tdiv y).natAbs ≤ x.natAbs / 2 := by
        rw [Int.natAbs_tdiv]
        exact Nat.div_le_div_left (by omega) (by decide)
      have room : 1 < r.size := by cases r <;> decide
      omega
  · apply left.towardZero
    rcases Int.le_total 0 x with above | below
    · have := Int.tdiv_nonneg above (Int.le_of_lt positive)
      omega
    · have := Int.tdiv_nonneg (Int.neg_nonneg_of_nonpos below) (Int.le_of_lt positive)
      rw [Int.neg_tdiv] at this
      omega

/-- What a quotient and a remainder are: they make up what is divided, and the remainder is smaller than
the divisor and has the sign of what is divided. -/
structure Divided (x y quotient remainder : Int) : Prop where
  exact : quotient * y + remainder = x
  small : remainder.natAbs < y.natAbs
  sign : remainder = 0 ∨ remainder.sign = x.sign

theorem divided_apply {a b : UInt64} (old : UInt64) (nonzero : r.value b ≠ 0)
    (fits : ¬r.Overflows (r.value a) (r.value b)) :
    Divided (r.value a) (r.value b) (r.value (r.quotient.apply a b old))
      (r.value (r.remainder.apply a b old)) := by
  have dividend := r.holds_value a
  rw [quotient_apply, if_neg nonzero, value_word (holds_tdiv dividend (r.holds_value b) nonzero fits),
    remainder_apply, if_neg nonzero, value_word (holds_tmod dividend _)]
  refine ⟨Int.tdiv_mul_add_tmod _ _, ?_, tmod_zero_or_sign _ _⟩
  rw [Int.natAbs_tmod]
  exact Nat.mod_lt _ (Int.natAbs_pos.mpr nonzero)

theorem overflow_apply {a b : UInt64} (old : UInt64) (overflows : r.Overflows (r.value a) (r.value b)) :
    r.value (r.quotient.apply a b old) = r.least ∧ r.value (r.remainder.apply a b old) = 0 := by
  obtain ⟨signed, least, minusOne⟩ := overflows
  rw [quotient_apply, remainder_apply, least, minusOne]
  cases r with
  | s32 | s64 => decide
  | u32 | u64 => contradiction

theorem zero_apply {a b : UInt64} (old : UInt64) (zero : r.value b = 0) :
    r.quotient.apply a b old = Word.allOnes ∧ r.value (r.remainder.apply a b old) = r.value a := by
  rw [quotient_apply, if_pos zero, remainder_apply, if_pos zero, value_word (r.holds_value a)]
  exact ⟨rfl, rfl⟩

end Reading

/-- Operations on the low halves of their operands. -/
def BinaryOp.isHalf : BinaryOp → Bool
  | .add32 | .sub32 | .mul32 | .divU32 | .divS32 | .remU32 | .remS32 | .shloL32 | .shloR32 | .sharR32
  | .rotL32 | .rotR32 => true
  | _ => false

theorem BinaryOp.extended_apply {op : BinaryOp} (half : op.isHalf = true) (a b old : UInt64) :
    Reading.s64.value (op.apply a b old) = Reading.s32.value (op.apply a b old) := by
  cases op with
  | divU32 =>
    simp only [apply, Word.divU32]
    split
    · exact Reading.extended_allOnes
    · exact Reading.extended_extend32 _
  | divS32 =>
    simp only [apply, Word.divS32]
    split
    · exact Reading.extended_allOnes
    · exact Reading.extended_extend32 _
  | remU32 =>
    simp only [apply, Word.remU32, ← apply_ite Word.extend32]
    exact Reading.extended_extend32 _
  | remS32 =>
    simp only [apply, Word.remS32, ← apply_ite Word.extend32]
    exact Reading.extended_extend32 _
  | sharR32 => exact Reading.extended_shiftArith32 a b
  | add32 | sub32 | mul32 | shloL32 | shloR32 | rotL32 | rotR32 => exact Reading.extended_extend32 _
  | _ => contradiction

/-! ## Upper halves of products -/

/-- Products of words, by how their factors are read. The upper half has the sign of the first one. -/
inductive Product where
  | ss | uu | su
deriving DecidableEq, Repr

namespace Product

def left : Product → Reading
  | .ss | .su => .s64
  | .uu => .u64

def right : Product → Reading
  | .ss => .s64
  | .uu | .su => .u64

def upper : Product → BinaryOp
  | .ss => .mulUpperSS
  | .uu => .mulUpperUU
  | .su => .mulUpperSU

def whole (k : Product) (a b : UInt64) : Int := k.left.value a * k.right.value b

/-- Whether an integer has 128 bits, with a sign if the first factor has one. -/
def Fits (k : Product) (z : Int) : Prop :=
  if k.left.isSigned then -((Nat.pow 2 127 : Nat) : Int) ≤ z ∧ z < (Nat.pow 2 127 : Nat)
  else 0 ≤ z ∧ z < (Nat.pow 2 128 : Nat)

theorem upper_apply (k : Product) (a b old : UInt64) :
    k.upper.apply a b old = UInt64.ofInt (k.whole a b / UInt64.size) := by
  cases k with
  | ss =>
    simp only [upper, BinaryOp.apply, Word.mulUpperSS, whole, left, right, Reading.value_s64]
    rfl
  | uu =>
    simp only [upper, BinaryOp.apply, Word.mulUpperUU, whole, left, right, Reading.value_u64]
    rw [← Int.natCast_mul, ← Int.natCast_ediv]
    exact (Word.ofInt_natCast _).symm
  | su =>
    simp only [upper, BinaryOp.apply, Word.mulUpperSU, whole, left, right, Reading.value_s64,
      Reading.value_u64]
    rfl

theorem lower_apply (k : Product) (a b old : UInt64) :
    BinaryOp.mul64.apply a b old = UInt64.ofInt (k.whole a b) := by
  rw [whole, UInt64.ofInt_mul]
  cases k <;>
    simp only [left, right, Reading.value_s64, Reading.value_u64, Word.ofInt_signed, Word.ofInt_toNat,
      BinaryOp.apply]

theorem fits_whole (k : Product) (a b : UInt64) : k.Fits (k.whole a b) := by
  have first := k.left.holds_value a
  have second := k.right.holds_value b
  rw [whole, Fits]
  generalize k.left.value a = x at first ⊢
  generalize k.right.value b = y at second ⊢
  have magnitude : (x * y).natAbs = x.natAbs * y.natAbs := Int.natAbs_mul x y
  have signed : Nat.pow 2 127 = 170141183460469231731687303715884105728 := rfl
  have unsigned : Nat.pow 2 128 = 340282366920938463463374607431768211456 := rfl
  cases k with
  | ss =>
    rw [left, Reading.holds_s64] at first
    rw [right, Reading.holds_s64] at second
    have bound : x.natAbs * y.natAbs ≤ 9223372036854775808 * 9223372036854775808 :=
      Nat.mul_le_mul (by omega) (by omega)
    exact ⟨by omega, by omega⟩
  | uu =>
    rw [left, Reading.holds_u64] at first
    rw [right, Reading.holds_u64] at second
    have bound : x.natAbs * y.natAbs ≤ 18446744073709551615 * 18446744073709551615 :=
      Nat.mul_le_mul (by omega) (by omega)
    exact ⟨Int.mul_nonneg first.1 second.1, by omega⟩
  | su =>
    rw [left, Reading.holds_s64] at first
    rw [right, Reading.holds_u64] at second
    have bound : x.natAbs * y.natAbs ≤ 9223372036854775808 * 18446744073709551615 :=
      Nat.mul_le_mul (by omega) (by omega)
    exact ⟨by omega, by omega⟩

/-- The upper half of 128 bits is a word with the sign of the first factor. -/
theorem Fits.holds_upper {k : Product} {z : Int} (fits : k.Fits z) : k.left.Holds (z / UInt64.size) := by
  have signed : Nat.pow 2 127 = 170141183460469231731687303715884105728 := rfl
  have unsigned : Nat.pow 2 128 = 340282366920938463463374607431768211456 := rfl
  rw [UInt64.size]
  cases k with
  | ss | su =>
    have bounds : -((Nat.pow 2 127 : Nat) : Int) ≤ z ∧ z < (Nat.pow 2 127 : Nat) := fits
    rw [left, Reading.holds_s64]
    omega
  | uu =>
    have bounds : 0 ≤ z ∧ z < (Nat.pow 2 128 : Nat) := fits
    rw [left, Reading.holds_u64]
    omega

theorem whole_eq (k : Product) (a b old : UInt64) :
    k.whole a b = k.left.value (k.upper.apply a b old) * UInt64.size +
      (BinaryOp.mul64.apply a b old).toNat := by
  rw [upper_apply, Reading.value_ofInt (k.fits_whole a b).holds_upper, lower_apply k, Word.toNat_ofInt]
  exact (Int.ediv_mul_add_emod ..).symm

end Product

/-- Division and multiplication are those of the integers. A quotient and its remainder make up what is
divided, and the remainder is smaller than the divisor and has the sign of what is divided. The quotient
that cannot be read is the smallest integer, with nothing left, and a zero divisor gives the largest word
and leaves what is divided. Results of 32 bits have the sign of their low halves. The upper half of a
product is its quotient by the size of a word, rounded down, and with the lower half it makes up the
product, which has no more than 128 bits. -/
theorem arithmetic_matches_integers (a b old : UInt64) :
    (∀ r : Reading,
      (r.value b ≠ 0 → ¬r.Overflows (r.value a) (r.value b) →
        Reading.Divided (r.value a) (r.value b) (r.value (r.quotient.apply a b old))
          (r.value (r.remainder.apply a b old))) ∧
      (r.Overflows (r.value a) (r.value b) →
        r.value (r.quotient.apply a b old) = r.least ∧ r.value (r.remainder.apply a b old) = 0) ∧
      (r.value b = 0 →
        (r.quotient.apply a b old).toNat = UInt64.size - 1 ∧
          r.value (r.remainder.apply a b old) = r.value a)) ∧
    (∀ op : BinaryOp, op.isHalf = true →
      Reading.s64.value (op.apply a b old) = Reading.s32.value (op.apply a b old)) ∧
    ∀ k : Product,
      (k.upper.apply a b old).toNat = (k.whole a b).fdiv UInt64.size % UInt64.size ∧
      k.whole a b = k.left.value (k.upper.apply a b old) * UInt64.size +
        (BinaryOp.mul64.apply a b old).toNat ∧
      k.Fits (k.whole a b) := by
  refine ⟨fun r => ⟨Reading.divided_apply old, Reading.overflow_apply old, ?_⟩,
    fun op half => BinaryOp.extended_apply half a b old,
    fun k => ⟨?_, k.whole_eq a b old, k.fits_whole a b⟩⟩
  · intro zero
    obtain ⟨quotient, remainder⟩ := Reading.zero_apply (a := a) old zero
    rw [quotient]
    exact ⟨rfl, remainder⟩
  · rw [k.upper_apply, Word.toNat_ofInt, Int.fdiv_eq_ediv_of_nonneg _ (Int.natCast_nonneg _)]

/-- The smallest integer of 32 bits divided by -1 is itself, also where the upper halves of the words
differ. -/
theorem least_by_minus_one :
    Reading.s32.Overflows (Reading.s32.value 0x180000000) (Reading.s32.value 0x2ffffffff) ∧
      Word.divS32 0x180000000 0x2ffffffff = 0xffffffff80000000 := by
  have overflows : Reading.s32.Overflows (Reading.s32.value 0x180000000) (Reading.s32.value 0x2ffffffff) :=
    ⟨rfl, by decide, by decide⟩
  obtain ⟨divisions, halves, -⟩ := arithmetic_matches_integers 0x180000000 0x2ffffffff 0
  obtain ⟨least, -⟩ := (divisions .s32).2.1 overflows
  have extended := halves .divS32 rfl
  rw [show BinaryOp.divS32.apply 0x180000000 0x2ffffffff 0 = Word.divS32 0x180000000 0x2ffffffff from rfl,
    Reading.value_s64] at extended
  refine ⟨overflows, ?_⟩
  rw [← Word.ofInt_signed (Word.divS32 0x180000000 0x2ffffffff), extended]
  exact congrArg UInt64.ofInt least

end ServiceVm
