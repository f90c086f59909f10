import ServiceVm.Word

/-!
# Words as integers

Operations read a word as an integer of 32 or 64 bits, without or with a sign. `Reading.value` is the
integer that is read, and `Reading.word` the word that an operation makes of its result. Integers that
can be read are told apart by their remainders, so it is enough to follow these through an operation.
-/
namespace ServiceVm

namespace Word

theorem toNat_ofInt (z : Int) : ((UInt64.ofInt z).toNat : Int) = z % UInt64.size := by
  rw [UInt64.ofInt, UInt64.toNat_ofNat', UInt64.size]
  omega

theorem toNat_ofInt32 (z : Int) : ((UInt32.ofInt z).toNat : Int) = z % UInt32.size := by
  rw [UInt32.ofInt, UInt32.toNat_ofNat', UInt32.size]
  omega

theorem signed_eq (a : UInt64) : signed a = Int.bmod a.toNat UInt64.size := by
  rw [signed, Int64.toInt, UInt64.toBitVec_toInt64, BitVec.toInt_eq_toNat_bmod]
  rfl

theorem signed32_eq (a : UInt32) : signed32 a = Int.bmod a.toNat UInt32.size := by
  rw [signed32, Int32.toInt, UInt32.toBitVec_toInt32, BitVec.toInt_eq_toNat_bmod]
  rfl

/-- A word is given by an integer that it is congruent to. -/
theorem ofInt_eq {z : Int} {a : UInt64} (same : z % UInt64.size = a.toNat) : UInt64.ofInt z = a := by
  apply UInt64.toNat_inj.mp
  have word := toNat_ofInt z
  omega

theorem ofInt32_eq {z : Int} {a : UInt32} (same : z % UInt32.size = a.toNat) : UInt32.ofInt z = a := by
  apply UInt32.toNat_inj.mp
  have word := toNat_ofInt32 z
  omega

theorem ofInt_natCast (n : Nat) : UInt64.ofInt n = UInt64.ofNat n := by
  apply ofInt_eq
  rw [UInt64.toNat_ofNat']
  rfl

theorem ofInt_toNat (a : UInt64) : UInt64.ofInt a.toNat = a := by
  rw [ofInt_natCast, UInt64.ofNat_toNat]

theorem ofInt_signed (a : UInt64) : UInt64.ofInt (signed a) = a := by
  apply ofInt_eq
  rw [signed_eq, Int.bmod_emod]
  exact Int.emod_eq_of_lt (Int.natCast_nonneg _) (Int.ofNat_lt.mpr a.toNat_lt)

theorem ofInt32_toNat (a : UInt32) : UInt32.ofInt a.toNat = a :=
  ofInt32_eq (Int.emod_eq_of_lt (Int.natCast_nonneg _) (Int.ofNat_lt.mpr a.toNat_lt))

theorem ofInt32_signed32 (a : UInt32) : UInt32.ofInt (signed32 a) = a := by
  apply ofInt32_eq
  rw [signed32_eq, Int.bmod_emod]
  exact Int.emod_eq_of_lt (Int.natCast_nonneg _) (Int.ofNat_lt.mpr a.toNat_lt)

end Word

/-- How an operation reads a word: as 32 or 64 bits, without or with a sign. -/
inductive Reading where
  | u32 | s32 | u64 | s64
deriving DecidableEq, Repr

namespace Reading

variable {r : Reading} {x y : Int}

def isSigned : Reading → Bool
  | .s32 | .s64 => true
  | .u32 | .u64 => false

/-- Number of integers that can be read. -/
def size : Reading → Nat
  | .u32 | .s32 => UInt32.size
  | .u64 | .s64 => UInt64.size

/-- The smallest integer that can be read. -/
def least (r : Reading) : Int := if r.isSigned then -((r.size / 2 : Nat) : Int) else 0

/-- The integer that the low bits of a word stand for. -/
def value (r : Reading) (a : UInt64) : Int :=
  if r.isSigned then Int.bmod a.toNat r.size else (a.toNat % r.size : Nat)

/-- The word that stands for an integer. One of 32 bits has the sign of its low half. -/
def word (r : Reading) (z : Int) : UInt64 :=
  match r with
  | .u32 | .s32 => Word.extend32 (UInt32.ofInt z)
  | .u64 | .s64 => UInt64.ofInt z

/-- Whether the integer can be read. -/
def Holds (r : Reading) (z : Int) : Prop := r.least ≤ z ∧ z < r.least + r.size

instance (r : Reading) (z : Int) : Decidable (r.Holds z) := inferInstanceAs (Decidable (_ ∧ _))

theorem holds_s32 : s32.Holds x ↔ -2147483648 ≤ x ∧ x < 2147483648 := Iff.rfl

theorem holds_s64 : s64.Holds x ↔ -9223372036854775808 ≤ x ∧ x < 9223372036854775808 := Iff.rfl

theorem holds_u64 : u64.Holds x ↔ 0 ≤ x ∧ x < 18446744073709551616 := Iff.rfl

theorem holds_value (r : Reading) (a : UInt64) : r.Holds (r.value a) := by
  have positive : 0 < r.size := by cases r <;> decide
  have even : r.size % 2 = 0 := by cases r <;> decide
  rw [Holds, value, least]
  split
  · have low := Int.le_bmod (x := a.toNat) positive
    have high := Int.bmod_lt (x := a.toNat) positive
    omega
  · have := Nat.mod_lt a.toNat positive
    omega

theorem value_emod (r : Reading) (a : UInt64) : r.value a % r.size = a.toNat % r.size := by
  rw [value]
  split
  · exact Int.bmod_emod
  · simp

theorem eq_of_emod_eq (left : r.Holds x) (right : r.Holds y) (same : x % r.size = y % r.size) : x = y := by
  rw [Holds] at left right
  have shifted : (x - r.least) % r.size = (y - r.least) % r.size := by
    rw [Int.sub_emod, same, ← Int.sub_emod]
  rw [Int.emod_eq_of_lt (by omega) (by omega), Int.emod_eq_of_lt (by omega) (by omega)] at shifted
  omega

theorem word_emod (r : Reading) (z : Int) : (r.word z).toNat % r.size = z % r.size := by
  have divides : (UInt32.size : Int) ∣ UInt64.size := by decide
  cases r with
  | u32 | s32 =>
    simp only [word, Word.extend32, size]
    rw [Word.toNat_ofInt, Int.emod_emod_of_dvd _ divides, Word.signed32_eq, Int.bmod_emod,
      Word.toNat_ofInt32, Int.emod_emod]
  | u64 | s64 =>
    simp only [word, size]
    rw [Word.toNat_ofInt, Int.emod_emod]

/-- Between zero and an integer that can be read, all can be read. -/
theorem Holds.towardZero {z : Int} (holds : r.Holds x) (between : 0 ≤ z ∧ z ≤ x ∨ x ≤ z ∧ z ≤ 0) :
    r.Holds z := by
  have zero : r.Holds 0 := by cases r <;> decide
  rw [Holds] at *
  omega

/-- The word of an integer that can be read stands for it. -/
theorem value_word {z : Int} (holds : r.Holds z) : r.value (r.word z) = z := by
  apply eq_of_emod_eq (r.holds_value _) holds
  rw [value_emod, word_emod]

theorem value_ofInt {z : Int} (holds : r.Holds z) : r.value (UInt64.ofInt z) = z := by
  have divides : (r.size : Int) ∣ UInt64.size := by cases r <;> decide
  apply eq_of_emod_eq (r.holds_value _) holds
  rw [value_emod, Word.toNat_ofInt, Int.emod_emod_of_dvd _ divides]

theorem value_eq_zero (r : Reading) (a : UInt64) : r.value a = 0 ↔ a.toNat % r.size = 0 := by
  have zero : r.Holds 0 := by cases r <;> decide
  have same := r.value_emod a
  constructor
  · intro nothing
    rw [nothing, Int.zero_emod] at same
    omega
  · intro nothing
    apply eq_of_emod_eq (r.holds_value a) zero
    rw [same, Int.zero_emod]
    omega

theorem value_s64 (a : UInt64) : s64.value a = Word.signed a := by
  rw [Word.signed_eq, value, if_pos (show s64.isSigned = true from rfl), size]

theorem value_s32 (a : UInt64) : s32.value a = Word.signed32 a.toUInt32 := by
  rw [Word.signed32_eq, UInt64.toNat_toUInt32, Int.natCast_emod, value,
    if_pos (show s32.isSigned = true from rfl), size]
  exact (Int.emod_bmod ..).symm

theorem value_u64 (a : UInt64) : u64.value a = a.toNat :=
  congrArg Nat.cast (Nat.mod_eq_of_lt a.toNat_lt)

theorem value_u32 (a : UInt64) : u32.value a = a.toUInt32.toNat :=
  congrArg Nat.cast a.toNat_toUInt32.symm

/-! ## Words of 32 bits -/

theorem holds_signed32 (a : UInt32) : s32.Holds (Word.signed32 a) := by
  have := s32.holds_value a.toUInt64
  rwa [value_s32, UInt32.toUInt32_toUInt64] at this

/-- Integers of 32 bits stand for themselves in 64 bits, too. -/
theorem Holds.extended {z : Int} (holds : s32.Holds z) :
    s64.value (UInt64.ofInt z) = s32.value (UInt64.ofInt z) := by
  have wide : s64.Holds z := by
    rw [holds_s32] at holds
    rw [holds_s64]
    omega
  rw [value_ofInt wide, value_ofInt holds]

theorem extended_extend32 (a : UInt32) : s64.value (Word.extend32 a) = s32.value (Word.extend32 a) :=
  (holds_signed32 a).extended

theorem extended_allOnes : s64.value Word.allOnes = s32.value Word.allOnes := by decide

theorem extended_shiftArith32 (value amount : UInt64) :
    s64.value (Word.shiftArith32 value amount) = s32.value (Word.shiftArith32 value amount) := by
  apply Holds.extended
  apply (holds_signed32 value.toUInt32).towardZero
  rcases Int.le_total 0 (Word.signed32 value.toUInt32) with above | below
  · exact .inl ⟨Int.le_shiftRight_of_nonneg above, Int.shiftRight_le_of_nonneg above⟩
  · exact .inr ⟨Int.le_shiftRight_of_nonpos below, Int.shiftRight_le_of_nonpos below⟩

end Reading

end ServiceVm
