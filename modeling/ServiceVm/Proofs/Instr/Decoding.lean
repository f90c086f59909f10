import ServiceVm.Proofs.Instr.Flow
import ServiceVm.Proofs.Word.Reading

/-!
# Decoding

What is fetched at a place depends on the bytes of the instruction there and on nothing after it.

An operation can also be decoded without knowing what its operands are for: `Program.decode?` lays them
out by the shape of the operation alone, with registers as numbers, and `Checked.execute` has to find the
operands that the operation expects. There a mismatch, a number that names no register and an operation
that is missing from a table have no value; no instruction that is decoded comes to any of these.
-/
namespace ServiceVm

/-- Operands as a shape lays them out, with registers as numbers. -/
inductive Args where
  | none
  | immediate (x : UInt64)
  | registerExtendedImmediate (a : Nat) (x : UInt64)
  | twoImmediates (x y : UInt64)
  | offset (target : UInt32)
  | registerImmediate (a : Nat) (x : UInt64)
  | registerTwoImmediates (a : Nat) (x y : UInt64)
  | registerImmediateOffset (a : Nat) (x : UInt64) (target : UInt32)
  | twoRegisters (d a : Nat)
  | twoRegistersImmediate (a b : Nat) (x : UInt64)
  | twoRegistersOffset (a b : Nat) (target : UInt32)
  | twoRegistersTwoImmediates (a b : Nat) (x y : UInt64)
  | threeRegisters (a b d : Nat)
deriving DecidableEq, Repr

namespace Args

def registers : Args → List Nat
  | .none | .immediate _ | .twoImmediates _ _ | .offset _ => []
  | .registerExtendedImmediate a _ | .registerImmediate a _ | .registerTwoImmediates a _ _
  | .registerImmediateOffset a _ _ => [a]
  | .twoRegisters a b | .twoRegistersImmediate a b _ | .twoRegistersOffset a b _
  | .twoRegistersTwoImmediates a b _ _ => [a, b]
  | .threeRegisters a b d => [a, b, d]

def immediates : Args → List UInt64
  | .none | .offset _ | .twoRegisters _ _ | .twoRegistersOffset _ _ _ | .threeRegisters _ _ _ => []
  | .immediate x | .registerExtendedImmediate _ x | .registerImmediate _ x
  | .registerImmediateOffset _ x _ | .twoRegistersImmediate _ _ x => [x]
  | .twoImmediates x y | .registerTwoImmediates _ x y | .twoRegistersTwoImmediates _ _ x y => [x, y]

def targets : Args → List UInt32
  | .offset target | .registerImmediateOffset _ _ target | .twoRegistersOffset _ _ target => [target]
  | _ => []

end Args

/-! ## Operands and their bytes -/

namespace Operands

variable {o o' : Operands}

theorem withOperands_congr (length : o.length = o'.length) (byte : ∀ i, o.byte i = o'.byte i)
    (op : Opcode) (pc : UInt32) : op.withOperands o pc = op.withOperands o' pc := by
  have word (i len : Nat) : o.word i len = o'.word i len := by simp only [word, byte]
  have immediate (i len : Nat) : o.immediate i len = o'.immediate i len := by
    simp only [Operands.immediate, word]
  have target (i len : Nat) : o.target pc i len = o'.target pc i len := by
    simp only [Operands.target, immediate]
  have rest (taken : Nat) : o.restLength taken = o'.restLength taken := by
    simp only [restLength, length]
  have low (i : Nat) : o.lowReg i = o'.lowReg i := by simp only [lowReg, byte]
  have high (i : Nat) : o.highReg i = o'.highReg i := by simp only [highReg, byte]
  cases op <;>
    simp only [Opcode.withOperands, oneImmediate, extendedImmediate, twoImmediates, oneTarget, regImmediate,
      regTwoImmediates, regImmediateTarget, twoRegs, twoRegsTwoImmediates, thirdReg, byte, word, immediate,
      target, rest, low, high]

/-- Numbers past the last register name the last register. -/
def registerNumber (n : Nat) : Nat := min n 12

/-- Lays the operands of the instruction at `pc` out by shape. -/
def read (o : Operands) (pc : UInt32) (shape : Shape) : Args :=
  let low := registerNumber ((o.byte 0).toNat % 16)
  let high := registerNumber ((o.byte 0).toNat / 16)
  match shape with
  | .noArgs => .none
  | .oneImmediate => .immediate (o.immediate 0 (o.restLength 0))
  | .registerExtendedImmediate => .registerExtendedImmediate low (o.word 1 8)
  | .twoImmediates =>
    let l := givenLength (o.byte 0).toNat
    .twoImmediates (o.immediate 1 l) (o.immediate (1 + l) (o.restLength (l + 1)))
  | .oneOffset => .offset (o.target pc 0 (o.restLength 0))
  | .registerImmediate => .registerImmediate low (o.immediate 1 (o.restLength 1))
  | .registerTwoImmediates =>
    let l := givenLength ((o.byte 0).toNat / 16)
    .registerTwoImmediates low (o.immediate 1 l) (o.immediate (1 + l) (o.restLength (l + 1)))
  | .registerImmediateOffset =>
    let l := givenLength ((o.byte 0).toNat / 16)
    .registerImmediateOffset low (o.immediate 1 l) (o.target pc (1 + l) (o.restLength (l + 1)))
  | .twoRegisters => .twoRegisters low high
  | .twoRegistersImmediate => .twoRegistersImmediate low high (o.immediate 1 (o.restLength 1))
  | .twoRegistersOffset => .twoRegistersOffset low high (o.target pc 1 (o.restLength 1))
  | .twoRegistersTwoImmediates =>
    let l := givenLength (o.byte 1).toNat
    .twoRegistersTwoImmediates low high (o.immediate 2 l) (o.immediate (2 + l) (o.restLength (l + 2)))
  | .threeRegisters => .threeRegisters low high (registerNumber (o.byte 1).toNat)

theorem registerNumber_le (n : Nat) : registerNumber n ≤ 12 := Nat.min_le_right _ _

theorem restLength_le (o : Operands) (taken : Nat) : o.restLength taken ≤ 4 := Nat.min_le_right _ _

theorem givenLength_le (n : Nat) : givenLength n ≤ 4 := Nat.min_le_right _ _

theorem registers_read (o : Operands) (pc : UInt32) (shape : Shape) :
    ∀ r ∈ (o.read pc shape).registers, r ≤ 12 := by
  cases shape <;> simp [read, Args.registers, registerNumber_le]

/-- The operand bytes from `i` on. -/
def bytes (o : Operands) (i len : Nat) : List UInt8 := (List.range len).map fun k => o.byte (i + k)

/-- Whether the word is the sign extension of at most four operand bytes. -/
def Short (o : Operands) (x : UInt64) : Prop :=
  ∃ i len, len ≤ 4 ∧
    Word.signed x = Int.bmod (Int.ofNat (LittleEndian.decode (o.bytes i len))) (Nat.pow 256 len)

theorem toNat_word (o : Operands) {i len : Nat} (few : len ≤ 8) :
    (o.word i len).toNat = LittleEndian.decode (o.bytes i len) := by
  have bound := LittleEndian.decode_lt (o.bytes i len)
  have small : Nat.pow 256 (o.bytes i len).length ≤ UInt64.size := by
    rw [bytes, List.length_map, List.length_range]
    exact Nat.pow_le_pow_right (show 0 < 256 by decide) few
  rw [word, Nat.min_eq_left few, ← bytes, UInt64.toNat_ofNat_of_lt' (Nat.lt_of_lt_of_le bound small)]

theorem short_immediate (o : Operands) (i : Nat) {len : Nat} (few : len ≤ 4) :
    o.Short (o.immediate i len) := by
  refine ⟨i, len, few, ?_⟩
  have positive : 0 < Nat.pow 256 len := Nat.pow_pos (by decide)
  have small : Nat.pow 256 len ≤ Nat.pow 256 4 := Nat.pow_le_pow_right (by decide) few
  have limit : Nat.pow 256 4 = 4294967296 := rfl
  have low := Int.le_bmod (x := Int.ofNat (LittleEndian.decode (o.bytes i len))) positive
  have high := Int.bmod_lt (x := Int.ofNat (LittleEndian.decode (o.bytes i len))) positive
  rw [immediate, Word.signExtend, o.toNat_word (by omega), ← Reading.value_s64]
  refine Reading.value_ofInt (Reading.holds_s64.mpr ?_)
  omega

/-- Only one shape has a wider immediate. -/
theorem short_read (o : Operands) (pc : UInt32) {shape : Shape}
    (short : shape ≠ .registerExtendedImmediate) : ∀ x ∈ (o.read pc shape).immediates, o.Short x := by
  cases shape <;> simp [read, Args.immediates, short_immediate, restLength_le, givenLength_le] at short ⊢

theorem targets_read (o : Operands) (pc : UInt32) (shape : Shape) :
    ∀ target ∈ (o.read pc shape).targets, ∃ x, o.Short x ∧ target = pc + x.toUInt32 := by
  have near (i : Nat) {len : Nat} (few : len ≤ 4) : ∃ x, o.Short x ∧ o.target pc i len = pc + x.toUInt32 :=
    ⟨_, o.short_immediate i few, by simp [Operands.target]⟩
  cases shape <;> simp [read, Args.targets, near, restLength_le]

end Operands

/-- The operands of an instruction by its shape. -/
def Instr.args : Instr → Args
  | .trap | .fallthrough => .none
  | .ecalli x => .immediate x
  | .loadImm64 a x => .registerExtendedImmediate a x
  | .storeImm _ x y => .twoImmediates x y
  | .jump target => .offset target
  | .jumpInd a x | .loadImm a x | .load _ a x | .store _ a x => .registerImmediate a x
  | .storeImmInd _ a x y => .registerTwoImmediates a x y
  | .loadImmJump a x target | .branchImm _ a x target => .registerImmediateOffset a x target
  | .moveReg d a | .sbrk d a | .unary _ d a => .twoRegisters d a
  | .storeInd _ a b x | .loadInd _ a b x | .aluImm _ a b x => .twoRegistersImmediate a b x
  | .branch _ a b target => .twoRegistersOffset a b target
  | .loadImmJumpInd a b x y => .twoRegistersTwoImmediates a b x y
  | .alu _ a b d => .threeRegisters a b d

theorem Instr.args_withOperands (op : Opcode) (o : Operands) (pc : UInt32) :
    (op.withOperands o pc).args = o.read pc op.shape := by
  cases op <;> rfl

theorem Opcode.shape_ne_extended {op : Opcode} (notWide : op ≠ .loadImm64) :
    op.shape ≠ .registerExtendedImmediate := by
  cases op <;> simp [shape] at notWide ⊢

/-! ## Locality -/

namespace Program

variable {p q : Program} {pc : UInt32}

/-- Both programs have an instruction at `pc` with the same number of operand bytes and the same bytes; past
the code a byte is zero. -/
structure SameInstruction (p q : Program) (pc : Nat) : Prop where
  left : p.isInstructionStart pc = true
  right : q.isInstructionStart pc = true
  skip : p.skip pc = q.skip pc
  bytes : ∀ i ≤ p.skip pc, p.code.getD (pc + i) 0 = q.code.getD (pc + i) 0

namespace SameInstruction

theorem byte_eq (same : p.SameInstruction q pc.toNat) (i : Nat) :
    Operands.byte ⟨p.code, pc.toNat + 1, p.skip pc.toNat⟩ i =
      Operands.byte ⟨q.code, pc.toNat + 1, q.skip pc.toNat⟩ i := by
  simp only [Operands.byte, ← same.skip]
  split
  · rw [Nat.add_assoc]
    exact same.bytes (1 + i) (by omega)
  · rfl

theorem first_eq (same : p.SameInstruction q pc.toNat) (inP : pc.toNat < p.code.size)
    (inQ : pc.toNat < q.code.size) : p.code[pc.toNat]? = q.code[pc.toNat]? := by
  have first := same.bytes 0 (Nat.zero_le _)
  simp only [Nat.add_zero, Array.getD_eq_getD_getElem?, Array.getElem?_eq_getElem inP,
    Array.getElem?_eq_getElem inQ, Option.getD_some] at first
  rw [Array.getElem?_eq_getElem inP, Array.getElem?_eq_getElem inQ, first]

theorem fetch?_eq (same : p.SameInstruction q pc.toNat) (inP : pc.toNat < p.code.size)
    (inQ : pc.toNat < q.code.size) : p.fetch? pc = q.fetch? pc := by
  have operands (op : Opcode) := Operands.withOperands_congr same.skip same.byte_eq op pc
  simp only [fetch?, same.left, same.right, same.first_eq inP inQ, operands]
  -- Not before: `operands` is about the operand bytes that each program counts for itself.
  simp only [same.skip]

end SameInstruction

/-- The operation at `pc`, its operands by shape and the number of their bytes. -/
def decode? (p : Program) (pc : UInt32) : Option (Opcode × Args × Nat) :=
  if p.isInstructionStart pc.toNat then do
    let op ← Opcode.ofByte? (← p.code[pc.toNat]?)
    let skip := p.skip pc.toNat
    some (op, Operands.read ⟨p.code, pc.toNat + 1, skip⟩ pc op.shape, skip)
  else none

theorem decode?_eq_some {op : Opcode} {args : Args} {skip : Nat}
    (decoded : p.decode? pc = some (op, args, skip)) :
    pc.toNat < p.code.size ∧ args = Operands.read ⟨p.code, pc.toNat + 1, skip⟩ pc op.shape := by
  unfold decode? at decoded
  split at decoded
  case isFalse => contradiction
  simp only [Option.bind_eq_bind, Option.bind_eq_some_iff, Option.some.injEq, Prod.mk.injEq] at decoded
  obtain ⟨byte, first, op', -, rfl, laidOut, rfl⟩ := decoded
  exact ⟨(Array.getElem?_eq_some_iff.mp first).1, laidOut.symm⟩

theorem decode?_eq (p : Program) (pc : UInt32) :
    p.decode? pc = (p.fetch? pc).map fun f => (f.instr.opcode, f.instr.args, f.skip) := by
  unfold decode? fetch?
  dsimp only
  cases p.isInstructionStart pc.toNat with
  | false => rfl
  | true =>
    cases p.code[pc.toNat]? with
    | none => rfl
    | some byte =>
      cases known : Opcode.ofByte? byte with
      | none => simp [known]
      | some op => simp [known, Instr.opcode_withOperands, Instr.args_withOperands]

end Program

/-! ## Operations and the operands they expect -/

namespace Checked

def reg? (n : Nat) : Option Reg := if inside : n < 13 then some ⟨n, inside⟩ else none

theorem reg?_val (r : Reg) : reg? r.val = some r := dif_pos r.isLt

/-! Tables of the operations that are looked up. An operation that has no row has no value. -/

def unaryValue? : Opcode → UInt64 → Option UInt64
  | .moveReg, value => some value
  | .unary .countSetBits64, value => some (UInt64.ofNat (Word.countOnes 64 value.toNat))
  | .unary .countSetBits32, value => some (UInt64.ofNat (Word.countOnes 32 value.toNat))
  | .unary .leadingZeroBits64, value => some (UInt64.ofNat (Word.leadingZeros 64 value.toNat))
  | .unary .leadingZeroBits32, value => some (UInt64.ofNat (Word.leadingZeros 32 value.toNat))
  | .unary .trailingZeroBits64, value => some (UInt64.ofNat (Word.trailingZeros 64 value.toNat))
  | .unary .trailingZeroBits32, value => some (UInt64.ofNat (Word.trailingZeros 32 value.toNat))
  | .unary .signExtend8, value => some (Word.signExtend value 1)
  | .unary .signExtend16, value => some (Word.signExtend value 2)
  | .unary .zeroExtend16, value => some (value % 65536)
  | .unary .reverseBytes, value => some (Word.reverseBytes value)
  | _, _ => none

/-- From the source `b`, the immediate `x` and the old value of the destination. -/
def immediateValue? : Opcode → UInt64 → UInt64 → UInt64 → Option UInt64
  | .aluImm .add32, b, x, _ => some (Word.add32 b x)
  | .aluImm .add64, b, x, _ => some (b + x)
  | .aluImm .mul32, b, x, _ => some (Word.mul32 b x)
  | .aluImm .mul64, b, x, _ => some (b * x)
  | .aluImm .negAdd32, b, x, _ => some (Word.sub32 x b)
  | .aluImm .negAdd64, b, x, _ => some (x - b)
  | .aluImm .and, b, x, _ => some (b &&& x)
  | .aluImm .xor, b, x, _ => some (b ^^^ x)
  | .aluImm .or, b, x, _ => some (b ||| x)
  | .aluImm .setLtU, b, x, _ => some (Word.ofBool (b < x))
  | .aluImm .setLtS, b, x, _ => some (Word.ofBool (Word.ltS b x))
  | .aluImm .setGtU, b, x, _ => some (Word.ofBool (x < b))
  | .aluImm .setGtS, b, x, _ => some (Word.ofBool (Word.ltS x b))
  | .aluImm .shloL32, b, x, _ => some (Word.shiftLeft32 b x)
  | .aluImm .shloR32, b, x, _ => some (Word.shiftRight32 b x)
  | .aluImm .sharR32, b, x, _ => some (Word.shiftArith32 b x)
  | .aluImm .shloLAlt32, b, x, _ => some (Word.shiftLeft32 x b)
  | .aluImm .shloRAlt32, b, x, _ => some (Word.shiftRight32 x b)
  | .aluImm .sharRAlt32, b, x, _ => some (Word.shiftArith32 x b)
  | .aluImm .shloL64, b, x, _ => some (Word.shiftLeft64 b x)
  | .aluImm .shloR64, b, x, _ => some (Word.shiftRight64 b x)
  | .aluImm .sharR64, b, x, _ => some (Word.shiftArith64 b x)
  | .aluImm .shloLAlt64, b, x, _ => some (Word.shiftLeft64 x b)
  | .aluImm .shloRAlt64, b, x, _ => some (Word.shiftRight64 x b)
  | .aluImm .sharRAlt64, b, x, _ => some (Word.shiftArith64 x b)
  | .aluImm .rotR64, b, x, _ => some (Word.rotateRight64 b x)
  | .aluImm .rotR64Alt, b, x, _ => some (Word.rotateRight64 x b)
  | .aluImm .rotR32, b, x, _ => some (Word.rotateRight32 b x)
  | .aluImm .rotR32Alt, b, x, _ => some (Word.rotateRight32 x b)
  | .aluImm .cmovIz, b, x, old => some (if b = 0 then x else old)
  | .aluImm .cmovNz, b, x, old => some (if b ≠ 0 then x else old)
  | _, _, _, _ => none

def registersValue? : Opcode → UInt64 → UInt64 → UInt64 → Option UInt64
  | .alu .add32, a, b, _ => some (Word.add32 a b)
  | .alu .sub32, a, b, _ => some (Word.sub32 a b)
  | .alu .mul32, a, b, _ => some (Word.mul32 a b)
  | .alu .divU32, a, b, _ => some (Word.divU32 a b)
  | .alu .divS32, a, b, _ => some (Word.divS32 a b)
  | .alu .remU32, a, b, _ => some (Word.remU32 a b)
  | .alu .remS32, a, b, _ => some (Word.remS32 a b)
  | .alu .shloL32, a, b, _ => some (Word.shiftLeft32 a b)
  | .alu .shloR32, a, b, _ => some (Word.shiftRight32 a b)
  | .alu .sharR32, a, b, _ => some (Word.shiftArith32 a b)
  | .alu .add64, a, b, _ => some (a + b)
  | .alu .sub64, a, b, _ => some (a - b)
  | .alu .mul64, a, b, _ => some (a * b)
  | .alu .divU64, a, b, _ => some (Word.divU64 a b)
  | .alu .divS64, a, b, _ => some (Word.divS64 a b)
  | .alu .remU64, a, b, _ => some (Word.remU64 a b)
  | .alu .remS64, a, b, _ => some (Word.remS64 a b)
  | .alu .shloL64, a, b, _ => some (Word.shiftLeft64 a b)
  | .alu .shloR64, a, b, _ => some (Word.shiftRight64 a b)
  | .alu .sharR64, a, b, _ => some (Word.shiftArith64 a b)
  | .alu .and, a, b, _ => some (a &&& b)
  | .alu .xor, a, b, _ => some (a ^^^ b)
  | .alu .or, a, b, _ => some (a ||| b)
  | .alu .mulUpperSS, a, b, _ => some (Word.mulUpperSS a b)
  | .alu .mulUpperUU, a, b, _ => some (Word.mulUpperUU a b)
  | .alu .mulUpperSU, a, b, _ => some (Word.mulUpperSU a b)
  | .alu .setLtU, a, b, _ => some (Word.ofBool (a < b))
  | .alu .setLtS, a, b, _ => some (Word.ofBool (Word.ltS a b))
  | .alu .cmovIz, a, b, old => some (if b = 0 then a else old)
  | .alu .cmovNz, a, b, old => some (if b ≠ 0 then a else old)
  | .alu .rotL64, a, b, _ => some (Word.rotateLeft64 a b)
  | .alu .rotL32, a, b, _ => some (Word.rotateLeft32 a b)
  | .alu .rotR64, a, b, _ => some (Word.rotateRight64 a b)
  | .alu .rotR32, a, b, _ => some (Word.rotateRight32 a b)
  | .alu .andInv, a, b, _ => some (a &&& ~~~b)
  | .alu .orInv, a, b, _ => some (a ||| ~~~b)
  | .alu .xnor, a, b, _ => some (~~~(a ^^^ b))
  | .alu .max, a, b, _ => some (if Word.ltS a b then b else a)
  | .alu .maxU, a, b, _ => some (if a < b then b else a)
  | .alu .min, a, b, _ => some (if Word.ltS b a then b else a)
  | .alu .minU, a, b, _ => some (if b < a then b else a)
  | _, _, _, _ => none

def immediateHolds? : Opcode → UInt64 → UInt64 → Option Bool
  | .branchImm .eq, a, x => some (a == x)
  | .branchImm .ne, a, x => some (a != x)
  | .branchImm .ltU, a, x => some (a < x)
  | .branchImm .leU, a, x => some (a ≤ x)
  | .branchImm .geU, a, x => some (x ≤ a)
  | .branchImm .gtU, a, x => some (x < a)
  | .branchImm .ltS, a, x => some (Word.ltS a x)
  | .branchImm .leS, a, x => some (Word.leS a x)
  | .branchImm .geS, a, x => some (Word.leS x a)
  | .branchImm .gtS, a, x => some (Word.ltS x a)
  | _, _, _ => none

def registersHold? : Opcode → UInt64 → UInt64 → Option Bool
  | .branch .eq, a, b => some (a == b)
  | .branch .ne, a, b => some (a != b)
  | .branch .ltU, a, b => some (a < b)
  | .branch .ltS, a, b => some (Word.ltS a b)
  | .branch .geU, a, b => some (b ≤ a)
  | .branch .geS, a, b => some (Word.leS b a)
  | _, _, _ => none

section Rows

variable (a b x old : UInt64)

theorem unaryValue?_moveReg : unaryValue? .moveReg a = some a := rfl

theorem unaryValue?_unary (f : UnaryOp) : unaryValue? (.unary f) a = some (f.apply a) := by
  cases f <;> rfl

theorem immediateValue?_aluImm (f : ImmOp) : immediateValue? (.aluImm f) b x old = some (f.apply b x old) := by
  cases f <;> rfl

theorem registersValue?_alu (f : BinaryOp) : registersValue? (.alu f) a b old = some (f.apply a b old) := by
  cases f <;> rfl

theorem immediateHolds?_branchImm (c : ImmCondition) :
    immediateHolds? (.branchImm c) a x = some (c.holds a x) := by
  cases c <;> rfl

theorem registersHold?_branch (c : Condition) : registersHold? (.branch c) a b = some (c.holds a b) := by
  cases c <;> rfl

end Rows

section Execute

variable (p : Program) (regs : Registers) (m : Memory)

def branchIf (target : UInt32) (taken : Bool) : Effect :=
  if taken then Instr.jumpEffect (p.branchTo target) regs m else ⟨.continue, none, regs, m⟩

def setReg (d : Reg) (value : UInt64) : Effect := ⟨.continue, none, regs.put d value, m⟩

/-- Executes an operation with operands that were laid out apart from it. The first arms name an operation,
the later ones take every operation that is left and look it up in the table for the layout. -/
def execute : Opcode → Args → Option Effect
  | .trap, _ => some ⟨.panic, none, regs, m⟩
  | .fallthrough, _ => some ⟨.continue, none, regs, m⟩
  | .ecalli, .immediate x => some ⟨.hostCall x.toUInt32, none, regs, m⟩
  | .jump, .offset target => some (Instr.jumpEffect (p.branchTo target) regs m)
  | .jumpInd, .registerImmediate a x => do
    let a ← reg? a
    some (Instr.jumpEffect (p.dynamicJump (regs.get a + x)) regs m)
  | .loadImmJump, .registerImmediateOffset a x target => do
    let a ← reg? a
    some (Instr.jumpEffect (p.branchTo target) (regs.put a x) m)
  | .loadImmJumpInd, .twoRegistersTwoImmediates a b x y => do
    let a ← reg? a
    let b ← reg? b
    some (Instr.jumpEffect (p.dynamicJump (regs.get b + y)) (regs.put a x) m)
  | .loadImm64, .registerExtendedImmediate a x | .loadImm, .registerImmediate a x => do
    let a ← reg? a
    some (setReg regs m a x)
  | .storeImm width, .twoImmediates x y => some (Instr.execStore width x y regs m)
  | .load kind, .registerImmediate a x => do
    let a ← reg? a
    some (Instr.execLoad kind a x regs m)
  | .store width, .registerImmediate a x => do
    let a ← reg? a
    some (Instr.execStore width x (regs.get a) regs m)
  | .storeImmInd width, .registerTwoImmediates a x y => do
    let a ← reg? a
    some (Instr.execStore width (regs.get a + x) y regs m)
  | .storeInd width, .twoRegistersImmediate a b x => do
    let a ← reg? a
    let b ← reg? b
    some (Instr.execStore width (regs.get b + x) (regs.get a) regs m)
  | .loadInd kind, .twoRegistersImmediate a b x => do
    let a ← reg? a
    let b ← reg? b
    some (Instr.execLoad kind a (regs.get b + x) regs m)
  | op, .registerImmediateOffset a x target => do
    let a ← reg? a
    let taken ← immediateHolds? op (regs.get a) x
    some (branchIf p regs m target taken)
  | op, .twoRegistersOffset a b target => do
    let a ← reg? a
    let b ← reg? b
    let taken ← registersHold? op (regs.get a) (regs.get b)
    some (branchIf p regs m target taken)
  | .sbrk, .twoRegisters d a => do
    let d ← reg? d
    let a ← reg? a
    let (top, grown) := m.sbrk (regs.get a).toNat
    some (setReg regs grown d (UInt64.ofNat top))
  | op, .twoRegisters d a => do
    let d ← reg? d
    let a ← reg? a
    let value ← unaryValue? op (regs.get a)
    some (setReg regs m d value)
  | op, .twoRegistersImmediate a b x => do
    let a ← reg? a
    let b ← reg? b
    let value ← immediateValue? op (regs.get b) x (regs.get a)
    some (setReg regs m a value)
  | op, .threeRegisters a b d => do
    let a ← reg? a
    let b ← reg? b
    let d ← reg? d
    let value ← registersValue? op (regs.get a) (regs.get b) (regs.get d)
    some (setReg regs m d value)
  | _, _ => none

theorem execute_eq (i : Instr) : execute p regs m i.opcode i.args = some (i.exec p regs m) := by
  cases i <;>
    simp only [Instr.opcode, Instr.args, execute, reg?_val, unaryValue?_moveReg, unaryValue?_unary,
      immediateValue?_aluImm, registersValue?_alu, immediateHolds?_branchImm, registersHold?_branch, setReg,
      branchIf, Option.bind_eq_bind, Option.bind_some, Instr.exec]

end Execute

end Checked

/-- Decoding is local and in range. Programs with the same instruction at a place decode it alike, whatever
else they hold. Where decoding succeeds, the operands name registers, an immediate is the sign extension of
at most four bytes except for the one operation that takes a whole word, the bytes after the instruction do
not matter, and the operation finds the operands that it expects: executing it has a value, which is that of
the instruction fetched. -/
theorem decoding_local_and_in_range :
    (∀ (p q : Program) (pc : UInt32), p.Built → q.Built → p.SameInstruction q pc.toNat →
      p.fetch? pc = q.fetch? pc ∧ p.decode? pc = q.decode? pc) ∧
    ∀ (p : Program) (pc : UInt32) (op : Opcode) (args : Args) (skip : Nat),
      p.decode? pc = some (op, args, skip) →
        (∀ r ∈ args.registers, r ≤ 12) ∧
        (op ≠ .loadImm64 → ∀ x ∈ args.immediates, Operands.Short ⟨p.code, pc.toNat + 1, skip⟩ x) ∧
        (∀ target ∈ args.targets,
          ∃ x, Operands.Short ⟨p.code, pc.toNat + 1, skip⟩ x ∧ target = pc + x.toUInt32) ∧
        (∀ q : Program, p.SameInstruction q pc.toNat → pc.toNat < q.code.size →
          q.decode? pc = some (op, args, skip)) ∧
        ∃ i : Instr, p.fetch? pc = some ⟨i, skip⟩ ∧ i.opcode = op ∧ i.args = args ∧
          ∀ regs m, Checked.execute p regs m op args = some (i.exec p regs m) := by
  constructor
  · intro p q pc builtP builtQ same
    have alike := same.fetch?_eq (builtP.lt_size_of_start same.left) (builtQ.lt_size_of_start same.right)
    exact ⟨alike, by rw [p.decode?_eq, q.decode?_eq, alike]⟩
  · intro p pc op args skip decoded
    obtain ⟨inside, laidOut⟩ := Program.decode?_eq_some decoded
    refine ⟨?_, ?_, ?_, ?_, ?_⟩
    · rw [laidOut]
      exact Operands.registers_read _ pc _
    · intro notWide
      rw [laidOut]
      exact Operands.short_read _ pc (Opcode.shape_ne_extended notWide)
    · rw [laidOut]
      exact Operands.targets_read _ pc _
    · intro q same inQ
      rw [← decoded, p.decode?_eq, q.decode?_eq, same.fetch?_eq inside inQ]
    · rw [p.decode?_eq, Option.map_eq_some_iff] at decoded
      obtain ⟨⟨i, n⟩, fetched, parts⟩ := decoded
      obtain ⟨rfl, rfl, rfl⟩ : i.opcode = op ∧ i.args = args ∧ n = skip := by simpa using parts
      exact ⟨i, fetched, rfl, rfl, fun regs m => Checked.execute_eq p regs m i⟩

def loadMinusTwo : Program := Program.ofCode #[51, 0x0f, 0xfe] #[true, false, false] #[] 0

def loadMinusTwoThenJump : Program :=
  Program.ofCode #[51, 0x0f, 0xfe, 40, 0xff] #[true, false, false, true, false] #[] 0

theorem loadMinusTwo_decoded :
    loadMinusTwo.fetch? 0 = loadMinusTwoThenJump.fetch? 0 ∧
      Operands.Short ⟨loadMinusTwo.code, 1, 2⟩ 0xfffffffffffffffe ∧
      ∃ i, loadMinusTwo.fetch? 0 = some ⟨i, 2⟩ ∧ ∀ regs m,
        Checked.execute loadMinusTwo regs m .loadImm (.registerImmediate 12 0xfffffffffffffffe) =
          some (i.exec loadMinusTwo regs m) := by
  have same : loadMinusTwo.SameInstruction loadMinusTwoThenJump (0 : UInt32).toNat :=
    ⟨by decide +kernel, by decide +kernel, by decide +kernel, by decide +kernel⟩
  have decoded : loadMinusTwo.decode? 0 = some (.loadImm, .registerImmediate 12 0xfffffffffffffffe, 2) := by
    decide +kernel
  obtain ⟨-, short, -, -, i, fetched, -, -, executed⟩ :=
    decoding_local_and_in_range.2 loadMinusTwo 0 _ _ _ decoded
  exact ⟨(decoding_local_and_in_range.1 _ _ 0 (.ofCode ..) (.ofCode ..) same).1,
    short nofun _ (List.mem_singleton_self _), i, fetched, executed⟩

end ServiceVm
