import ServiceVm.Program.Basic
import ServiceVm.Registers
import ServiceVm.Word

/-!
# Instructions

`Instr` is an operation together with its operands: registers, sign-extended immediates and
absolute jump targets. `Program.fetch?` reads the instruction at a place of a program.
-/
namespace ServiceVm

inductive Instr where
  | trap
  | fallthrough
  | ecalli (x : UInt64)
  | loadImm64 (a : Reg) (x : UInt64)
  | storeImm (width : Width) (x y : UInt64)
  | jump (target : UInt32)
  | jumpInd (a : Reg) (x : UInt64)
  | loadImm (a : Reg) (x : UInt64)
  | load (kind : LoadKind) (a : Reg) (x : UInt64)
  | store (width : Width) (a : Reg) (x : UInt64)
  | storeImmInd (width : Width) (a : Reg) (x y : UInt64)
  | loadImmJump (a : Reg) (x : UInt64) (target : UInt32)
  | branchImm (condition : ImmCondition) (a : Reg) (x : UInt64) (target : UInt32)
  | moveReg (d a : Reg)
  | sbrk (d a : Reg)
  | unary (op : UnaryOp) (d a : Reg)
  | storeInd (width : Width) (a b : Reg) (x : UInt64)
  | loadInd (kind : LoadKind) (a b : Reg) (x : UInt64)
  | aluImm (op : ImmOp) (a b : Reg) (x : UInt64)
  | branch (condition : Condition) (a b : Reg) (target : UInt32)
  | loadImmJumpInd (a b : Reg) (x y : UInt64)
  | alu (op : BinaryOp) (a b d : Reg)
deriving DecidableEq, Repr

/-- The operand bytes of an instruction; past their end and past the code they read as zero. -/
structure Operands where
  code : Bytes
  start : Nat
  length : Nat

namespace Operands

def byte (o : Operands) (i : Nat) : UInt8 :=
  if i < o.length then o.code.getD (o.start + i) 0 else 0

/-- The little-endian number of `len` bytes at `i`. -/
def word (o : Operands) (i len : Nat) : UInt64 :=
  UInt64.ofNat (LittleEndian.decode ((List.range (min len 8)).map fun k => o.byte (i + k)))

def immediate (o : Operands) (i len : Nat) : UInt64 := Word.signExtend (o.word i len) len

/-- A target relative to the instruction at `pc`. -/
def target (o : Operands) (pc : UInt32) (i len : Nat) : UInt32 :=
  (pc.toUInt64 + o.immediate i len).toUInt32

def lowReg (o : Operands) (i : Nat) : Reg := Reg.clamp ((o.byte i).toNat % 16)

def highReg (o : Operands) (i : Nat) : Reg := Reg.clamp ((o.byte i).toNat / 16)

/-- Length of an immediate that takes what `taken` bytes leave over. -/
def restLength (o : Operands) (taken : Nat) : Nat := min (o.length - taken) 4

/-- Length of an immediate that is given in three bits. -/
def givenLength (n : Nat) : Nat := min (n % 8) 4

def oneImmediate (o : Operands) : UInt64 := o.immediate 0 (o.restLength 0)

def extendedImmediate (o : Operands) : Reg × UInt64 := (o.lowReg 0, o.word 1 8)

def twoImmediates (o : Operands) : UInt64 × UInt64 :=
  let l := givenLength (o.byte 0).toNat
  (o.immediate 1 l, o.immediate (1 + l) (o.restLength (l + 1)))

def oneTarget (o : Operands) (pc : UInt32) : UInt32 := o.target pc 0 (o.restLength 0)

def regImmediate (o : Operands) : Reg × UInt64 := (o.lowReg 0, o.immediate 1 (o.restLength 1))

def regTwoImmediates (o : Operands) : Reg × UInt64 × UInt64 :=
  let l := givenLength ((o.byte 0).toNat / 16)
  (o.lowReg 0, o.immediate 1 l, o.immediate (1 + l) (o.restLength (l + 1)))

def regImmediateTarget (o : Operands) (pc : UInt32) : Reg × UInt64 × UInt32 :=
  let l := givenLength ((o.byte 0).toNat / 16)
  (o.lowReg 0, o.immediate 1 l, o.target pc (1 + l) (o.restLength (l + 1)))

def twoRegs (o : Operands) : Reg × Reg := (o.lowReg 0, o.highReg 0)

def twoRegsTwoImmediates (o : Operands) : UInt64 × UInt64 :=
  let l := givenLength (o.byte 1).toNat
  (o.immediate 2 l, o.immediate (2 + l) (o.restLength (l + 2)))

def thirdReg (o : Operands) : Reg := Reg.clamp (o.byte 1).toNat

end Operands

/-- Joins an operation at `pc` with its operands. -/
def Opcode.withOperands (op : Opcode) (o : Operands) (pc : UInt32) : Instr :=
  let restImmediate := o.immediate 1 (o.restLength 1)
  let (low, high) := o.twoRegs
  match op with
  | .trap => .trap
  | .fallthrough => .fallthrough
  | .ecalli => .ecalli o.oneImmediate
  | .loadImm64 => let (a, x) := o.extendedImmediate; .loadImm64 a x
  | .storeImm width => let (x, y) := o.twoImmediates; .storeImm width x y
  | .jump => .jump (o.oneTarget pc)
  | .jumpInd => let (a, x) := o.regImmediate; .jumpInd a x
  | .loadImm => let (a, x) := o.regImmediate; .loadImm a x
  | .load kind => let (a, x) := o.regImmediate; .load kind a x
  | .store width => let (a, x) := o.regImmediate; .store width a x
  | .storeImmInd width => let (a, x, y) := o.regTwoImmediates; .storeImmInd width a x y
  | .loadImmJump => let (a, x, target) := o.regImmediateTarget pc; .loadImmJump a x target
  | .branchImm c => let (a, x, target) := o.regImmediateTarget pc; .branchImm c a x target
  | .moveReg => .moveReg low high
  | .sbrk => .sbrk low high
  | .unary f => .unary f low high
  | .storeInd width => .storeInd width low high restImmediate
  | .loadInd kind => .loadInd kind low high restImmediate
  | .aluImm f => .aluImm f low high restImmediate
  | .branch c => .branch c low high (o.target pc 1 (o.restLength 1))
  | .loadImmJumpInd => let (x, y) := o.twoRegsTwoImmediates; .loadImmJumpInd low high x y
  | .alu f => .alu f low high o.thirdReg

namespace Instr

def opcode : Instr → Opcode
  | .trap => .trap
  | .fallthrough => .fallthrough
  | .ecalli _ => .ecalli
  | .loadImm64 _ _ => .loadImm64
  | .storeImm width _ _ => .storeImm width
  | .jump _ => .jump
  | .jumpInd _ _ => .jumpInd
  | .loadImm _ _ => .loadImm
  | .load kind _ _ => .load kind
  | .store width _ _ => .store width
  | .storeImmInd width _ _ _ => .storeImmInd width
  | .loadImmJump _ _ _ => .loadImmJump
  | .branchImm c _ _ _ => .branchImm c
  | .moveReg _ _ => .moveReg
  | .sbrk _ _ => .sbrk
  | .unary f _ _ => .unary f
  | .storeInd width _ _ _ => .storeInd width
  | .loadInd kind _ _ _ => .loadInd kind
  | .aluImm f _ _ _ => .aluImm f
  | .branch c _ _ _ => .branch c
  | .loadImmJumpInd _ _ _ _ => .loadImmJumpInd
  | .alu f _ _ _ => .alu f

theorem opcode_withOperands (op : Opcode) (o : Operands) (pc : UInt32) :
    (op.withOperands o pc).opcode = op := by
  cases op <;> rfl

/-- Registers whose values the instruction depends on. -/
def reads : Instr → List Reg
  | .jumpInd a _ | .store _ a _ | .storeImmInd _ a _ _ | .branchImm _ a _ _ => [a]
  | .moveReg _ a | .sbrk _ a | .unary _ _ a => [a]
  | .storeInd _ a b _ | .branch _ a b _ => [a, b]
  | .aluImm .cmovIz a b _ | .aluImm .cmovNz a b _ => [a, b]
  | .loadInd _ _ b _ | .aluImm _ _ b _ | .loadImmJumpInd _ b _ _ => [b]
  | .alu .cmovIz a b d | .alu .cmovNz a b d => [a, b, d]
  | .alu _ a b _ => [a, b]
  | _ => []

/-- Registers the instruction may change. -/
def writes : Instr → List Reg
  | .loadImm64 a _ | .loadImm a _ | .load _ a _ | .loadImmJump a _ _ => [a]
  | .moveReg d _ | .sbrk d _ | .unary _ d _ => [d]
  | .loadInd _ a _ _ | .aluImm _ a _ _ | .loadImmJumpInd a _ _ _ => [a]
  | .alu _ _ _ d => [d]
  | _ => []

end Instr

/-- An instruction and the number of its operand bytes. -/
structure Fetched where
  instr : Instr
  skip : Nat
deriving DecidableEq, Repr

/-- The instruction at `pc`, unless no instruction starts there or its first byte names no
operation. -/
def Program.fetch? (p : Program) (pc : UInt32) : Option Fetched :=
  let place := pc.toNat
  if p.isInstructionStart place then
    match p.code[place]? with
    | none => none
    | some byte =>
      match Opcode.ofByte? byte with
      | none => none
      | some op =>
        let skip := p.skip place
        some ⟨op.withOperands ⟨p.code, place + 1, skip⟩ pc, skip⟩
  else none

end ServiceVm
