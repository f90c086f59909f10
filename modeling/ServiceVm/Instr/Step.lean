import ServiceVm.Instr.Basic
import ServiceVm.Memory.Mapping

/-!
# Executing one instruction

`Cpu.step` is a step without any billing. An instruction that panics, faults or halts leaves the
program counter and the memory as they were.
-/
namespace ServiceVm

structure Cpu where
  pc : UInt32
  registers : Registers
  memory : Memory
deriving Inhabited

/-- What an instruction does: the exit, where to go if not to the next instruction, and the new
registers and memory. -/
structure Effect where
  exit : Exit
  target : Option UInt32
  registers : Registers
  memory : Memory

namespace Program

/-- A branch has to land on a block start that holds a known operation. -/
def branchTo (p : Program) (target : UInt32) : Exit × Option UInt32 :=
  let known := match p.code[target.toNat]? with
    | some byte => (Opcode.ofByte? byte).isSome
    | none => false
  if p.isBlockStart target.toNat && known then (.continue, some target) else (.panic, none)

/-- A jump to an address taken from a register: the halt address, or twice the one-based index of a
jump table entry that names a block start. -/
def dynamicJump (p : Program) (address : UInt64) : Exit × Option UInt32 :=
  let a := address.toNat % addressSpace
  if a = haltAddress then (.halt, none)
  else if a = 0 ∨ 2 * p.entries.toNat < a ∨ a % 2 ≠ 0 then (.panic, none)
  else
    match p.jumpTarget? (a / 2 - 1) with
    | none => (.panic, none)
    | some target =>
      if p.isBlockStart target.toNat then (.continue, some target) else (.panic, none)

end Program

namespace Instr

/-- Loads `kind` from `address`, modulo the address space, into `a`. -/
def execLoad (kind : LoadKind) (a : Reg) (address : UInt64) (regs : Registers) (m : Memory) :
    Effect :=
  match m.load address.toUInt32 kind.bytes with
  | .error exit => ⟨exit, none, regs, m⟩
  | .ok data =>
    let value := data.toWord
    let value := if kind.isSigned then Word.signExtend value kind.bytes else value
    ⟨.continue, none, regs.put a value, m⟩

/-- Stores the low bytes of `value` at `address`, modulo the address space. -/
def execStore (width : Width) (address value : UInt64) (regs : Registers) (m : Memory) : Effect :=
  match m.store address.toUInt32 (Bytes.ofWord value width.bytes) with
  | .error exit => ⟨exit, none, regs, m⟩
  | .ok m => ⟨.continue, none, regs, m⟩

def jumpEffect (outcome : Exit × Option UInt32) (regs : Registers) (m : Memory) : Effect :=
  ⟨outcome.1, outcome.2, regs, m⟩

def exec (p : Program) (instr : Instr) (regs : Registers) (m : Memory) : Effect :=
  match instr with
  | .trap => ⟨.panic, none, regs, m⟩
  | .fallthrough => ⟨.continue, none, regs, m⟩
  | .ecalli x => ⟨.hostCall x.toUInt32, none, regs, m⟩
  | .loadImm64 a x => ⟨.continue, none, regs.put a x, m⟩
  | .storeImm width x y => execStore width x y regs m
  | .jump target => jumpEffect (p.branchTo target) regs m
  | .jumpInd a x => jumpEffect (p.dynamicJump ((regs.get a) + x)) regs m
  | .loadImm a x => ⟨.continue, none, regs.put a x, m⟩
  | .load kind a x => execLoad kind a x regs m
  | .store width a x => execStore width x (regs.get a) regs m
  | .storeImmInd width a x y => execStore width ((regs.get a) + x) y regs m
  | .loadImmJump a x target => jumpEffect (p.branchTo target) (regs.put a x) m
  | .branchImm c a x target =>
    if c.holds (regs.get a) x then jumpEffect (p.branchTo target) regs m
    else ⟨.continue, none, regs, m⟩
  | .moveReg d a => ⟨.continue, none, regs.put d (regs.get a), m⟩
  | .sbrk d a =>
    let (top, m) := m.sbrk (regs.get a).toNat
    ⟨.continue, none, regs.put d (UInt64.ofNat top), m⟩
  | .unary f d a => ⟨.continue, none, regs.put d (f.apply (regs.get a)), m⟩
  | .storeInd width a b x => execStore width ((regs.get b) + x) (regs.get a) regs m
  | .loadInd kind a b x => execLoad kind a ((regs.get b) + x) regs m
  | .aluImm f a b x => ⟨.continue, none, regs.put a (f.apply (regs.get b) x (regs.get a)), m⟩
  | .branch c a b target =>
    if c.holds (regs.get a) (regs.get b) then jumpEffect (p.branchTo target) regs m
    else ⟨.continue, none, regs, m⟩
  | .loadImmJumpInd a b x y => jumpEffect (p.dynamicJump ((regs.get b) + y)) (regs.put a x) m
  | .alu f a b d =>
    ⟨.continue, none, regs.put d (f.apply (regs.get a) (regs.get b) (regs.get d)), m⟩

end Instr

/-- The place after an instruction with `skip` operand bytes. -/
def followingPc (pc : UInt32) (skip : Nat) : UInt32 := pc + UInt32.ofNat (skip + 1)

/-- Executes the instruction at the program counter. -/
def Cpu.step (c : Cpu) (p : Program) : Exit × Cpu :=
  match p.fetch? c.pc with
  | none => (.panic, c)
  | some fetched =>
    let effect := fetched.instr.exec p c.registers c.memory
    let pc := match effect.exit with
      | .continue | .hostCall _ => effect.target.getD (followingPc c.pc fetched.skip)
      | _ => c.pc
    (effect.exit, ⟨pc, effect.registers, effect.memory⟩)

end ServiceVm
