import ServiceVm.Proofs.Instr.Flow

/-!
# Integrity of control flow

From an instruction, control goes to the place right after it, which lies in the code or at its end, or
it jumps. Only terminators jump, and they land on block starts: at the first byte, or on an instruction
that comes right after a terminator. Jumps whose target is written in the code also check that the
target names an operation.
-/
namespace ServiceVm

/-- Whether the place to jump to is written in the instruction. The other jumps take it from a register. -/
def Opcode.namesTarget : Opcode → Bool
  | .jump | .loadImmJump | .branchImm _ | .branch _ => true
  | _ => false

theorem isTerminatorByte_iff {byte : UInt8} :
    isTerminatorByte byte = true ↔ ∃ op, Opcode.ofByte? byte = some op ∧ op.isTerminator = true := by
  cases known : Opcode.ofByte? byte <;> simp [isTerminatorByte, known]

namespace Program

variable {p : Program}

def opcodeAt? (p : Program) (place : Nat) : Option Opcode := p.code[place]?.bind Opcode.ofByte?

/-- Whether an instruction starts at `place`, and the nearest instruction start before it holds a
terminator. -/
def AfterTerminator (p : Program) (place : Nat) : Prop :=
  p.isInstructionStart place = true ∧
    ∃ before op, before < place ∧ p.isInstructionStart before = true ∧
      p.opcodeAt? before = some op ∧ op.isTerminator = true ∧
      ∀ between, before < between → between < place → p.isInstructionStart between = false

/-- Where control may go from `pc`: to the place right after the instruction, not beyond the end of the
code, or from a terminator to the first byte or to an instruction right after a terminator, which has to
be a known operation if the terminator names its target. -/
def Leads (p : Program) (pc next : Nat) : Prop :=
  (next = pc + 1 + p.skip pc ∧ pc < next ∧ next ≤ p.code.size) ∨
    ∃ op, p.opcodeAt? pc = some op ∧ op.isTerminator = true ∧ (next = 0 ∨ p.AfterTerminator next) ∧
      (op.namesTarget = true → (p.opcodeAt? next).isSome = true)

theorem opcodeAt?_eq_some {place : Nat} {op : Opcode} :
    p.opcodeAt? place = some op ↔ ∃ byte, p.code[place]? = some byte ∧ Opcode.ofByte? byte = some op := by
  simp [opcodeAt?, Option.bind_eq_some_iff]

theorem opcodeAt?_of_fetch? {pc : UInt32} {f : Fetched} (fetched : p.fetch? pc = some f) :
    p.opcodeAt? pc.toNat = some f.instr.opcode := by
  obtain ⟨-, -, byte, atPc, known⟩ := fetch?_eq_some fetched
  exact opcodeAt?_eq_some.mpr ⟨byte, atPc, known⟩

theorem Built.isBlockStart_iff_afterTerminator (built : p.Built) (place : Nat) :
    p.isBlockStart place = true ↔ place < p.code.size ∧ (place = 0 ∨ p.AfterTerminator place) := by
  rw [built.isBlockStart_iff]
  simp only [AfterTerminator, opcodeAt?_eq_some, isTerminatorByte_iff]
  constructor
  · rintro ⟨inside, first | ⟨start, j, byte, before, marked, atJ, ⟨op, known, ends⟩, nearest⟩⟩
    · exact ⟨inside, .inl first⟩
    · exact ⟨inside, .inr ⟨start, j, op, before, marked, ⟨byte, atJ, known⟩, ends, nearest⟩⟩
  · rintro ⟨inside, first | ⟨start, j, op, before, marked, ⟨byte, atJ, known⟩, ends, nearest⟩⟩
    · exact ⟨inside, .inl first⟩
    · exact ⟨inside, .inr ⟨start, j, byte, before, marked, atJ, ⟨op, known, ends⟩, nearest⟩⟩

theorem branchTo_eq (p : Program) (target : UInt32) :
    p.branchTo target =
      if p.isBlockStart target.toNat && (p.opcodeAt? target.toNat).isSome then (.continue, some target)
      else (.panic, none) := by
  cases atTarget : p.code[target.toNat]? <;> simp [branchTo, opcodeAt?, atTarget]

theorem branchTo_known {target landing : UInt32} (lands : (p.branchTo target).2 = some landing) :
    (p.opcodeAt? landing.toNat).isSome = true := by
  rw [branchTo_eq] at lands
  split at lands
  · rename_i checked
    obtain rfl : target = landing := by simpa using lands
    exact (Bool.and_eq_true_iff.mp checked).2
  · simp at lands

end Program

theorem Instr.exec_target_known {p : Program} {instr : Instr} {regs : Registers} {m : Memory}
    {landing : UInt32} (named : instr.opcode.namesTarget = true)
    (jumps : (instr.exec p regs m).target = some landing) : (p.opcodeAt? landing.toNat).isSome = true := by
  cases instr with
  | jump target => exact Program.branchTo_known jumps
  | loadImmJump a x target => exact Program.branchTo_known jumps
  | branchImm c a x target =>
    simp only [exec] at jumps
    split at jumps
    · exact Program.branchTo_known jumps
    · simp at jumps
  | branch c a b target =>
    simp only [exec] at jumps
    split at jumps
    · exact Program.branchTo_known jumps
    · simp at jumps
  | _ => simp [opcode, Opcode.namesTarget] at named

namespace Cpu

variable {p : Program} {c : Cpu}

theorem step_goes_on (goesOn : (c.step p).1.isTerminal = false) :
    ∃ f, p.fetch? c.pc = some f ∧ (f.instr.exec p c.registers c.memory).exit = (c.step p).1 ∧
      (c.step p).2.pc =
        (f.instr.exec p c.registers c.memory).target.getD (followingPc c.pc f.skip) := by
  cases fetched : p.fetch? c.pc with
  | none => simp [step, fetched, Exit.isTerminal] at goesOn
  | some f =>
    simp only [step, fetched] at goesOn ⊢
    refine ⟨f, rfl, rfl, ?_⟩
    cases exit : (f.instr.exec p c.registers c.memory).exit with
    | «continue» | hostCall id => rfl
    | _ => simp [exit, Exit.isTerminal] at goesOn

section Built

variable (built : p.Built) (short : p.code.size < UInt32.size)
include built short

theorem step_continue (continues : (c.step p).1 = .continue) :
    p.Leads c.pc.toNat (c.step p).2.pc.toNat := by
  obtain ⟨f, fetched, exit, pc⟩ := step_goes_on (c := c) (p := p) (by rw [continues]; rfl)
  cases f.instr.exec_flow p c.registers c.memory with
  | stops stops _ => simp [exit, continues, Exit.isTerminal] at stops
  | passes _ noTarget =>
    obtain ⟨follows, inside⟩ := built.followingPc_toNat short fetched
    rw [pc, noTarget, Option.getD_none, follows]
    exact .inl ⟨rfl, by omega, inside⟩
  | jumps target terminator _ jumps lands =>
    rw [pc, jumps, Option.getD_some]
    refine .inr ⟨f.instr.opcode, Program.opcodeAt?_of_fetch? fetched, terminator, ?_, fun named => ?_⟩
    · exact ((built.isBlockStart_iff_afterTerminator target.toNat).mp lands).2
    · exact Instr.exec_target_known named jumps

theorem step_hostCall {id : UInt32} (calls : (c.step p).1 = .hostCall id) :
    (c.step p).2.pc.toNat = c.pc.toNat + 1 + p.skip c.pc.toNat := by
  obtain ⟨f, fetched, exit, pc⟩ := step_goes_on (c := c) (p := p) (by rw [calls]; rfl)
  cases f.instr.exec_flow p c.registers c.memory with
  | stops stops _ => simp [exit, calls, Exit.isTerminal] at stops
  | passes _ noTarget =>
    rw [pc, noTarget, Option.getD_none]
    exact (built.followingPc_toNat short fetched).1
  | jumps target _ continues => simp [exit, calls] at continues

end Built

/-- Control flow keeps to instructions and blocks. A step that goes on comes to the place right after its
instruction or has executed a terminator and comes to where a block starts. A host call comes to the
place right after its instruction. Where an instruction starts right after a terminator, a block starts. -/
theorem step_keeps_to_blocks (p : Program) (built : p.Built) (short : p.code.size < UInt32.size) (c : Cpu) :
    ((c.step p).1 = .continue → p.Leads c.pc.toNat (c.step p).2.pc.toNat) ∧
    (∀ id, (c.step p).1 = .hostCall id →
      (c.step p).2.pc.toNat = c.pc.toNat + 1 + p.skip c.pc.toNat) ∧
    ∀ op, p.isInstructionStart c.pc.toNat = true → p.opcodeAt? c.pc.toNat = some op →
      op.isTerminator = true →
      p.isInstructionStart (c.pc.toNat + 1 + p.skip c.pc.toNat) = true →
      p.isBlockStart (c.pc.toNat + 1 + p.skip c.pc.toNat) = true := by
  refine ⟨step_continue built short, fun id => step_hostCall built short, ?_⟩
  intro op start here ends next
  obtain ⟨byte, atPc, known⟩ := Program.opcodeAt?_eq_some.mp here
  simp [built.isBlockStart_following start atPc, next, isTerminatorByte_of_ofByte? known, ends]

end Cpu

/-- A jump over a `trap`, to an instruction that loads a number. -/
def skippingJump : Program := Program.ofCode #[40, 3, 0, 51, 0, 7] #[true, false, true, true] #[] 0

theorem skippingJump_keeps_to_blocks :
    (Cpu.step ⟨0, Registers.zero, {}⟩ skippingJump).2.pc = 3 ∧ skippingJump.AfterTerminator 3 ∧
      (skippingJump.opcodeAt? 3).isSome = true := by
  have continues : (Cpu.step ⟨0, Registers.zero, {}⟩ skippingJump).1 = .continue := by decide +kernel
  have pc : (Cpu.step ⟨0, Registers.zero, {}⟩ skippingJump).2.pc = 3 := by decide +kernel
  have lands := (Cpu.step_keeps_to_blocks skippingJump (.ofCode ..) (by decide) ⟨0, Registers.zero, {}⟩).1
    continues
  rw [pc] at lands
  rcases lands with ⟨follows, -⟩ | ⟨op, here, -, first | after, known⟩
  · exact absurd follows (by decide +kernel)
  · exact absurd first (by decide)
  · obtain rfl : Opcode.jump = op := Option.some.inj (Eq.trans (by decide +kernel) here)
    exact ⟨pc, after, known rfl⟩

end ServiceVm
