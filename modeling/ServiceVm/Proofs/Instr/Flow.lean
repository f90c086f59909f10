import ServiceVm.Instr.Step
import ServiceVm.Proofs.Program.Tags

/-!
# Flow of control

A step either stops where it is, goes on to the place after the instruction, or jumps to a block
start, and only terminators jump. Every later statement about the program counter rests on
`Cpu.step_flow`.
-/
namespace ServiceVm

theorem isTerminatorByte_of_ofByte? {byte : UInt8} {op : Opcode} (known : Opcode.ofByte? byte = some op) :
    isTerminatorByte byte = op.isTerminator := by
  simp [isTerminatorByte, known]

namespace Program

/-- A fetched instruction starts at a marked byte that names its operation. -/
theorem fetch?_eq_some {p : Program} {pc : UInt32} {f : Fetched} (fetched : p.fetch? pc = some f) :
    p.isInstructionStart pc.toNat = true ∧ f.skip = p.skip pc.toNat ∧
      ∃ byte, p.code[pc.toNat]? = some byte ∧ Opcode.ofByte? byte = some f.instr.opcode := by
  unfold fetch? at fetched
  dsimp only at fetched
  split at fetched
  case isFalse => contradiction
  rename_i start
  split at fetched
  case h_1 => contradiction
  rename_i byte atPc
  split at fetched
  case h_1 => contradiction
  rename_i op known
  cases fetched
  exact ⟨start, rfl, byte, atPc, by rw [Instr.opcode_withOperands]; exact known⟩

theorem fetch?_eq_none_of_not_start {p : Program} {pc : UInt32}
    (unmarked : p.isInstructionStart pc.toNat = false) : p.fetch? pc = none := by
  simp [fetch?, unmarked]

/-- What a jump to a fixed place or to a jump table entry can give. -/
def JumpOutcome (p : Program) (outcome : Exit × Option UInt32) : Prop :=
  (outcome.1.isTerminal = true ∧ outcome.1 ≠ .outOfGas) ∨
    ∃ target, outcome = (.continue, some target) ∧ p.isBlockStart target.toNat = true

theorem branchTo_outcome (p : Program) (target : UInt32) : p.JumpOutcome (p.branchTo target) := by
  unfold branchTo
  extract_lets known
  split
  · rename_i lands
    exact Or.inr ⟨target, rfl, (Bool.and_eq_true_iff.mp lands).1⟩
  · exact Or.inl ⟨rfl, nofun⟩

theorem dynamicJump_outcome (p : Program) (address : UInt64) :
    p.JumpOutcome (p.dynamicJump address) := by
  unfold dynamicJump
  extract_lets a
  split
  · exact Or.inl ⟨rfl, nofun⟩
  split
  · exact Or.inl ⟨rfl, nofun⟩
  split
  · exact Or.inl ⟨rfl, nofun⟩
  rename_i target _
  split
  · rename_i lands
    exact Or.inr ⟨target, rfl, lands⟩
  · exact Or.inl ⟨rfl, nofun⟩

end Program

namespace Memory

theorem faultExit_stops (address : UInt32) :
    (faultExit address).isTerminal = true ∧ faultExit address ≠ .outOfGas := by
  rw [faultExit]
  split
  · exact ⟨rfl, by decide⟩
  · exact ⟨rfl, nofun⟩

theorem load_error {m : Memory} {address : UInt32} {len : Nat} {exit : Exit}
    (refused : m.load address len = .error exit) : exit.isTerminal = true ∧ exit ≠ .outOfGas := by
  rw [load] at refused
  split at refused
  · contradiction
  · rename_i page _
    cases refused
    exact faultExit_stops page

theorem store_error {m : Memory} {address : UInt32} {data : Bytes} {exit : Exit}
    (refused : m.store address data = .error exit) : exit.isTerminal = true ∧ exit ≠ .outOfGas := by
  rw [store] at refused
  split at refused
  · rename_i page _
    cases refused
    exact faultExit_stops page
  · contradiction

end Memory

/-- How an instruction with the given operation leaves control. -/
inductive Effect.Flow (p : Program) (op : Opcode) (e : Effect) : Prop where
  | stops : e.exit.isTerminal = true → e.exit ≠ .outOfGas → Flow p op e
  | passes : e.exit.isTerminal = false → e.target = none → Flow p op e
  | jumps (target : UInt32) : op.isTerminator = true → e.exit = .continue →
      e.target = some target → p.isBlockStart target.toNat = true → Flow p op e

namespace Instr

theorem execLoad_flow (p : Program) (op : Opcode) (kind : LoadKind) (a : Reg) (address : UInt64)
    (regs : Registers) (m : Memory) : (execLoad kind a address regs m).Flow p op := by
  rw [execLoad]
  split
  · rename_i exit refused
    exact .stops (Memory.load_error refused).1 (Memory.load_error refused).2
  · exact .passes rfl rfl

theorem execStore_flow (p : Program) (op : Opcode) (width : Width) (address value : UInt64)
    (regs : Registers) (m : Memory) : (execStore width address value regs m).Flow p op := by
  rw [execStore]
  split
  · rename_i exit refused
    exact .stops (Memory.store_error refused).1 (Memory.store_error refused).2
  · exact .passes rfl rfl

theorem jumpEffect_flow {p : Program} {op : Opcode} {outcome : Exit × Option UInt32}
    (possible : p.JumpOutcome outcome) (terminator : op.isTerminator = true) (regs : Registers)
    (m : Memory) : (jumpEffect outcome regs m).Flow p op := by
  obtain ⟨stops, funded⟩ | ⟨target, rfl, lands⟩ := possible
  · exact .stops stops funded
  · exact .jumps target terminator rfl rfl lands

theorem exec_flow (p : Program) (instr : Instr) (regs : Registers) (m : Memory) :
    (instr.exec p regs m).Flow p instr.opcode := by
  cases instr with
  | trap => exact .stops rfl nofun
  | jump target => exact jumpEffect_flow (p.branchTo_outcome target) rfl regs m
  | jumpInd a x => exact jumpEffect_flow (p.dynamicJump_outcome _) rfl regs m
  | loadImmJump a x target => exact jumpEffect_flow (p.branchTo_outcome target) rfl _ m
  | loadImmJumpInd a b x y => exact jumpEffect_flow (p.dynamicJump_outcome _) rfl _ m
  | branchImm c a x target =>
    rw [exec]
    split
    · exact jumpEffect_flow (p.branchTo_outcome target) rfl regs m
    · exact .passes rfl rfl
  | branch c a b target =>
    rw [exec]
    split
    · exact jumpEffect_flow (p.branchTo_outcome target) rfl regs m
    · exact .passes rfl rfl
  | load kind a x => exact execLoad_flow p _ kind a _ regs m
  | loadInd kind a b x => exact execLoad_flow p _ kind a _ regs m
  | storeImm width x y => exact execStore_flow p _ width _ _ regs m
  | store width a x => exact execStore_flow p _ width _ _ regs m
  | storeImmInd width a x y => exact execStore_flow p _ width _ _ regs m
  | storeInd width a b x => exact execStore_flow p _ width _ _ regs m
  | fallthrough | ecalli | loadImm64 | loadImm | moveReg | sbrk | unary | aluImm | alu =>
    exact .passes rfl rfl

end Instr

/-- How a step at `pc` leaves control: its exit and the next place. -/
inductive Cpu.Flow (p : Program) (pc : UInt32) : Exit → UInt32 → Prop where
  | unknown : p.fetch? pc = none → Flow p pc .panic pc
  | stops {f : Fetched} {exit : Exit} : p.fetch? pc = some f → exit.isTerminal = true →
      exit ≠ .outOfGas → Flow p pc exit pc
  | passes {f : Fetched} {exit : Exit} : p.fetch? pc = some f → exit.isTerminal = false →
      Flow p pc exit (followingPc pc f.skip)
  | jumps {f : Fetched} (target : UInt32) : p.fetch? pc = some f →
      f.instr.opcode.isTerminator = true → p.isBlockStart target.toNat = true →
      Flow p pc .continue target

theorem Cpu.Flow.ne_outOfGas {p : Program} {pc next : UInt32} {exit : Exit}
    (flow : Cpu.Flow p pc exit next) : exit ≠ .outOfGas := by
  rintro rfl
  cases flow <;> contradiction

theorem Cpu.step_flow (c : Cpu) (p : Program) :
    Cpu.Flow p c.pc (c.step p).1 (c.step p).2.pc := by
  rw [Cpu.step]
  split
  · rename_i missing
    exact .unknown missing
  · rename_i f fetched
    have flow := f.instr.exec_flow p c.registers c.memory
    generalize f.instr.exec p c.registers c.memory = effect at flow
    obtain ⟨exit, target, registers, memory⟩ := effect
    cases flow with
    | stops stops funded =>
      cases exit with
      | «continue» | hostCall => contradiction
      | _ => exact .stops fetched rfl funded
    | passes goesOn noTarget =>
      obtain rfl : target = none := noTarget
      cases exit with
      | «continue» | hostCall => exact .passes fetched rfl
      | _ => contradiction
    | jumps target terminator continues here lands =>
      cases continues
      cases here
      exact .jumps target fetched terminator lands

namespace Program.Built

variable {p : Program}

/-- The place after a fetched instruction lies in the code or at its end: the program counter does
not wrap. -/
theorem followingPc_toNat (built : p.Built) (short : p.code.size < UInt32.size) {pc : UInt32}
    {f : Fetched} (fetched : p.fetch? pc = some f) :
    (followingPc pc f.skip).toNat = pc.toNat + 1 + p.skip pc.toNat ∧
      pc.toNat + 1 + p.skip pc.toNat ≤ p.code.size := by
  obtain ⟨start, skip, -⟩ := fetch?_eq_some fetched
  have inside := built.lt_size_of_start start
  have size := built.size_tags
  have within := p.add_skip_le (show pc.toNat < p.tags.size by omega)
  have bound := p.skip_le pc.toNat
  simp only [UInt32.size, maxSkip] at short bound
  refine ⟨?_, by omega⟩
  simp only [followingPc, skip, UInt32.toNat_add, UInt32.toNat_ofNat']
  omega

end Program.Built

end ServiceVm
