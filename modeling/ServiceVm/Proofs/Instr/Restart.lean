import ServiceVm.Proofs.Instr.Integrity
import ServiceVm.Proofs.Instr.LoadStore
import ServiceVm.Proofs.Instr.RegisterUse

/-!
# Stopped instructions

An instruction that panics, faults or halts leaves the machine as it was, but for jumps that set a
register before they are tried. Page faults come from loads and stores, which set nothing before they
are refused: such an instruction can be executed again once its page is accessible, and then does what
it would have done at first.
-/
namespace ServiceVm

/-- Exits of instructions that touch no memory and call nobody. -/
def Exit.isPlain : Exit → Bool
  | .continue | .panic | .halt => true
  | _ => false

theorem Program.branchTo_isPlain (p : Program) (target : UInt32) : (p.branchTo target).1.isPlain = true := by
  rw [branchTo_eq]
  split <;> rfl

theorem Program.dynamicJump_isPlain (p : Program) (address : UInt64) :
    (p.dynamicJump address).1.isPlain = true := by
  simp only [dynamicJump]
  split
  · rfl
  split
  · rfl
  split
  · rfl
  split <;> rfl

namespace Instr

variable {p : Program} {instr : Instr} {regs : Registers} {m : Memory}

/-- The register that a jump sets before it is tried, with its new value. -/
def link? : Instr → Option (Reg × UInt64)
  | .loadImmJump a x _ | .loadImmJumpInd a _ x _ => some (a, x)
  | _ => none

theorem link?_of_move? {move : Move} (moves : instr.move? regs = some move) : instr.link? = none := by
  cases instr <;> first | rfl | simp [move?] at moves

theorem exec_isPlain (still : instr.move? regs = none) :
    (instr.exec p regs m).exit.isPlain = true ∨ ∃ x, instr = .ecalli x := by
  cases instr with
  | load | loadInd | storeImm | store | storeImmInd | storeInd => simp [move?] at still
  | ecalli x => exact .inr ⟨x, rfl⟩
  | jump target => exact .inl (p.branchTo_isPlain target)
  | loadImmJump a x target => exact .inl (p.branchTo_isPlain target)
  | jumpInd a x => exact .inl (p.dynamicJump_isPlain _)
  | loadImmJumpInd a b x y => exact .inl (p.dynamicJump_isPlain _)
  | branchImm c a x target =>
    simp only [exec]
    split
    · exact .inl (p.branchTo_isPlain target)
    · exact .inl rfl
  | branch c a b target =>
    simp only [exec]
    split
    · exact .inl (p.branchTo_isPlain target)
    · exact .inl rfl
  | trap | fallthrough | loadImm64 | loadImm | moveReg | sbrk | unary | aluImm | alu => exact .inl rfl

theorem exec_move_cases {move : Move} (moves : instr.move? regs = some move) :
    (instr.exec p regs m).exit = .continue ∨
      ∃ b, m.RefusedAt move.allowed move.start move.len b ∧
        instr.exec p regs m = ⟨Memory.refusalExit b, none, regs, m⟩ := by
  rw [exec_of_move? moves]
  by_cases passes : move.Passes m
  · rw [Move.effect_of_passes passes]
    exact .inl (move.done_exit regs m).1
  · exact .inr (Move.effect_of_refused regs passes)

theorem exec_stops (stops : (instr.exec p regs m).exit.isTerminal = true) :
    (instr.exec p regs m).memory = m ∧ (instr.exec p regs m).registers = regs.update instr.link? := by
  cases moves : instr.move? regs with
  | some move =>
    rcases exec_move_cases (p := p) (m := m) moves with continues | ⟨b, -, effect⟩
    · simp [continues, Exit.isTerminal] at stops
    · rw [effect, link?_of_move? moves]
      exact ⟨rfl, rfl⟩
  | none =>
    cases instr with
    | load | loadInd | storeImm | store | storeImmInd | storeInd => simp [move?] at moves
    | trap | jump | jumpInd | loadImmJump | loadImmJumpInd => exact ⟨rfl, rfl⟩
    | branchImm c a x target =>
      simp only [exec] at stops ⊢
      split <;> exact ⟨rfl, rfl⟩
    | branch c a b target =>
      simp only [exec] at stops ⊢
      split <;> exact ⟨rfl, rfl⟩
    | fallthrough | ecalli | loadImm64 | loadImm | moveReg | sbrk | unary | aluImm | alu =>
      simp [exec, Exit.isTerminal] at stops

theorem exec_hostCall {id : UInt32} (calls : (instr.exec p regs m).exit = .hostCall id) :
    ∃ x, instr = .ecalli x := by
  cases moves : instr.move? regs with
  | some move =>
    rcases exec_move_cases (p := p) (m := m) moves with continues | ⟨b, -, effect⟩
    · simp [continues] at calls
    · simp only [effect, Memory.refusalExit] at calls
      split at calls <;> contradiction
  | none =>
    rcases exec_isPlain (p := p) (m := m) moves with plain | call
    · simp [calls, Exit.isPlain] at plain
    · exact call

theorem exec_pageFault {a : UInt32} (faults : (instr.exec p regs m).exit = .pageFault a) :
    ∃ move, instr.move? regs = some move ∧ m.RefusedAt move.allowed move.start move.len a.toNat := by
  cases moves : instr.move? regs with
  | some move =>
    rcases exec_move_cases (p := p) (m := m) moves with continues | ⟨b, refused, effect⟩
    · simp [continues] at faults
    · refine ⟨move, rfl, ?_⟩
      simp only [effect, Memory.refusalExit] at faults
      split at faults
      · contradiction
      · obtain rfl := Exit.pageFault.inj faults
        rwa [UInt32.toNat_ofNat_of_lt' refused.lt]
  | none =>
    rcases exec_isPlain (p := p) (m := m) moves with plain | ⟨x, rfl⟩
    · simp [faults, Exit.isPlain] at plain
    · simp [exec] at faults

end Instr

/-- A page that can be written refuses nothing. Only a range that leaves the address space is still
refused at the last page. -/
theorem Memory.RefusedAt.eq_last {m : Memory} {move : Move} {b : Nat}
    (refused : m.RefusedAt move.allowed move.start move.len b) (writeable : m.access (pageOf b) = .readWrite) :
    b = 0xfffff000 := by
  rcases refused with ⟨-, rfl⟩ | ⟨-, k, rfl, -, notAllowed, -⟩
  · rfl
  · have page : pageOf (k * pageSize) = k := Nat.mul_div_cancel k (by decide)
    rw [page] at writeable
    cases move <;> simp [writeable, Move.allowed, Access.isReadable, Access.isWriteable] at notAllowed

namespace Cpu

variable {p : Program} {c : Cpu}

theorem step_stops (stops : (c.step p).1.isTerminal = true) :
    (c.step p).2 = ⟨c.pc, c.registers.update ((p.fetch? c.pc).bind (·.instr.link?)), c.memory⟩ := by
  cases fetched : p.fetch? c.pc with
  | none => simp [step, fetched, Registers.update]
  | some f =>
    simp only [step, fetched] at stops ⊢
    obtain ⟨memory, registers⟩ := Instr.exec_stops stops
    rw [memory, registers]
    cases exit : (f.instr.exec p c.registers c.memory).exit with
    | «continue» | hostCall id => simp [exit, Exit.isTerminal] at stops
    | _ => rfl

theorem step_calls {id : UInt32} (calls : (c.step p).1 = .hostCall id) :
    (c.step p).2.registers = c.registers ∧ (c.step p).2.memory = c.memory := by
  cases fetched : p.fetch? c.pc with
  | none => simp [step, fetched] at calls
  | some f =>
    simp only [step, fetched] at calls ⊢
    obtain ⟨x, ecalli⟩ := Instr.exec_hostCall calls
    rw [ecalli]
    exact ⟨rfl, rfl⟩

theorem step_pageFault {a : UInt32} (faults : (c.step p).1 = .pageFault a) :
    (c.step p).2 = c ∧ ∃ f move, p.fetch? c.pc = some f ∧ f.instr.move? c.registers = some move ∧
      c.memory.RefusedAt move.allowed move.start move.len a.toNat := by
  have stopped := step_stops (c := c) (p := p) (by rw [faults]; rfl)
  cases fetched : p.fetch? c.pc with
  | none => simp [step, fetched] at faults
  | some f =>
    simp only [step, fetched] at faults
    obtain ⟨move, moves, refused⟩ := Instr.exec_pageFault faults
    refine ⟨?_, f, move, rfl, moves, refused⟩
    rw [stopped, fetched, Option.bind_some, Instr.link?_of_move? moves]
    rfl

/-- Stopping is precise. A step that panics, halts or faults leaves the place, the memory and the registers
as they were, but for the register that a jump has set before it was tried; a host call leaves memory and
registers as they were; and no step runs out of gas. After a page fault the instruction can be executed
again: whatever is made of the memory in between, it then does what it would have done on that memory at
first. If the page can be written by then, it does not fault there again, unless its range leaves the
address space. -/
theorem step_stops_precisely (p : Program) (c : Cpu) :
    ((c.step p).1 = .panic ∨ (c.step p).1 = .halt ∨ (∃ a, (c.step p).1 = .pageFault a) →
      (c.step p).2 = ⟨c.pc, c.registers.update ((p.fetch? c.pc).bind (·.instr.link?)), c.memory⟩) ∧
    (∀ id, (c.step p).1 = .hostCall id →
      (c.step p).2.registers = c.registers ∧ (c.step p).2.memory = c.memory) ∧
    (c.step p).1 ≠ .outOfGas ∧
    ∀ a, (c.step p).1 = .pageFault a →
      (∀ remap : Memory → Memory,
        Cpu.step { (c.step p).2 with memory := remap (c.step p).2.memory } p =
          Cpu.step { c with memory := remap c.memory } p) ∧
      ∀ m : Memory, m.access (pageOf a.toNat) = .readWrite →
        (Cpu.step { (c.step p).2 with memory := m } p).1 = .pageFault a → a = 0xfffff000 := by
  refine ⟨fun stops => step_stops ?_, fun id => step_calls, (c.step_flow p).ne_outOfGas, fun a faults => ?_⟩
  · rcases stops with panics | halts | ⟨a, faults⟩
    · rw [panics]; rfl
    · rw [halts]; rfl
    · rw [faults]; rfl
  · obtain ⟨unchanged, -⟩ := step_pageFault faults
    rw [unchanged]
    refine ⟨fun remap => rfl, fun m writeable again => ?_⟩
    obtain ⟨-, f, move, -, -, refused⟩ := step_pageFault again
    exact UInt32.toNat_inj.mp (refused.eq_last writeable)

end Cpu

/-- The second of the two pages can only be read. -/
def lockedPages : Memory := twoPages.setPages 0x21 1 .readOnly false

/-- A store that begins on a page that can be written and is refused on the next one stores nothing, and
goes on where it was once the page is unlocked. -/
theorem storeAndLoad_stops_precisely :
    Cpu.step ⟨0, straddlingRegisters, lockedPages⟩ storeAndLoad =
        (.pageFault 0x21000, ⟨0, straddlingRegisters, lockedPages⟩) ∧
      Cpu.step { (Cpu.step ⟨0, straddlingRegisters, lockedPages⟩ storeAndLoad).2 with
          memory := lockedPages.setPages 0x21 1 .readWrite false } storeAndLoad =
        Cpu.step ⟨0, straddlingRegisters, lockedPages.setPages 0x21 1 .readWrite false⟩ storeAndLoad ∧
      (Cpu.step ⟨0, straddlingRegisters, lockedPages.setPages 0x21 1 .readWrite false⟩ storeAndLoad).1 =
        .continue := by
  have faults : (Cpu.step ⟨0, straddlingRegisters, lockedPages⟩ storeAndLoad).1 = .pageFault 0x21000 := by
    decide +kernel
  have fetched : storeAndLoad.fetch? 0 = some ⟨.storeInd .w16 Reg.r0 Reg.r1 0, 1⟩ := by decide +kernel
  obtain ⟨stops, -, -, restarts⟩ :=
    Cpu.step_stops_precisely storeAndLoad ⟨0, straddlingRegisters, lockedPages⟩
  have stopped := stops (.inr (.inr ⟨_, faults⟩))
  rw [fetched] at stopped
  refine ⟨Prod.ext faults stopped, ?_, by decide +kernel⟩
  exact (restarts _ faults).1 fun _ => lockedPages.setPages 0x21 1 .readWrite false

end ServiceVm
