import ServiceVm.Instr.Step

/-!
# Registers that instructions use

The pipeline simulation sees no registers: it takes hazards from `Instr.reads` and `Instr.writes`. Here
these lists are held against execution. Two executions that start with the same values in the
registers read do the same: they stop or go on alike, leave the same memory, and make the same change
to the registers, which is at most one write, to a register of the second list.
-/
namespace ServiceVm

/-- The registers once a value was written to one of them, or to none. -/
def Registers.update (regs : Registers) : Option (Reg × UInt64) → Registers
  | none => regs
  | some (r, value) => regs.put r value

theorem Registers.get_update {regs : Registers} {change : Option (Reg × UInt64)} {r : Reg}
    (other : ∀ w ∈ change, w.1 ≠ r) : (regs.update change).get r = regs.get r := by
  cases change with
  | none => rfl
  | some w => rw [update, RegFile.get_put, if_neg (other w rfl)]

theorem Registers.get_update_cases (first second : Registers) (change : Option (Reg × UInt64)) (r : Reg) :
    ((first.update change).get r = first.get r ∧ (second.update change).get r = second.get r) ∨
      (first.update change).get r = (second.update change).get r := by
  cases change with
  | none => exact .inl ⟨rfl, rfl⟩
  | some w =>
    simp only [update, RegFile.get_put]
    by_cases same : w.1 = r
    · exact .inr (by rw [if_pos same, if_pos same])
    · exact .inl ⟨if_neg same, if_neg same⟩

/-- Effects on two register files that differ only by what the files held before: the same change was
made to both, within the given registers. -/
structure Effect.Alike (writes : List Reg) (first second : Registers) (e e' : Effect) : Prop where
  exit : e.exit = e'.exit
  target : e.target = e'.target
  memory : e.memory = e'.memory
  registers : ∃ change : Option (Reg × UInt64), (∀ w ∈ change, w.1 ∈ writes) ∧
    e.registers = first.update change ∧ e'.registers = second.update change

namespace Effect.Alike

variable {writes : List Reg} {first second : Registers} {exit : Exit} {target : Option UInt32}
  {memory : Memory}

theorem kept : Alike writes first second ⟨exit, target, first, memory⟩ ⟨exit, target, second, memory⟩ :=
  ⟨rfl, rfl, rfl, none, by simp, rfl, rfl⟩

theorem put {r : Reg} (value : UInt64) (written : r ∈ writes) :
    Alike writes first second ⟨exit, target, first.put r value, memory⟩
      ⟨exit, target, second.put r value, memory⟩ :=
  ⟨rfl, rfl, rfl, some (r, value), by simpa using written, rfl, rfl⟩

end Effect.Alike

/-- Conditional moves keep the old value of their destination if the condition fails. -/
def ImmOp.isMove : ImmOp → Bool
  | .cmovIz | .cmovNz => true
  | _ => false

def BinaryOp.isMove : BinaryOp → Bool
  | .cmovIz | .cmovNz => true
  | _ => false

theorem ImmOp.apply_old {f : ImmOp} (computes : f.isMove = false) (b x old old' : UInt64) :
    f.apply b x old = f.apply b x old' := by
  cases f <;> first | rfl | contradiction

theorem BinaryOp.apply_old {f : BinaryOp} (computes : f.isMove = false) (a b old old' : UInt64) :
    f.apply a b old = f.apply a b old' := by
  cases f <;> first | rfl | contradiction

namespace Instr

theorem reads_aluImm (f : ImmOp) (a b : Reg) (x : UInt64) :
    (aluImm f a b x).reads = if f.isMove then [a, b] else [b] := by
  cases f <;> rfl

theorem reads_alu (f : BinaryOp) (a b d : Reg) :
    (alu f a b d).reads = if f.isMove then [a, b, d] else [a, b] := by
  cases f <;> rfl

section Alike

variable {first second : Registers}

theorem execLoad_alike {writes : List Reg} (kind : LoadKind) {a : Reg} (written : a ∈ writes)
    (address : UInt64) (memory : Memory) :
    (execLoad kind a address first memory).Alike writes first second
      (execLoad kind a address second memory) := by
  cases loaded : memory.load address.toUInt32 kind.bytes with
  | error exit =>
    simp only [execLoad, loaded]
    exact .kept
  | ok data =>
    simp only [execLoad, loaded]
    exact .put _ written

theorem execStore_alike {writes : List Reg} (width : Width) (address value : UInt64) (memory : Memory) :
    (execStore width address value first memory).Alike writes first second
      (execStore width address value second memory) := by
  cases stored : memory.store address.toUInt32 (Bytes.ofWord value width.bytes) with
  | error exit =>
    simp only [execStore, stored]
    exact .kept
  | ok memory =>
    simp only [execStore, stored]
    exact .kept

theorem apply_aluImm {f : ImmOp} {a b : Reg} {x : UInt64}
    (agree : ∀ r ∈ (aluImm f a b x).reads, first.get r = second.get r) :
    f.apply (first.get b) x (first.get a) = f.apply (second.get b) x (second.get a) := by
  rw [reads_aluImm] at agree
  cases moves : f.isMove with
  | true =>
    rw [moves, if_pos rfl] at agree
    rw [agree a (by simp), agree b (by simp)]
  | false =>
    rw [moves] at agree
    rw [agree b (by simp)]
    exact ImmOp.apply_old moves ..

theorem apply_alu {f : BinaryOp} {a b d : Reg}
    (agree : ∀ r ∈ (alu f a b d).reads, first.get r = second.get r) :
    f.apply (first.get a) (first.get b) (first.get d) =
      f.apply (second.get a) (second.get b) (second.get d) := by
  rw [reads_alu] at agree
  cases moves : f.isMove with
  | true =>
    rw [moves, if_pos rfl] at agree
    rw [agree a (by simp), agree b (by simp), agree d (by simp)]
  | false =>
    rw [moves] at agree
    rw [agree a (by simp), agree b (by simp)]
    exact BinaryOp.apply_old moves ..

/-- What an instruction does depends on the registers it reads, and it writes to no others than it
lists. -/
theorem exec_alike (p : Program) (instr : Instr) (memory : Memory)
    (agree : ∀ r ∈ instr.reads, first.get r = second.get r) :
    (instr.exec p first memory).Alike instr.writes first second (instr.exec p second memory) := by
  cases instr with
  | trap | fallthrough | ecalli | jump => exact .kept
  | loadImm64 a x | loadImm a x | loadImmJump a x target => exact .put x (List.mem_singleton.mpr rfl)
  | storeImm width x y => exact execStore_alike width x y memory
  | load kind a x => exact execLoad_alike kind (List.mem_singleton.mpr rfl) x memory
  | jumpInd a x =>
    rw [exec, exec, agree a (List.mem_singleton.mpr rfl)]
    exact .kept
  | store width a x =>
    rw [exec, exec, agree a (List.mem_singleton.mpr rfl)]
    exact execStore_alike width x _ memory
  | storeImmInd width a x y =>
    rw [exec, exec, agree a (List.mem_singleton.mpr rfl)]
    exact execStore_alike width _ y memory
  | branchImm c a x target =>
    rw [exec, exec, agree a (List.mem_singleton.mpr rfl)]
    split
    · exact .kept
    · exact .kept
  | moveReg d a | unary f d a | sbrk d a =>
    rw [exec, exec, agree a (List.mem_singleton.mpr rfl)]
    exact .put _ (List.mem_singleton.mpr rfl)
  | storeInd width a b x =>
    rw [exec, exec, agree a (by simp [reads]), agree b (by simp [reads])]
    exact execStore_alike width _ _ memory
  | loadInd kind a b x =>
    rw [exec, exec, agree b (List.mem_singleton.mpr rfl)]
    exact execLoad_alike kind (List.mem_singleton.mpr rfl) _ memory
  | branch c a b target =>
    rw [exec, exec, agree a (by simp [reads]), agree b (by simp [reads])]
    split
    · exact .kept
    · exact .kept
  | loadImmJumpInd a b x y =>
    rw [exec, exec, agree b (List.mem_singleton.mpr rfl)]
    exact .put x (List.mem_singleton.mpr rfl)
  | aluImm f a b x =>
    rw [exec, exec, apply_aluImm agree]
    exact .put _ (List.mem_singleton.mpr rfl)
  | alu f a b d =>
    rw [exec, exec, apply_alu agree]
    exact .put _ (List.mem_singleton.mpr rfl)

end Alike

end Instr

/-- The lists of registers that the pipeline simulation works with are those of execution. From any
memory, two executions of an instruction that agree on the registers it reads give the same exit, the
same next place and the same memory. Registers it does not write keep their values, and a register
it writes keeps its value in both executions or has the same value after both. -/
theorem Cpu.step_respects_register_use {p : Program} {pc : UInt32} {f : Fetched}
    (fetched : p.fetch? pc = some f) (memory : Memory) (first second : Registers)
    (agree : ∀ r ∈ f.instr.reads, first.get r = second.get r) :
    (Cpu.step ⟨pc, first, memory⟩ p).1 = (Cpu.step ⟨pc, second, memory⟩ p).1 ∧
    (Cpu.step ⟨pc, first, memory⟩ p).2.pc = (Cpu.step ⟨pc, second, memory⟩ p).2.pc ∧
    (Cpu.step ⟨pc, first, memory⟩ p).2.memory = (Cpu.step ⟨pc, second, memory⟩ p).2.memory ∧
    (∀ r, r ∉ f.instr.writes →
      (Cpu.step ⟨pc, first, memory⟩ p).2.registers.get r = first.get r ∧
      (Cpu.step ⟨pc, second, memory⟩ p).2.registers.get r = second.get r) ∧
    ∀ r ∈ f.instr.writes,
      ((Cpu.step ⟨pc, first, memory⟩ p).2.registers.get r = first.get r ∧
        (Cpu.step ⟨pc, second, memory⟩ p).2.registers.get r = second.get r) ∨
      (Cpu.step ⟨pc, first, memory⟩ p).2.registers.get r =
        (Cpu.step ⟨pc, second, memory⟩ p).2.registers.get r := by
  obtain ⟨exit, target, left, change, written, after, after'⟩ := f.instr.exec_alike p memory agree
  simp only [Cpu.step, fetched, exit, target, left, after, after', true_and]
  refine ⟨?_, fun r _ => first.get_update_cases second change r⟩
  intro r unwritten
  have other : ∀ w ∈ change, w.1 ≠ r := by
    rintro w member rfl
    exact unwritten (written w member)
  exact ⟨Registers.get_update other, Registers.get_update other⟩

/-- A jump through register 0 that overwrites the same register. -/
def aliasedJump : Program :=
  Program.ofCode #[180, 0, 1, 9, 0] #[true, false, false, false, true] #[4] 4

def aliasedRegisters : Registers := Registers.zero.put Reg.r0 2

theorem aliasedJump_respects_register_use :
    (Cpu.step ⟨0, aliasedRegisters.put Reg.r7 5, {}⟩ aliasedJump).1 = .continue ∧
      (Cpu.step ⟨0, aliasedRegisters.put Reg.r7 5, {}⟩ aliasedJump).2.pc = 4 ∧
      (Cpu.step ⟨0, aliasedRegisters.put Reg.r7 5, {}⟩ aliasedJump).2.registers.get Reg.r7 = 5 := by
  have fetched : aliasedJump.fetch? 0 = some ⟨.loadImmJumpInd Reg.r0 Reg.r0 9 0, 3⟩ := by decide +kernel
  obtain ⟨exit, pc, -, kept, -⟩ := Cpu.step_respects_register_use fetched {} aliasedRegisters
    (aliasedRegisters.put Reg.r7 5) (by decide +kernel)
  refine ⟨?_, ?_, (kept Reg.r7 (by decide)).2⟩
  · rw [← exit]
    decide +kernel
  · rw [← pc]
    decide +kernel

end ServiceVm
