import ServiceVm.Proofs.Instr.Integrity
import ServiceVm.Proofs.Instr.RegisterUse

/-!
# Immediate and register forms

Every operation on a register and an immediate has a form that takes both operands from registers, and
so has every branch that compares with an immediate. The two forms agree: the immediate takes the place
of the second register, or of the first one where the immediate form has its operands the other way
around.
-/
namespace ServiceVm

namespace ImmOp

/-- The operation on two registers that an operation with an immediate is a form of. -/
def onRegisters : ImmOp → BinaryOp
  | .add32 => .add32
  | .add64 => .add64
  | .mul32 => .mul32
  | .mul64 => .mul64
  | .negAdd32 => .sub32
  | .negAdd64 => .sub64
  | .and => .and
  | .xor => .xor
  | .or => .or
  | .setLtU | .setGtU => .setLtU
  | .setLtS | .setGtS => .setLtS
  | .shloL32 | .shloLAlt32 => .shloL32
  | .shloR32 | .shloRAlt32 => .shloR32
  | .sharR32 | .sharRAlt32 => .sharR32
  | .shloL64 | .shloLAlt64 => .shloL64
  | .shloR64 | .shloRAlt64 => .shloR64
  | .sharR64 | .sharRAlt64 => .sharR64
  | .rotR64 | .rotR64Alt => .rotR64
  | .rotR32 | .rotR32Alt => .rotR32
  | .cmovIz => .cmovIz
  | .cmovNz => .cmovNz

/-- Whether the immediate stands for the first of the two registers: in shifts and rotations of the
immediate, in subtractions from it, in comparisons by "greater", and in conditional moves. -/
def immediateFirst : ImmOp → Bool
  | .shloLAlt32 | .shloRAlt32 | .sharRAlt32 | .shloLAlt64 | .shloRAlt64 | .sharRAlt64 | .rotR64Alt
  | .rotR32Alt | .negAdd32 | .negAdd64 | .setGtU | .setGtS | .cmovIz | .cmovNz => true
  | _ => false

def operands (op : ImmOp) (b x : UInt64) : UInt64 × UInt64 :=
  if op.immediateFirst then (x, b) else (b, x)

theorem apply_eq (op : ImmOp) (b x : UInt64) {old old' : UInt64} (kept : op.isMove = true → old' = old) :
    op.apply b x old = op.onRegisters.apply (op.operands b x).1 (op.operands b x).2 old' := by
  cases op with
  | cmovIz | cmovNz =>
    obtain rfl := kept rfl
    rfl
  | _ => rfl

/-- Where the immediate stands for the first register, it cannot stand for the second. -/
theorem exists_apply_ne {op : ImmOp} (first : op.immediateFirst = true) :
    ∃ b x old, op.apply b x old ≠ op.onRegisters.apply b x old := by
  cases op with
  | shloLAlt32 | shloRAlt32 | sharRAlt32 | shloLAlt64 | shloRAlt64 | sharRAlt64 | rotR64Alt | rotR32Alt
  | negAdd32 | negAdd64 | setGtU | setGtS | cmovNz => exact ⟨1, 3, 5, by decide⟩
  | cmovIz => exact ⟨0, 3, 5, by decide⟩
  | _ => contradiction

end ImmOp

namespace ImmCondition

/-- The comparison of two registers that a comparison with an immediate is a form of. -/
def onRegisters : ImmCondition → Condition
  | .eq => .eq
  | .ne => .ne
  | .ltU | .gtU => .ltU
  | .geU | .leU => .geU
  | .ltS | .gtS => .ltS
  | .geS | .leS => .geS

/-- Whether the immediate stands for the first of the two registers: in comparisons by "at most" and
"greater". -/
def immediateFirst : ImmCondition → Bool
  | .leU | .gtU | .leS | .gtS => true
  | _ => false

def operands (k : ImmCondition) (a x : UInt64) : UInt64 × UInt64 :=
  if k.immediateFirst then (x, a) else (a, x)

theorem holds_eq (k : ImmCondition) (a x : UInt64) :
    k.holds a x = k.onRegisters.holds (k.operands a x).1 (k.operands a x).2 := by
  cases k <;> rfl

theorem exists_holds_ne {k : ImmCondition} (first : k.immediateFirst = true) :
    ∃ a x, k.holds a x ≠ k.onRegisters.holds a x := by
  cases k with
  | leU | gtU | leS | gtS => exact ⟨1, 3, by decide⟩
  | _ => contradiction

end ImmCondition

namespace Cpu

variable {p : Program} {c : Cpu} {skip : Nat} {a b r s t : Reg} {x : UInt64} {target : UInt32}

theorem step_aluImm {op : ImmOp} (fetched : p.fetch? c.pc = some ⟨.aluImm op a b x, skip⟩) :
    c.step p = (.continue, ⟨followingPc c.pc skip,
      c.registers.put a (op.apply (c.registers.get b) x (c.registers.get a)), c.memory⟩) := by
  simp only [step, fetched, Instr.exec, Option.getD_none]

theorem step_alu {op : BinaryOp} (fetched : p.fetch? c.pc = some ⟨.alu op r s t, skip⟩) :
    c.step p = (.continue, ⟨followingPc c.pc skip,
      c.registers.put t (op.apply (c.registers.get r) (c.registers.get s) (c.registers.get t)),
      c.memory⟩) := by
  simp only [step, fetched, Instr.exec, Option.getD_none]

def branched (c : Cpu) (p : Program) (taken : Bool) (target : UInt32) (skip : Nat) : Exit × Cpu :=
  if taken then ((p.branchTo target).1, { c with pc := (p.branchTo target).2.getD c.pc })
  else (.continue, { c with pc := followingPc c.pc skip })

theorem step_of_branch {instr : Instr} {taken : Bool} (fetched : p.fetch? c.pc = some ⟨instr, skip⟩)
    (effect : instr.exec p c.registers c.memory =
      if taken then Instr.jumpEffect (p.branchTo target) c.registers c.memory
      else ⟨.continue, none, c.registers, c.memory⟩) :
    c.step p = c.branched p taken target skip := by
  simp only [step, fetched, effect, branched]
  cases taken with
  | false => rfl
  | true =>
    simp only [if_true, Instr.jumpEffect, Program.branchTo_eq]
    split
    · rfl
    · rfl

theorem step_branchImm {k : ImmCondition} (fetched : p.fetch? c.pc = some ⟨.branchImm k a x target, skip⟩) :
    c.step p = c.branched p (k.holds (c.registers.get a) x) target skip := step_of_branch fetched rfl

theorem step_branch {k : Condition} (fetched : p.fetch? c.pc = some ⟨.branch k r s target, skip⟩) :
    c.step p = c.branched p (k.holds (c.registers.get r) (c.registers.get s)) target skip :=
  step_of_branch fetched rfl

/-- Immediate forms agree with register forms. An operation with an immediate does what its register form
does where the immediate is in place of one register: both put the same value in their destination and
go on. A branch that compares with an immediate is taken if and only if the comparison of the registers
holds, as is the branch that compares them. Which register the immediate stands for is `immediateFirst`,
and where it stands for the first it cannot stand for the second. -/
theorem immediate_forms_agree (p q : Program) (c d : Cpu) (skip skip' : Nat) :
    (∀ (op : ImmOp) (a b r s t : Reg) (x : UInt64),
      p.fetch? c.pc = some ⟨.aluImm op a b x, skip⟩ →
      q.fetch? d.pc = some ⟨.alu op.onRegisters r s t, skip'⟩ →
      (d.registers.get r, d.registers.get s) = op.operands (c.registers.get b) x →
      (op.isMove = true → d.registers.get t = c.registers.get a) →
      ∃ value, c.step p = (.continue, ⟨followingPc c.pc skip, c.registers.put a value, c.memory⟩) ∧
        d.step q = (.continue, ⟨followingPc d.pc skip', d.registers.put t value, d.memory⟩)) ∧
    (∀ (k : ImmCondition) (a r s : Reg) (x : UInt64) (target target' : UInt32),
      p.fetch? c.pc = some ⟨.branchImm k a x target, skip⟩ →
      q.fetch? d.pc = some ⟨.branch k.onRegisters r s target', skip'⟩ →
      (d.registers.get r, d.registers.get s) = k.operands (c.registers.get a) x →
      ∃ taken, taken = k.onRegisters.holds (d.registers.get r) (d.registers.get s) ∧
        c.step p = c.branched p taken target skip ∧ d.step q = d.branched q taken target' skip') ∧
    (∀ op : ImmOp, op.immediateFirst = true →
      ∃ b x old, op.apply b x old ≠ op.onRegisters.apply b x old) ∧
    ∀ k : ImmCondition, k.immediateFirst = true → ∃ a x, k.holds a x ≠ k.onRegisters.holds a x := by
  refine ⟨?_, ?_, fun op => ImmOp.exists_apply_ne, fun k => ImmCondition.exists_holds_ne⟩
  · intro op a b r s t x immediate register operands kept
    refine ⟨_, step_aluImm immediate, ?_⟩
    rw [step_alu register, op.apply_eq _ _ kept, ← operands]
  · intro k a r s x target target' immediate register operands
    refine ⟨_, rfl, ?_, step_branch register⟩
    rw [step_branchImm immediate, k.holds_eq, ← operands]

end Cpu

def subtractFromTen : Program := Program.ofCode #[154, 0x78, 10, 0] #[true, false, false, true] #[] 0

def subtractRegisters : Program := Program.ofCode #[201, 0x79, 8, 0] #[true, false, false, true] #[] 0

theorem subtractions_agree :
    (Cpu.step ⟨0, Registers.zero.put Reg.r7 12, {}⟩ subtractFromTen).2.registers.get Reg.r8 =
      (Cpu.step ⟨0, (Registers.zero.put Reg.r7 12).put Reg.r9 10, {}⟩ subtractRegisters).2.registers.get
        Reg.r8 := by
  have immediate : subtractFromTen.fetch? 0 = some ⟨.aluImm .negAdd64 Reg.r8 Reg.r7 10, 2⟩ := by
    decide +kernel
  have register : subtractRegisters.fetch? 0 = some ⟨.alu .sub64 Reg.r9 Reg.r7 Reg.r8, 2⟩ := by
    decide +kernel
  obtain ⟨value, left, right⟩ :=
    (Cpu.immediate_forms_agree subtractFromTen subtractRegisters ⟨0, Registers.zero.put Reg.r7 12, {}⟩
      ⟨0, (Registers.zero.put Reg.r7 12).put Reg.r9 10, {}⟩ 2 2).1 _ _ _ _ _ _ _ immediate register
      (by decide) nofun
  rw [left, right]
  exact (RegFile.get_put ..).trans (RegFile.get_put ..).symm

end ServiceVm
