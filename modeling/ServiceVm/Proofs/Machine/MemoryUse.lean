import ServiceVm.Proofs.Machine.Metering
import ServiceVm.Proofs.Memory.Flat

/-!
# What instructions do to memory

An instruction leaves memory alone, stores bytes in pages that are all writeable, or moves the end of
the heap. `Memory.Executed` lists the three, and what a whole run does follows from it.
-/
namespace ServiceVm

namespace Memory

variable {m m' m'' : Memory}

/-- What one instruction can make of a memory. -/
inductive Executed (m : Memory) : Memory → Prop where
  | same : Executed m m
  | stored (start : Nat) (data : Bytes) : data.size = 0 ∨ start + data.size ≤ addressSpace →
      (∀ k, Touches start (start + data.size) k → m.access k = .readWrite) →
      Executed m (m.write start data)
  | grown (amount : Nat) : Executed m (m.sbrk amount).2

theorem executed_store {address : UInt32} {data : Bytes} (done : m.store address data = .ok m') :
    m.Executed m' := by
  obtain ⟨inRange, writeable, rfl⟩ := (m.store_eq_ok m' address data).mp done
  exact .stored address.toNat data inRange fun k touched =>
    Access.isWriteable_eq_true.mp (writeable k touched)

theorem isWriteable_of_touched {start len : Nat} (inRange : len = 0 ∨ start + len ≤ addressSpace)
    (writeable : ∀ k, Touches start (start + len) k → m.access k = .readWrite) :
    m.isWriteable start len = true := by
  refine (m.isWriteable_iff start len).mpr ?_
  by_cases empty : len = 0
  · exact .inl empty
  · refine .inr ⟨by omega, writeable _ ⟨start, by omega, by omega, rfl⟩,
      writeable _ ⟨start + len - 1, by omega, by omega, rfl⟩⟩

theorem sbrk_cases (m : Memory) (amount : Nat) :
    (m.sbrk amount).2 = m ∨
      (m.sbrk amount).2 = { m.growHeap amount with heapPointer := m.heapPointer + amount } := by
  rw [sbrk_eq]
  split
  · exact .inl rfl
  · split
    · exact .inl rfl
    · exact .inr rfl

theorem byte_sbrk (m : Memory) (amount a : Nat) : (m.sbrk amount).2.byte a = m.byte a := by
  rcases m.sbrk_cases amount with same | grown
  · rw [same]
  · rw [grown]
    exact m.byte_growHeap amount a

theorem heapPointer_le_sbrk (m : Memory) (amount : Nat) : m.heapPointer ≤ (m.sbrk amount).2.heapPointer := by
  rcases m.sbrk_cases amount with same | grown
  · rw [same]
  · rw [grown]
    exact Nat.le_add_right _ _

/-- Rights change only where the end of the heap has passed, and become those to write. -/
theorem access_sbrk_cases (m : Memory) (amount k : Nat) :
    (m.sbrk amount).2.access k = m.access k ∨
      ((m.sbrk amount).2.access k = .readWrite ∧ Touches m.heapPointer (m.sbrk amount).2.heapPointer k) := by
  rcases m.sbrk_cases amount with same | grown
  · rw [same]
    exact .inl rfl
  · rw [grown]
    have rights := m.access_growHeap amount k
    split at rights
    · rename_i mapped
      exact .inr ⟨rights, mapped.2⟩
    · exact .inl rights

theorem access_sbrk {amount k : Nat} (grows : m.HeapGrows amount)
    (passed : Touches m.heapPointer (m.heapPointer + amount) k) : (m.sbrk amount).2.access k = .readWrite := by
  rw [sbrk_eq, if_neg grows.1, if_neg (Nat.not_lt.mpr grows.2.1)]
  exact (m.access_growHeap amount k).trans (if_pos ⟨grows, passed⟩)

/-- What a run of instructions makes of a memory: what could be written still can, and bytes differ
only where they can be written now. -/
structure Worked (m m' : Memory) : Prop where
  writeable : ∀ k, m.access k = .readWrite → m'.access k = .readWrite
  changed : ∀ a, m'.byte a ≠ m.byte a → m'.access (pageOf a) = .readWrite

theorem Worked.refl (m : Memory) : m.Worked m := ⟨fun _ => id, fun _ differs => absurd rfl differs⟩

theorem Worked.trans (first : m.Worked m') (second : m'.Worked m'') : m.Worked m'' where
  writeable k before := second.writeable k (first.writeable k before)
  changed a differs := by
    by_cases same : m''.byte a = m'.byte a
    · exact second.writeable _ (first.changed a fun kept => differs (same.trans kept))
    · exact second.changed a same

theorem Executed.worked (executed : m.Executed m') : m.Worked m' := by
  cases executed with
  | same => exact .refl m
  | stored start data _ writeable =>
    refine ⟨fun k before => by rw [access_write, before], fun a differs => ?_⟩
    rw [access_write]
    rw [byte_write] at differs
    split at differs
    · rename_i written
      exact writeable _ ⟨a, written.1, by omega, rfl⟩
    · exact absurd rfl differs
  | grown amount =>
    refine ⟨fun k before => ?_, fun a differs => absurd (m.byte_sbrk amount a) differs⟩
    rcases m.access_sbrk_cases amount k with kept | ⟨mapped, -⟩
    · rw [kept, before]
    · exact mapped

end Memory

/-! ## Steps -/

theorem Instr.execLoad_memory (kind : LoadKind) (a : Reg) (address : UInt64) (regs : Registers) (m : Memory) :
    (execLoad kind a address regs m).memory = m := by
  rw [execLoad]
  split
  · rfl
  · rfl

theorem Instr.execStore_memory (width : Width) (address value : UInt64) (regs : Registers) (m : Memory) :
    m.Executed (execStore width address value regs m).memory := by
  rw [execStore]
  split
  · exact .same
  · rename_i stored done
    exact Memory.executed_store done

theorem Instr.exec_memory (p : Program) (instr : Instr) (regs : Registers) (m : Memory) :
    m.Executed (instr.exec p regs m).memory := by
  cases instr with
  | storeImm width x y => exact execStore_memory ..
  | store width a x => exact execStore_memory ..
  | storeImmInd width a x y => exact execStore_memory ..
  | storeInd width a b x => exact execStore_memory ..
  | load kind a x =>
    rw [exec, execLoad_memory]
    exact .same
  | loadInd kind a b x =>
    rw [exec, execLoad_memory]
    exact .same
  | branchImm c a x target =>
    rw [exec]
    split
    · exact .same
    · exact .same
  | branch c a b target =>
    rw [exec]
    split
    · exact .same
    · exact .same
  | sbrk d a => exact .grown _
  | _ => exact .same

theorem Cpu.step_memory (c : Cpu) (p : Program) : c.memory.Executed (c.step p).2.memory := by
  rw [Cpu.step]
  cases p.fetch? c.pc with
  | none => exact .same
  | some fetched => exact fetched.instr.exec_memory p c.registers c.memory

namespace Machine

theorem step_memory (m : Machine) (mode : GasMode) : m.cpu.memory.Executed (m.step mode).2.cpu.memory := by
  rcases m.step_cases mode with ⟨-, step⟩ | ⟨-, -, step⟩
  · rw [step, (m.charge_frame mode).2.1]
    exact .same
  · rw [step]
    exact m.cpu.step_memory m.program

/-! ## Runs -/

/-- What holds of the memory of a machine at first, and is kept by every instruction, holds when the
machine stops. -/
theorem runFor_memory_invariant {P : Memory → Prop} (kept : ∀ {m m' : Memory}, P m → m.Executed m' → P m')
    (mode : GasMode) (fuel : Nat) {m : Machine} (start : P m.cpu.memory) :
    P (runFor mode fuel m).2.cpu.memory := by
  induction fuel generalizing m with
  | zero => exact start
  | succ fuel ih =>
    have next := kept start (m.step_memory mode)
    rw [runFor_succ]
    split
    · exact ih next
    · exact next

theorem runFor_memory (mode : GasMode) (fuel : Nat) (m : Machine) :
    m.cpu.memory.Worked (runFor mode fuel m).2.cpu.memory :=
  runFor_memory_invariant (fun worked executed => worked.trans executed.worked) mode fuel (.refl _)

theorem run_memory (m : Machine) (mode : GasMode) : m.cpu.memory.Worked (m.run mode).2.cpu.memory :=
  runFor_memory mode m.stepBound m

end Machine

end ServiceVm
