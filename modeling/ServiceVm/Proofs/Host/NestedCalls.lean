import ServiceVm.Proofs.Host.InvokeBlock
import ServiceVm.Proofs.Host.Nested

/-!
# Calls on nested machines

What the six calls make of the machines and of the memory of the guest, in terms of the registers they
are made with. A call names at most one machine, and only two of them write to the memory of the
guest, each in a range of its own.
-/
namespace ServiceVm

/-! ## Memory outside a range -/

namespace Memory

variable {m : Memory} {start len : Nat} {data : Bytes}

/-- The memories differ in the bytes of a range at most. -/
structure SameOutside (start len : Nat) (m m' : Memory) : Prop where
  access : ∀ k, m'.access k = m.access k
  heapPointer : m'.heapPointer = m.heapPointer
  byte : ∀ a, a < start ∨ start + len ≤ a → m'.byte a = m.byte a

theorem SameOutside.refl (start len : Nat) (m : Memory) : SameOutside start len m m :=
  ⟨fun _ => rfl, rfl, fun _ _ => rfl⟩

theorem sameOutside_write (m : Memory) (start : Nat) (data : Bytes) :
    SameOutside start data.size m (m.write start data) where
  access := m.access_write start data
  heapPointer := m.heapPointer_write start data
  byte a outside := by rw [byte_write, if_neg (by omega)]

theorem sameOutside_encode (m : Memory) (start : Nat) (block : InvokeBlock) :
    SameOutside start InvokeBlock.size m (m.write start block.encode) :=
  block.size_encode ▸ m.sameOutside_write start block.encode

theorem inRange_of_isWriteable (writeable : m.isWriteable start len = true) :
    len = 0 ∨ start + len ≤ addressSpace :=
  ((m.isWriteable_iff start len).mp writeable).imp_right And.left

/-- A short range has no page between its ends, so that it can be read if it passes. -/
theorem read_of_isWriteable (short : len ≤ pageSize + 1) (writeable : m.isWriteable start len = true) :
    m.read start len = .ok (m.bytesAt start len) := by
  refine (m.read_eq_ok start len _).mpr ?_
  rcases (m.isWriteable_iff start len).mp writeable with rfl | ⟨inRange, first, last⟩
  · refine ⟨.inl rfl, ?_, rfl⟩
    rintro k ⟨a, low, high, -⟩
    omega
  · refine ⟨.inr inRange, fun k touched => ?_, rfl⟩
    have ends : k = pageOf start ∨ k = pageOf (start + len - 1) := by
      have page := (touches_iff _ _ _).mp touched
      simp only [pageOf, pageSize] at page short ⊢
      omega
    rcases ends with rfl | rfl
    · rw [first]
      rfl
    · rw [last]
      rfl

end Memory

/-! ## The calls -/

/-- The nested machines of an invocation. Only refinements have them. -/
def HostContext.machines : HostContext → Std.TreeMap UInt64 NestedMachine
  | .refinement c => c.machines
  | _ => ∅

def HostState.machines (s : HostState) : Std.TreeMap UInt64 NestedMachine := s.context.machines

namespace HostState

variable {s : HostState} {c : RefinementContext}

theorem machines_eq (found : s.context = .refinement c) : s.machines = c.machines := by
  rw [machines, found]
  rfl

theorem refinement_of_machine {handle : UInt64} {n : NestedMachine} (named : s.machines[handle]? = some n) :
    ∃ c, s.context = .refinement c ∧ c.machines[handle]? = some n := by
  rw [machines] at named
  cases held : s.context with
  | refinement c =>
    rw [held] at named
    exact ⟨c, rfl, named⟩
  | _ =>
    rw [held] at named
    exact absurd named (by simp [HostContext.machines])

/-- The machine `m` is suspended: its gas and registers stand in the block at `start`, and what else
there is of it is kept under `handle`. -/
structure Suspends (s : HostState) (handle start : UInt64) (m : Machine) : Prop where
  machine : s.machines[handle]? = some (NestedMachine.ofMachine m)
  block : s.memory.HoldsBlock start.toNat ⟨m.gas, m.cpu.registers⟩

theorem existsUnique_suspends {handle : UInt64} {n : NestedMachine}
    (named : s.machines[handle]? = some n) (start : UInt64) : ∃! m, s.Suspends handle start m := by
  obtain ⟨block, holds, unique⟩ := s.memory.existsUnique_holdsBlock start.toNat
  refine ⟨⟨n.program, ⟨n.pc, block.registers, n.memory⟩, block.gas, n.meter⟩, ⟨named, holds⟩, ?_⟩
  rintro ⟨program, ⟨pc, registers, memory⟩, gas, meter⟩ ⟨named', holds'⟩
  obtain rfl := unique _ holds'
  obtain rfl := Option.some.inj (named.symm.trans named')
  rfl

end HostState

namespace Host

open HostAction

variable {config : Config} {s s' : HostState}

theorem machine_ok (done : machine.perform s = .ok s') :
    ∃ blob program, s.readBytes s.r7 s.r8 = .ok blob ∧ Program.ofBlob blob = .ok program ∧
      s'.memory = s.memory ∧ s'.r7 = unusedHandle s.machines ∧
      s'.machines = s.machines.insert (unusedHandle s.machines)
        { program, pc := (toUInt32? s.r9).getD 0xffffffff } := by
  simp only [machine, perform_get, perform_lift_eq_ok] at done
  obtain ⟨blob, read, done⟩ := done
  split at done
  · exact (perform_throw_eq_ok.mp done).elim
  · rename_i program accepted
    simp only [perform_lift_eq_ok, perform_updateRefinement, perform_reply_eq_ok,
      HostState.refinement_ok] at done
    obtain ⟨c, found, rfl⟩ := done
    rw [HostState.machines_eq found, HostState.mapRefinement_eq found]
    exact ⟨blob, program, read, accepted, rfl, HostState.r7_reply .., rfl⟩

theorem machine_eq_ok {c : RefinementContext} {blob : Bytes} {program : Program}
    (found : s.context = .refinement c) (read : s.readBytes s.r7 s.r8 = .ok blob)
    (accepted : Program.ofBlob blob = .ok program) :
    machine.perform s = .ok (({ s with context := .refinement { c with
      machines := c.machines.insert (unusedHandle c.machines)
        { program, pc := (toUInt32? s.r9).getD 0xffffffff } } } : HostState).reply
          (unusedHandle c.machines)) := by
  simp only [machine, perform_get, read, perform_ok, accepted, HostState.refinement, found]
  rw [perform_updateRefinement, perform_reply, HostState.mapRefinement_eq found]

theorem peek_ok (done : peek.perform s = .ok s') :
    ∃ n, s.machines[s.r7]? = some n ∧ s.memory.isWriteable s.r8.toNat s.r10.toNat = true ∧
      s'.machines = s.machines ∧ s'.r7 = replyOk ∧
      s'.memory = s.memory.write s.r8.toNat (n.memory.bytesAt s.r9.toNat s.r10.toNat) := by
  simp only [peek, perform_get, perform_lift_eq_ok, perform_guard_eq_ok, require_ok,
    HostState.refinement_ok] at done
  obtain ⟨writeable, c, found, n, named, -, done⟩ := done
  split at done
  · exact (perform_throw_eq_ok.mp done).elim
  · rename_i data read
    simp only [perform_writeMemory, perform_reply_eq_ok] at done
    obtain rfl := done
    obtain ⟨-, -, rfl⟩ := (n.memory.read_eq_ok ..).mp read
    rw [HostState.machines_eq found]
    refine ⟨n, named, by simpa using writeable, ?_, HostState.r7_reply .., rfl⟩
    exact HostState.machines_eq found

theorem pages_ok (done : pages.perform s = .ok s') :
    ∃ n memory, s.machines[s.r7]? = some n ∧ s'.memory = s.memory ∧
      s'.machines = s.machines.insert s.r7 { n with memory } := by
  simp only [pages, perform_get, perform_lift_eq_ok, perform_guard_eq_ok, perform_updateRefinement,
    perform_reply_eq_ok, require_ok, HostState.refinement_ok] at done
  obtain ⟨c, found, n, named, ⟨access, zero⟩, -, -, -, rfl⟩ := done
  rw [HostState.machines_eq found, HostState.mapRefinement_eq found]
  exact ⟨n, _, named, rfl, rfl⟩

theorem expunge_ok (done : expunge.perform s = .ok s') :
    ∃ n, s.machines[s.r7]? = some n ∧ s'.memory = s.memory ∧ s'.machines = s.machines.erase s.r7 := by
  simp only [expunge, perform_get, perform_lift_eq_ok, perform_updateRefinement, perform_reply_eq_ok,
    require_ok, HostState.refinement_ok] at done
  obtain ⟨c, found, n, named, rfl⟩ := done
  rw [HostState.machines_eq found, HostState.mapRefinement_eq found]
  exact ⟨n, named, rfl, rfl⟩

theorem invoke_ok (done : (invoke config).perform s = .ok s') :
    ∃ n block, s.machines[s.r7]? = some n ∧ s.memory.isWriteable s.r8.toNat InvokeBlock.size = true ∧
      s.memory.HoldsBlock s.r8.toNat block ∧
      s'.machines = s.machines.insert s.r7
        (NestedMachine.ofMachine (n.run config block.gas block.registers).2) ∧
      s'.memory = s.memory.write s.r8.toNat (InvokeBlock.encode
        ⟨(n.run config block.gas block.registers).2.gas,
          (n.run config block.gas block.registers).2.cpu.registers⟩) := by
  simp only [invoke, perform_get, perform_guard_eq_ok] at done
  obtain ⟨writeable, done⟩ := done
  split at done
  · exact (perform_throw_eq_ok.mp done).elim
  · rename_i data read
    obtain ⟨-, -, rfl⟩ := (s.memory.read_eq_ok ..).mp read
    simp only [perform_lift_eq_ok, perform_updateRefinement, perform_writeMemory, perform_modify,
      perform_reply_eq_ok, require_ok, HostState.refinement_ok] at done
    obtain ⟨c, found, n, named, rfl⟩ := done
    rw [HostState.machines_eq found, HostState.mapRefinement_eq found]
    refine ⟨n, _, named, by simpa using writeable, Memory.holdsBlock_iff.mpr rfl, ?_, ?_⟩
    · simp only [HostState.machines, HostState.reply, HostState.putExtra_context, HostContext.machines]
    · simp only [HostState.reply, HostState.putExtra_memory]

theorem invoke_eq_ok (config : Config) {n : NestedMachine} (named : s.machines[s.r7]? = some n)
    (writeable : s.memory.isWriteable s.r8.toNat InvokeBlock.size = true) :
    ∃ s', (invoke config).perform s = .ok s' := by
  obtain ⟨c, found, named⟩ := HostState.refinement_of_machine named
  have read := Memory.read_of_isWriteable (by decide) writeable
  simp only [invoke, perform_get, writeable, Bool.not_true, Bool.false_eq_true, if_false, read,
    HostState.refinement, found, require, named, perform_ok, perform_updateRefinement, perform_writeMemory,
    perform_modify, perform_reply]
  exact ⟨_, rfl⟩

/-- A suspended machine that is run is suspended again where it stops. -/
theorem invoke_suspends (config : Config) {m : Machine} (suspends : s.Suspends s.r7 s.r8 m)
    (writeable : s.memory.isWriteable s.r8.toNat InvokeBlock.size = true) :
    ∃ s', (invoke config).perform s = .ok s' ∧ s'.Suspends s.r7 s.r8 (m.run config.gasMode).2 := by
  obtain ⟨s', done⟩ := invoke_eq_ok config suspends.machine writeable
  obtain ⟨n, block, named, -, holds, machines, memory⟩ := invoke_ok done
  obtain rfl := Option.some.inj (suspends.machine.symm.trans named)
  obtain rfl := (Memory.holdsBlock_iff.mp suspends.block).symm.trans (Memory.holdsBlock_iff.mp holds)
  have inRange := (Memory.inRange_of_isWriteable writeable).resolve_left (by decide)
  refine ⟨s', done, ?_, ?_⟩
  · rw [machines]
    exact Std.TreeMap.getElem?_insert_self
  · rw [memory]
    exact .write inRange _

end Host

/-- The calls that work on the machine register 7 names. -/
def HostCall.handled : List HostCall := [.peek, .poke, .pages, .invoke, .expunge]

namespace Host

variable {config : Config} {s s' : HostState} {call : HostCall}

theorem others_kept (handled : call ∈ HostCall.handled) (done : call.result config s = .ok s')
    {other : UInt64} (different : other ≠ s.r7) : s'.machines[other]? = s.machines[other]? := by
  simp only [HostCall.handled, List.mem_cons, List.not_mem_nil, or_false] at handled
  rcases handled with rfl | rfl | rfl | rfl | rfl
  · obtain ⟨n, -, -, machines, -⟩ := peek_ok done
    rw [machines]
  · obtain ⟨data, c, n, -, found, -, -, rfl⟩ := poke_ok done
    rw [HostState.machines_eq found]
    exact getElem?_insert_of_ne _ different
  · obtain ⟨n, memory, -, -, machines⟩ := pages_ok done
    rw [machines, getElem?_insert_of_ne _ different]
  · obtain ⟨n, block, -, -, -, machines, -⟩ := invoke_ok done
    rw [machines, getElem?_insert_of_ne _ different]
  · obtain ⟨n, -, -, machines⟩ := expunge_ok done
    rw [machines, getElem?_erase_of_ne different]

theorem memory_kept (quiet : call ∈ [HostCall.machine, .poke, .pages, .expunge])
    (done : call.result config s = .ok s') : s'.memory = s.memory := by
  simp only [List.mem_cons, List.not_mem_nil, or_false] at quiet
  rcases quiet with rfl | rfl | rfl | rfl
  · obtain ⟨_, _, -, -, memory, -⟩ := machine_ok done
    exact memory
  · obtain ⟨data, c, n, -, -, -, -, rfl⟩ := poke_ok done
    rfl
  · obtain ⟨_, _, -, memory, -⟩ := pages_ok done
    exact memory
  · obtain ⟨_, -, memory, -⟩ := expunge_ok done
    exact memory

theorem peek_sameOutside (done : peek.perform s = .ok s') :
    Memory.SameOutside s.r8.toNat s.r10.toNat s.memory s'.memory := by
  obtain ⟨n, -, -, -, -, memory⟩ := peek_ok done
  have outside := s.memory.sameOutside_write s.r8.toNat (n.memory.bytesAt s.r9.toNat s.r10.toNat)
  rwa [← memory, Memory.bytesAt, Array.size_ofFn] at outside

theorem invoke_sameOutside (done : (invoke config).perform s = .ok s') :
    Memory.SameOutside s.r8.toNat InvokeBlock.size s.memory s'.memory := by
  obtain ⟨n, block, -, -, -, -, memory⟩ := invoke_ok done
  rw [memory]
  exact s.memory.sameOutside_encode _ _

theorem peek_poked {t t' : HostState} (copiedIn : poke.perform s = .ok s') (copiedOut : peek.perform t = .ok t')
    (machine : t.machines[s.r7]? = s'.machines[s.r7]?) (handle : t.r7 = s.r7)
    (start : t.r9 = s.r9) (len : t.r10 = s.r10) :
    t'.memory.bytesAt t.r8.toNat t.r10.toNat = s.memory.bytesAt s.r8.toNat s.r10.toNat := by
  obtain ⟨data, c, n, read, found, -, inner, rfl⟩ := poke_ok copiedIn
  obtain ⟨n', named, outer, -, -, memory⟩ := peek_ok copiedOut
  have size : data.size = t.r10.toNat := by rw [len, (HostState.readBytes_ok read).1]
  -- The machine that is read is the one that was written.
  have same : n' = { n with memory := n.memory.write s.r9.toNat data } := by
    rw [handle, machine] at named
    exact Option.some.inj (named.symm.trans Std.TreeMap.getElem?_insert_self)
  have copied : n'.memory.bytesAt t.r9.toNat t.r10.toNat = data := by
    rw [same, start, ← size]
    exact n.memory.bytesAt_write (Memory.inRange_of_isWriteable inner)
  rw [← size] at outer
  rw [memory, copied, ← size, t.memory.bytesAt_write (Memory.inRange_of_isWriteable outer)]
  exact HostState.readBytes_eq_bytesAt read

end Host

theorem HostContext.Served.machines_size {config : Config} {call : HostCall} {c c' : HostContext}
    (served : c.Served config call c') :
    c'.machines.size ≤ c.machines.size ∨ (call = .machine ∧ c'.machines.size ≤ c.machines.size + 1) := by
  cases served with
  | observed => exact .inl (Nat.le_refl _)
  | accumulation => exact .inl (Nat.le_refl _)
  | transfer => exact .inl (Nat.le_refl _)
  | refinement change =>
    simp only [HostContext.machines]
    cases change with
    | exportSegment => exact .inl (Nat.le_refl _)
    | machine => exact .inr ⟨rfl, Std.TreeMap.size_insert_le⟩
    | poke _ _ _ named => exact .inl (Nat.le_of_eq (size_insert_of_named named _))
    | pages _ _ _ _ named => exact .inl (Nat.le_of_eq (size_insert_of_named named _))
    | invoke _ _ _ named => exact .inl (Nat.le_of_eq (size_insert_of_named named _))
    | expunge => exact .inl Std.TreeMap.size_erase_le

end ServiceVm
