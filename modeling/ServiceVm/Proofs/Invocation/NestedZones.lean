import ServiceVm.Proofs.Host.Isolation
import ServiceVm.Proofs.Invocation.CallingService

/-!
# The first zone of nested machines

A nested machine starts without memory, and the call that sets the rights of its pages refuses those
of the first zone. Its heap starts at the bottom, though, so that its own code maps the first zone as
soon as it asks for more than a page of heap. Until then, and in all pages that the end of the heap has
not passed, the first zone is inaccessible.
-/
namespace ServiceVm

/-! ## Memory -/

namespace Memory

variable {m m' : Memory}

/-- Pages of the first zone are inaccessible, apart from those that the end of the heap has passed. It
has passed the first page, too, then. -/
def ZoneUnderHeap (m : Memory) : Prop :=
  ∀ k < firstMutablePage, m.access k = .none ∨
    (m.access k = .readWrite ∧ k * pageSize < m.heapPointer ∧ pageSize < m.heapPointer)

theorem zoneUnderHeap_empty : ZoneUnderHeap {} := fun _ _ => .inl (by simp [access])

theorem ZoneUnderHeap.write (zone : m.ZoneUnderHeap) (start : Nat) (data : Bytes) :
    (m.write start data).ZoneUnderHeap := by
  intro k low
  rw [access_write, heapPointer_write]
  exact zone k low

theorem access_setPages_zone (m : Memory) {first k : Nat} (count : Nat) (access : Access) (zero : Bool)
    (above : firstMutablePage ≤ first) (low : k < firstMutablePage) :
    (m.setPages first count access zero).access k = m.access k := by
  rw [access_setPages, if_neg (by omega)]

theorem ZoneUnderHeap.setPages (zone : m.ZoneUnderHeap) {first : Nat} (count : Nat) (access : Access)
    (zero : Bool) (above : firstMutablePage ≤ first) : (m.setPages first count access zero).ZoneUnderHeap := by
  intro k low
  rw [access_setPages_zone m count access zero above low]
  exact zone k low

theorem ZoneUnderHeap.sbrk (zone : m.ZoneUnderHeap) (amount : Nat) : (m.sbrk amount).2.ZoneUnderHeap := by
  rcases m.sbrk_cases amount with same | grown
  · rwa [same]
  · rw [grown]
    intro k low
    have rights := m.access_growHeap amount k
    split at rights
    · rename_i mapped
      obtain ⟨⟨-, -, leaves⟩, a, -, below, page⟩ := mapped
      have place := (pageOf_eq_iff a k).mp page
      have first : pageSize ≤ (pageOf m.heapPointer + 1) * pageSize :=
        Nat.le_mul_of_pos_left _ (Nat.succ_pos _)
      exact .inr ⟨rights, Nat.lt_of_le_of_lt place.1 below, Nat.lt_of_le_of_lt first leaves⟩
    · rcases zone k low with closed | ⟨opened, passed, past⟩
      · exact .inl (rights.trans closed)
      · exact .inr ⟨rights.trans opened, Nat.lt_add_right _ passed, Nat.lt_add_right _ past⟩

theorem ZoneUnderHeap.executed (zone : m.ZoneUnderHeap) (executed : m.Executed m') : m'.ZoneUnderHeap := by
  cases executed with
  | same => exact zone
  | stored start data => exact zone.write start data
  | grown amount => exact zone.sbrk amount

/-- A heap of one page maps nothing in the first zone. -/
theorem ZoneUnderHeap.closed (zone : m.ZoneUnderHeap) (small : m.heapPointer ≤ pageSize) {k : Nat}
    (low : k < firstMutablePage) : m.access k = .none := by
  rcases zone k low with closed | ⟨-, -, past⟩
  · exact closed
  · omega

end Memory

/-! ## Calls -/

theorem HostContext.Served.handled {config : Config} {call : HostCall} {c c' : HostContext} {handle : UInt64}
    {n' : NestedMachine} (served : c.Served config call c') (new : c'.machines[handle]? = some n') :
    (handle = unusedHandle c.machines ∧ n'.memory = {}) ∨
      ∃ n, c.machines[handle]? = some n ∧ n.Handled config call n'.memory := by
  cases served with
  | observed => exact .inr ⟨n', new, .same⟩
  | accumulation => exact .inr ⟨n', new, .same⟩
  | transfer => exact .inr ⟨n', new, .same⟩
  | refinement change => exact change.handled new

namespace NestedMachine.Handled

variable {config : Config} {call : HostCall} {n : NestedMachine} {m : Memory}

theorem zoneUnderHeap (handled : n.Handled config call m) (zone : n.memory.ZoneUnderHeap) :
    m.ZoneUnderHeap := by
  cases handled with
  | same => exact zone
  | poke start data => exact zone.write start data
  | pages count access zero above => exact zone.setPages count access zero above
  | invoke => exact Machine.runFor_memory_invariant Memory.ZoneUnderHeap.executed config.gasMode _ zone

theorem access_zone (handled : n.Handled config call m) (apart : call ≠ .invoke) {k : Nat}
    (low : k < firstMutablePage) : m.access k = n.memory.access k := by
  cases handled with
  | same => rfl
  | poke start data => exact n.memory.access_write start data k
  | pages count access zero above => exact n.memory.access_setPages_zone count access zero above low
  | invoke => contradiction

end NestedMachine.Handled

/-- Every nested machine maps pages of its first zone by its heap only. -/
def HostContext.ZonesUnderHeap (c : HostContext) : Prop :=
  ∀ (handle : UInt64) (n : NestedMachine), c.machines[handle]? = some n → n.memory.ZoneUnderHeap

theorem HostContext.ZonesUnderHeap.served {config : Config} {call : HostCall} {c c' : HostContext}
    (zones : c.ZonesUnderHeap) (served : c.Served config call c') : c'.ZonesUnderHeap := by
  intro handle n' new
  rcases served.handled new with ⟨-, memory⟩ | ⟨n, old, handled⟩
  · rw [memory]
    exact Memory.zoneUnderHeap_empty
  · exact handled.zoneUnderHeap (zones handle n old)

namespace Guest

variable {config : Config} {g g' : Guest} {exit : Exit}

theorem Visits.zonesUnderHeap (visited : Visits config g exit g')
    (empty : g.hostState.machines.isEmpty = true) : g'.context.ZonesUnderHeap := by
  refine visited.context_invariant ?_ fun zones served => zones.served served
  intro handle n found
  exact absurd ((Std.TreeMap.getElem?_of_isEmpty empty).symm.trans found) nofun

/-- A call other than a run leaves the rights of the first zone as they are. -/
theorem access_zone_after {call : HostCall} {handle free : UInt64} {n n' : NestedMachine} {k : Nat}
    (apart : call ≠ .invoke) (room : g.hostState.machines[free]? = none)
    (old : g.hostState.machines[handle]? = some n)
    (new : (g.after config call).machines[handle]? = some n') (low : k < firstMutablePage) :
    n'.memory.access k = n.memory.access k := by
  rcases (g.dispatch_spec config call.id).context with same | ⟨made, granted, served⟩
  · have kept : (g.after config call).machines = g.hostState.machines := congrArg HostContext.machines same
    rw [kept] at new
    rw [Option.some.inj (old.symm.trans new)]
  · obtain ⟨known, -⟩ := permitted?_eq_some (granted?_eq_some granted).2
    rw [HostCall.ofId?_id] at known
    obtain rfl := Option.some.inj known
    rcases served.handled new with ⟨rfl, -⟩ | ⟨n₀, found, handled⟩
    · have unused := unusedHandle_unused room
      rw [show g.hostState.machines[unusedHandle g.hostState.machines]? = some n from old] at unused
      contradiction
    · obtain rfl := Option.some.inj (old.symm.trans found)
      exact handled.access_zone apart low

end Guest

/-! ## A machine that maps its first zone -/

/-- The code of a machine that asks for two pages of heap. -/
def mappingBlob : Bytes := #[0, 0, 7, 51, 2, 0, 32, 101, 35, 0, 81]

def mappingProgram : Program :=
  .ofCode #[51, 2, 0, 32, 101, 35, 0] #[true, false, false, false, true, false, true] #[] 0

/-- Code that creates a machine from the read-only data and runs it with the read-write data. -/
def nestingProgram : Program :=
  .ofCode #[51, 7, 0, 0, 1, 51, 8, 11, 10, 8, 51, 8, 0, 0, 3, 10, 12, 50, 0]
    #[true, false, false, false, false, true, false, false, true, false, true, false, false, false, false, true,
      false, true, false] #[] 0

def nestingImage : Image where
  readOnly := mappingBlob
  readWrite := #[100]
  heapPages := 0
  stackSize := 0
  blob := #[0, 0, 19, 51, 7, 0, 0, 1, 51, 8, 11, 10, 8, 51, 8, 0, 0, 3, 10, 12, 50, 0, 33, 133, 2]

def nestingGuest : Guest where
  machine := ⟨nestingProgram, ⟨0, Image.entryRegisters #[], nestingImage.layout #[]⟩, 100, {}⟩
  context := .refinement {}

theorem nestingImage_fits : nestingImage.Fits := ⟨by decide, by decide, by decide, by decide, by decide⟩

theorem nestingGuest_loads :
    imageGuest? nestingImage.encode 0 100 #[] (.refinement {}) = some nestingGuest := by
  have built : Program.ofBlob nestingImage.blob = .ok nestingProgram := by with_unfolding_all rfl
  exact imageGuest?_encode nestingImage_fits (by decide) built

def nestingAt (pc : UInt32) (registers : Registers) (gas : UInt64) (c : RefinementContext) : Guest where
  machine := ⟨nestingProgram, ⟨pc, registers, nestingImage.layout #[]⟩, gas, {}⟩
  context := .refinement c

section Steps

variable {pc : UInt32} {registers : Registers} {gas value : UInt64} {c : RefinementContext} {r : Reg} {skip : Nat}

theorem nestingAt_loads (visited : nestingGuest.Visits {} .continue (nestingAt pc registers gas c))
    (fetched : nestingProgram.fetch? pc = some ⟨.loadImm r value, skip⟩) (funded : instructionGas ≤ gas) :
    nestingGuest.Visits {} .continue
      (nestingAt (followingPc pc skip) (registers.put r value) (gas - instructionGas) c) := by
  refine visited.step_cpu rfl funded ?_
  simp only [nestingAt, Cpu.step, fetched, Instr.exec]
  rfl

theorem nestingAt_calls (visited : nestingGuest.Visits {} .continue (nestingAt pc registers gas c))
    (fetched : nestingProgram.fetch? pc = some ⟨.ecalli value, skip⟩) (funded : instructionGas ≤ gas) :
    nestingGuest.Visits {} (.hostCall value.toUInt32)
      (nestingAt (followingPc pc skip) registers (gas - instructionGas) c) := by
  refine visited.step_cpu rfl funded ?_
  simp only [nestingAt, Cpu.step, fetched, Instr.exec]
  rfl

end Steps

def nestingRegisters : Registers := ((Image.entryRegisters #[]).put Reg.r7 0x10000).put Reg.r8 11

def nestingContext : RefinementContext where
  machines := (∅ : Std.TreeMap UInt64 NestedMachine).insert 0 { program := mappingProgram, pc := 0 }

theorem nestingImage_code : (nestingImage.layout #[]).read 0x10000 11 = .ok mappingBlob := by
  have listed : nestingImage.readOnlySegment ∈ nestingImage.segments #[] := by
    simp only [Image.segments, List.mem_cons, true_or, or_true]
  exact ((nestingImage_fits.laidOut_layout #[]).holds _ listed).read rfl (by decide) (by decide)

theorem nestingImage_data : nestingImage.readWriteSegment.Holds (nestingImage.layout #[]) := by
  refine (nestingImage_fits.laidOut_layout #[]).holds _ ?_
  simp only [Image.segments, List.mem_cons, true_or, or_true]

theorem nestingImage_block : (nestingImage.layout #[]).HoldsBlock 0x30000 ⟨100, Registers.zero⟩ := by
  have read := nestingImage_data.read (n := 112) rfl (by decide) (by decide)
  have bytes : (nestingImage.layout #[]).bytesAt 0x30000 112 = Bytes.resize #[100] 112 :=
    ((Memory.read_eq_ok ..).mp read).2.2.symm
  rw [Memory.HoldsBlock, InvokeBlock.size, bytes]
  decide +kernel

theorem nestingGuest_creates :
    (nestingAt 10 nestingRegisters 97 {}).dispatch {} HostCall.machine.id =
      (.continue, nestingAt 10 (nestingRegisters.put Reg.r7 0) 87 nestingContext) := by
  have read : ((nestingAt 10 nestingRegisters 97 {}).callState HostCall.machine.id).readBytes 0x10000 11 =
      .ok mappingBlob := HostState.readBytes_of_read nestingImage_code
  have accepted : Program.ofBlob mappingBlob = .ok mappingProgram := by with_unfolding_all rfl
  have done : HostCall.machine.result {} ((nestingAt 10 nestingRegisters 97 {}).callState HostCall.machine.id) =
      .ok _ := Host.machine_eq_ok (c := {}) rfl read accepted
  rw [Guest.dispatch_of_result rfl (by decide) done]
  rfl

theorem nestingGuest_visits_created :
    nestingGuest.Visits {} .continue (nestingAt 10 (nestingRegisters.put Reg.r7 0) 87 nestingContext) := by
  have first : nestingProgram.fetch? 0 = some ⟨.loadImm Reg.r7 0x10000, 4⟩ := by with_unfolding_all rfl
  have second : nestingProgram.fetch? 5 = some ⟨.loadImm Reg.r8 11, 2⟩ := by with_unfolding_all rfl
  have third : nestingProgram.fetch? 8 = some ⟨.ecalli 8, 1⟩ := by with_unfolding_all rfl
  have entered : nestingGuest.Visits {} .continue (nestingAt 0 (Image.entryRegisters #[]) 100 {}) := .start
  have loaded := nestingAt_loads (nestingAt_loads entered first (by decide)) second (by decide)
  have called : nestingGuest.Visits {} (.hostCall HostCall.machine.id) (nestingAt 10 nestingRegisters 97 {}) :=
    nestingAt_calls loaded third (by decide)
  have served := called.call
  rwa [nestingGuest_creates] at served

/-- The guest as it asks to run its machine. -/
def nestingGuestInvokes : Guest :=
  nestingAt 17 ((nestingRegisters.put Reg.r7 0).put Reg.r8 0x30000) 85 nestingContext

theorem nestingGuest_visits_invokes :
    nestingGuest.Visits {} (.hostCall HostCall.invoke.id) nestingGuestInvokes := by
  have loads : nestingProgram.fetch? 10 = some ⟨.loadImm Reg.r8 0x30000, 4⟩ := by with_unfolding_all rfl
  have calls : nestingProgram.fetch? 15 = some ⟨.ecalli 12, 1⟩ := by with_unfolding_all rfl
  have loaded := nestingAt_loads nestingGuest_visits_created loads (by decide)
  exact nestingAt_calls loaded calls (by decide)

theorem nestingGuest_mayInvoke : nestingGuestInvokes.MayInvoke 0 0x30000 := by
  have first := (nestingImage_data 0x30000 (by decide)).1
  have last := (nestingImage_data (0x30000 + 112 - 1) (by decide)).1
  exact ⟨by decide, rfl, rfl, (Memory.isWriteable_iff ..).mpr (.inr ⟨by decide, first, last⟩)⟩

theorem nestingGuest_suspends :
    nestingGuestInvokes.hostState.Suspends 0 0x30000 ⟨mappingProgram, ⟨0, Registers.zero, {}⟩, 100, {}⟩ :=
  ⟨Std.TreeMap.getElem?_insert_self, nestingImage_block⟩

/-! ## The first zone -/

/-- The first zone of nested machines is mapped by their own heap only. In every state of a guest that
starts without machines, pages of it are inaccessible unless the end of the heap has passed them, and
all of them are as long as the heap is not larger than a page. Calls other than a run leave their
rights alone. -/
theorem nested_zone_mapped_by_heap (config : Config) (g : Guest)
    (empty : g.hostState.machines.isEmpty = true) :
    ∀ exit g', g.Visits config exit g' →
      (∀ (handle : UInt64) (n : NestedMachine), g'.hostState.machines[handle]? = some n →
        ∀ k < firstMutablePage,
          (n.memory.access k = .none ∨
            (n.memory.access k = .readWrite ∧ k * pageSize < n.memory.heapPointer)) ∧
          (n.memory.heapPointer ≤ pageSize → n.memory.access k = .none)) ∧
      ∀ (call : HostCall) (handle : UInt64) (n n' : NestedMachine), call ≠ .invoke →
        g'.hostState.machines[handle]? = some n → (g'.after config call).machines[handle]? = some n' →
        ∀ k < firstMutablePage, n'.memory.access k = n.memory.access k := by
  intro exit g' visited
  refine ⟨fun handle n found k low => ?_, fun call handle n n' apart old new k low => ?_⟩
  · have zone := visited.zonesUnderHeap empty handle n found
    refine ⟨(zone k low).imp_right ?_, fun small => zone.closed small low⟩
    rintro ⟨opened, passed, -⟩
    exact ⟨opened, passed⟩
  · obtain ⟨free, room⟩ := visited.exists_unused empty
    exact Guest.access_zone_after apart room old new low

/-- The machine is still without memory when the guest asks to run it. -/
theorem nestingGuestInvokes_zone_closed :
    ∃ n : NestedMachine, nestingGuestInvokes.hostState.machines[(0 : UInt64)]? = some n ∧
      ∀ k < firstMutablePage, n.memory.access k = .none := by
  refine ⟨{ program := mappingProgram, pc := 0 }, Std.TreeMap.getElem?_insert_self, fun k low => ?_⟩
  have mapped := nested_zone_mapped_by_heap {} nestingGuest rfl _ _ nestingGuest_visits_invokes
  exact (mapped.1 0 _ Std.TreeMap.getElem?_insert_self k low).2 (by decide)

/-- A machine that asks for two pages of heap makes the first pages of its memory writeable. -/
theorem nested_heap_maps_first_zone :
    imageGuest? nestingImage.encode 0 100 #[] (.refinement {}) = some nestingGuest ∧
      ∃ exit g' n, nestingGuest.Visits {} exit g' ∧ g'.hostState.machines[(0 : UInt64)]? = some n ∧
        n.memory.access 0 = .readWrite := by
  have run : ((Machine.run ⟨mappingProgram, ⟨0, Registers.zero, {}⟩, 100, {}⟩
      .perInstruction).2.cpu.memory.access 0) = .readWrite := by decide +kernel
  have invoked := (nestingGuest_mayInvoke.run {} nestingGuest_suspends).2
  exact ⟨nestingGuest_loads, _, _, _, nestingGuest_visits_invokes.call, invoked.machine, run⟩

end ServiceVm
