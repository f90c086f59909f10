import Mathlib.Logic.Function.Iterate
import ServiceVm.Proofs.Host.NestedCalls
import ServiceVm.Proofs.Host.Permission
import ServiceVm.Proofs.Host.Visits

/-!
# Isolation of nested machines

A refining guest keeps its machines by handle. A call on one of them leaves the others alone, and gas
and registers of a machine that is run go through a block of the guest's memory and come back as they
were. So runs that the guest asks for one after the other are runs of one machine.
-/
namespace ServiceVm

/-! ## Guests that make the calls -/

namespace Guest

variable {config : Config} {g g' next : Guest} {call : HostCall} {exit : Exit}

/-- The guest as its host leaves it after a call. -/
def after (g : Guest) (config : Config) (call : HostCall) : HostState :=
  (g.dispatch config call.id).2.hostState

/-- The guest goes on after the call, and finds in register 7 that all went well. -/
def RepliesOk (g : Guest) (config : Config) (call : HostCall) : Prop :=
  (g.dispatch config call.id).1 = .continue ∧ (g.after config call).r7 = replyOk

theorem after_cases (g : Guest) (config : Config) (call : HostCall) :
    ((g.after config call).machines = g.hostState.machines ∧
      (g.after config call).memory = g.hostState.memory ∧ ¬g.RepliesOk config call) ∨
    (call.fee g.hostState.registers ≤ g.machine.gas ∧
      call.result config (g.callState call.id) = .ok (g.after config call)) := by
  have ended := g.dispatch_spec config call.id
  rw [RepliesOk, after]
  generalize g.dispatch config call.id = outcome at ended
  obtain ⟨exit, g'⟩ := outcome
  cases ended with
  | unpaid => exact .inl ⟨rfl, rfl, nofun⟩
  | unknown =>
    refine .inl ⟨rfl, rfl, fun ok => ?_⟩
    have answer : Refusal.what.code = replyOk :=
      (HostState.r7_reply (g.charged call.id).hostState _).symm.trans ok.2
    contradiction
  | @refused _ refusal =>
    refine .inl ⟨rfl, rfl, fun ok => ?_⟩
    have answer : refusal.code = replyOk := (HostState.r7_reply _ _).symm.trans ok.2
    cases refusal <;> contradiction
  | served permitted enough done =>
    obtain ⟨known, -⟩ := permitted?_eq_some permitted
    rw [HostCall.ofId?_id] at known
    obtain rfl := Option.some.inj known
    simp only [due, permitted] at enough
    exact .inr ⟨enough, done⟩

theorem result_of_repliesOk (ok : g.RepliesOk config call) :
    call.result config (g.callState call.id) = .ok (g.after config call) := by
  rcases g.after_cases config call with ⟨-, -, refused⟩ | ⟨-, done⟩
  · exact absurd ok refused
  · exact done

theorem dispatch_of_result {s : HostState} (permitted : call.permittedIn g.context.kind = true)
    (paid : call.fee g.hostState.registers ≤ g.machine.gas)
    (done : call.result config (g.callState call.id) = .ok s) :
    g.dispatch config call.id = (.continue, (g.charged call.id).resume s) := by
  have known : g.permitted? call.id = some call := by
    simp only [permitted?, HostCall.ofId?_id, permitted, if_true]
  have enough : g.due call.id ≤ g.machine.gas := by
    simp only [due, known]
    exact paid
  rw [dispatch_eq_execute known enough, execute_eq, ← callState, done]
  rfl

theorem after_of_result {s : HostState} (permitted : call.permittedIn g.context.kind = true)
    (paid : call.fee g.hostState.registers ≤ g.machine.gas)
    (done : call.result config (g.callState call.id) = .ok s) : g.after config call = s := by
  rw [after, dispatch_of_result permitted paid done]
  rfl

/-! ## What calls leave alone -/

theorem others_kept (config : Config) (handled : call ∈ HostCall.handled) {other : UInt64}
    (different : other ≠ g.hostState.r7) :
    (g.after config call).machines[other]? = g.hostState.machines[other]? := by
  rcases g.after_cases config call with ⟨machines, -, -⟩ | ⟨-, done⟩
  · rw [machines]
  · exact Host.others_kept (s := g.callState call.id) handled done different

theorem memory_kept (config : Config) (quiet : call ∈ [HostCall.machine, .poke, .pages, .expunge]) :
    (g.after config call).memory = g.hostState.memory := by
  rcases g.after_cases config call with ⟨-, memory, -⟩ | ⟨-, done⟩
  · exact memory
  · exact Host.memory_kept (s := g.callState call.id) quiet done

theorem peek_frame (g : Guest) (config : Config) :
    (g.after config .peek).machines = g.hostState.machines ∧
      Memory.SameOutside g.hostState.r8.toNat g.hostState.r10.toNat g.hostState.memory
        (g.after config .peek).memory := by
  rcases g.after_cases config .peek with ⟨machines, memory, -⟩ | ⟨-, done⟩
  · exact ⟨machines, memory ▸ .refl _ _ _⟩
  · obtain ⟨_, -, -, machines, -⟩ := Host.peek_ok done
    exact ⟨machines, Host.peek_sameOutside (s := g.callState HostCall.peek.id) done⟩

theorem invoke_sameOutside (g : Guest) (config : Config) :
    Memory.SameOutside g.hostState.r8.toNat InvokeBlock.size g.hostState.memory
      (g.after config .invoke).memory := by
  rcases g.after_cases config .invoke with ⟨-, memory, -⟩ | ⟨-, done⟩
  · exact memory ▸ .refl _ _ _
  · exact Host.invoke_sameOutside (s := g.callState HostCall.invoke.id) done

/-! ## New machines -/

section Creation

variable {free : UInt64}

theorem machine_kept (room : g.hostState.machines[free]? = none) {other : UInt64}
    (apart : ¬LeastUnused g.hostState.machines other) :
    (g.after config .machine).machines[other]? = g.hostState.machines[other]? := by
  rcases g.after_cases config .machine with ⟨machines, -, -⟩ | ⟨-, done⟩
  · rw [machines]
  · obtain ⟨_, _, -, -, -, -, machines⟩ := Host.machine_ok done
    rw [machines]
    exact getElem?_insert_of_ne _ fun same => apart (same ▸ leastUnused_unusedHandle room)

theorem machine_created (refining : g.context.kind = .refinement)
    (paid : HostCall.machine.fee g.hostState.registers ≤ g.machine.gas) {blob : Bytes} {program : Program}
    (read : g.hostState.readBytes g.hostState.r7 g.hostState.r8 = .ok blob)
    (accepted : Program.ofBlob blob = .ok program) (room : g.hostState.machines[free]? = none) :
    LeastUnused g.hostState.machines (g.after config .machine).r7 ∧
      (g.after config .machine).machines[(g.after config .machine).r7]? =
        some { program, pc := (toUInt32? g.hostState.r9).getD 0xffffffff } := by
  have permitted : HostCall.machine.permittedIn g.context.kind = true := by
    rw [refining]
    rfl
  obtain ⟨c, found⟩ : ∃ c, g.context = .refinement c := by
    cases held : g.context with
    | refinement c => exact ⟨c, rfl⟩
    | _ =>
      rw [held] at refining
      contradiction
  have done := Host.machine_eq_ok (s := g.callState HostCall.machine.id) found read accepted
  obtain ⟨blob', program', read', accepted', -, handle, machines⟩ := Host.machine_ok done
  obtain rfl := Except.ok.inj (read.symm.trans read')
  obtain rfl := Except.ok.inj (accepted.symm.trans accepted')
  rw [after_of_result permitted paid done, handle, machines]
  exact ⟨leastUnused_unusedHandle room, Std.TreeMap.getElem?_insert_self⟩

end Creation

/-! ## Runs -/

/-- What a guest needs to run the machine under `handle` with the block at `start`. -/
structure MayInvoke (g : Guest) (handle start : UInt64) : Prop where
  paid : HostCall.invoke.fee g.hostState.registers ≤ g.machine.gas
  named : g.hostState.r7 = handle
  placed : g.hostState.r8 = start
  writeable : g.hostState.memory.isWriteable start.toNat InvokeBlock.size = true

/-- `Invokes count g'`: the guest runs the machine under `handle` with the block at `start` that many
times. Between two runs it does anything that leaves the machine and the block as they are. -/
inductive Invokes (config : Config) (handle start : UInt64) (g : Guest) : Nat → Guest → Prop where
  | none : Invokes config handle start g 0 g
  | invoke {count : Nat} {last next : Guest} : Invokes config handle start g count last →
      next.hostState.machines[handle]? = last.hostState.machines[handle]? →
      next.hostState.memory.bytesAt start.toNat InvokeBlock.size =
        last.hostState.memory.bytesAt start.toNat InvokeBlock.size →
      next.MayInvoke handle start →
      Invokes config handle start g (count + 1) (next.dispatch config HostCall.invoke.id).2

section Runs

variable {handle start : UInt64} {m : Machine}

theorem MayInvoke.run (may : g.MayInvoke handle start) (config : Config)
    (suspends : g.hostState.Suspends handle start m) :
    (g.dispatch config HostCall.invoke.id).1 = .continue ∧
      (g.after config .invoke).Suspends handle start (m.run config.gasMode).2 := by
  obtain ⟨paid, rfl, rfl, writeable⟩ := may
  obtain ⟨c, found, -⟩ := HostState.refinement_of_machine suspends.machine
  have permitted : HostCall.invoke.permittedIn g.context.kind = true := by
    rw [show g.context = .refinement c from found]
    rfl
  obtain ⟨s, done, after⟩ := Host.invoke_suspends (s := g.callState HostCall.invoke.id) (m := m) config
    ⟨suspends.machine, suspends.block⟩ writeable
  refine ⟨by rw [dispatch_of_result permitted paid done], ?_⟩
  rw [after_of_result permitted paid done]
  exact after

theorem Invokes.suspends {count : Nat} (invokes : g.Invokes config handle start count g')
    (before : g.hostState.Suspends handle start m) :
    g'.hostState.Suspends handle start ((fun m : Machine => (m.run config.gasMode).2)^[count] m) := by
  induction invokes with
  | none => exact before
  | @invoke count last next _ machine bytes may ih =>
    -- What the next run finds under the handle and in the block is the machine as it stopped before.
    have found : next.hostState.Suspends handle start _ :=
      ⟨machine.trans ih.machine, (congrArg Array.toList bytes).trans ih.block⟩
    rw [Function.iterate_succ_apply']
    exact (may.run config found).2

theorem invoke_idle (idle : ¬(g.MayInvoke g.hostState.r7 g.hostState.r8 ∧
      ∃ n, g.hostState.machines[g.hostState.r7]? = some n)) :
    (g.after config .invoke).machines = g.hostState.machines ∧
      (g.after config .invoke).memory = g.hostState.memory := by
  rcases g.after_cases config .invoke with ⟨machines, memory, -⟩ | ⟨paid, done⟩
  · exact ⟨machines, memory⟩
  · obtain ⟨n, _, named, writeable, -⟩ := Host.invoke_ok done
    exact absurd ⟨⟨paid, rfl, rfl, writeable⟩, n, named⟩ idle

end Runs

theorem peek_poked (poked : g.RepliesOk config .poke)
    (machine : next.hostState.machines[g.hostState.r7]? = (g.after config .poke).machines[g.hostState.r7]?)
    (handle : next.hostState.r7 = g.hostState.r7) (start : next.hostState.r9 = g.hostState.r9)
    (len : next.hostState.r10 = g.hostState.r10) (peeked : next.RepliesOk config .peek) :
    (next.after config .peek).memory.bytesAt next.hostState.r8.toNat next.hostState.r10.toNat =
      g.hostState.memory.bytesAt g.hostState.r8.toNat g.hostState.r10.toNat :=
  Host.peek_poked (s := g.callState HostCall.poke.id) (t := next.callState HostCall.peek.id)
    (result_of_repliesOk poked) (result_of_repliesOk peeked) machine handle start len

end Guest

/-! ## Handles do not run out -/

namespace Guest

variable {config : Config} {g g' : Guest} {exit : Exit}

/-- A machine costs gas, so that machines and gas together do not grow. -/
theorem Dispatch.machines_size {id : UInt32} (dispatch : Dispatch config g id exit g') :
    g'.hostState.machines.size + g'.machine.gas.toNat ≤ g.hostState.machines.size + g.machine.gas.toNat := by
  have gas := UInt64.le_iff_toNat_le.mp dispatch.dispatched.gas
  cases dispatch with
  | unpaid => exact Nat.le_refl _
  | unknown => exact Nat.add_le_add_left gas _
  | refused => exact Nat.add_le_add_left gas _
  | @served call s permitted enough done =>
    have served := Host.served (s := (g.charged id).hostState) (permitted?_eq_some permitted).2 done
    rcases served.context.machines_size with kept | ⟨rfl, added⟩
    · exact Nat.add_le_add kept gas
    · have fee : (g.due id).toNat = 10 := by
        simp only [due, permitted]
        rfl
      have paid := gas_charged enough
      have rest : ((g.charged id).resume s).machine.gas.toNat = (g.charged id).machine.gas.toNat :=
        congrArg UInt64.toNat served.gas
      have sum : ((g.charged id).resume s).hostState.machines.size ≤ g.hostState.machines.size + 1 := added
      omega

theorem Visits.machines_size (visited : Visits config g exit g') :
    g'.hostState.machines.size + g'.machine.gas.toNat ≤ g.hostState.machines.size + g.machine.gas.toNat := by
  induction visited with
  | start => exact Nat.le_refl _
  | @step last _ ih =>
    have gas := UInt64.le_iff_toNat_le.mp (last.machine.step_gas_le config.gasMode)
    exact Nat.le_trans (Nat.add_le_add_left gas _) ih
  | @call last id _ ih => exact Nat.le_trans (last.dispatch_spec config id).machines_size ih

theorem Visits.exists_unused (visited : Visits config g exit g')
    (empty : g.hostState.machines.isEmpty = true) : ∃ free : UInt64, g'.hostState.machines[free]? = none := by
  have count := visited.machines_size
  rw [Std.TreeMap.isEmpty_eq_size_eq_zero, beq_iff_eq] at empty
  have bound : g.machine.gas.toNat < UInt64.size := g.machine.gas.toNat_lt
  exact ServiceVm.exists_unused (by omega)

end Guest

/-! ## A guest with a machine -/

def loadingProgram : Program := .ofCode #[51, 0, 9, 10, 3, 0] #[true, false, false, true, false, true] #[] 0

def loadingMachine : NestedMachine where
  program := loadingProgram
  pc := 0

def invokingMemory : Memory :=
  (Memory.empty.place 0x20000 0x21000 #[] .readWrite).write 0x20000
    (InvokeBlock.encode ⟨100, Registers.zero⟩)

/-- A guest with one machine and a block to run it with. -/
def invokingGuest : Guest where
  machine := ⟨Program.ofCode #[0] #[true] #[] 0,
    ⟨0, (Registers.zero.put Reg.r7 5).put Reg.r8 0x20000, invokingMemory⟩, 50, {}⟩
  context := .refinement { machines := (∅ : Std.TreeMap UInt64 NestedMachine).insert 5 loadingMachine }

theorem invokingGuest_mayInvoke : invokingGuest.MayInvoke 5 0x20000 := by
  have mapped : (Memory.empty.place 0x20000 0x21000 #[] .readWrite).access 0x20 = .readWrite := by
    decide +kernel
  have page : invokingMemory.access 0x20 = .readWrite := by
    rw [invokingMemory, Memory.access_write, mapped]
  exact ⟨by decide, rfl, rfl, (invokingMemory.isWriteable_iff ..).mpr (.inr ⟨by decide, page, page⟩)⟩

theorem invokingGuest_suspends :
    invokingGuest.hostState.Suspends 5 0x20000 ⟨loadingProgram, ⟨0, Registers.zero, {}⟩, 100, {}⟩ :=
  ⟨Std.TreeMap.getElem?_insert_self, .write (by decide) _⟩

/-! ## Isolation -/

/-- Nested machines are isolated, and run as machines of their own do. A new machine gets the least
handle that is not in use, and no other handle is touched; a call on one machine leaves the others
alone. The memory of the guest changes in the range that is copied to and in the block that is run
with, and nowhere else. A machine is run with the gas and the registers in its block and leaves those
it stops with there, so that runs add up to runs of one machine, and bytes that are copied in are
copied out again. -/
theorem nested_machines_isolated (config : Config) (g : Guest) (refining : g.context.kind = .refinement) :
    (∀ free : UInt64, g.hostState.machines[free]? = none →
      (∀ other, ¬LeastUnused g.hostState.machines other →
        (g.after config .machine).machines[other]? = g.hostState.machines[other]?) ∧
      ∀ blob program, HostCall.machine.fee g.hostState.registers ≤ g.machine.gas →
        g.hostState.readBytes g.hostState.r7 g.hostState.r8 = .ok blob →
        Program.ofBlob blob = .ok program →
        LeastUnused g.hostState.machines (g.after config .machine).r7 ∧
        (g.after config .machine).machines[(g.after config .machine).r7]? =
          some { program, pc := (toUInt32? g.hostState.r9).getD 0xffffffff }) ∧
    (∀ call ∈ HostCall.handled, ∀ other ≠ g.hostState.r7,
      (g.after config call).machines[other]? = g.hostState.machines[other]?) ∧
    ((g.after config .peek).machines = g.hostState.machines ∧
      Memory.SameOutside g.hostState.r8.toNat g.hostState.r10.toNat g.hostState.memory
        (g.after config .peek).memory) ∧
    (∀ call ∈ [HostCall.machine, .poke, .pages, .expunge],
      (g.after config call).memory = g.hostState.memory) ∧
    Memory.SameOutside g.hostState.r8.toNat InvokeBlock.size g.hostState.memory
      (g.after config .invoke).memory ∧
    (∀ handle n start, g.hostState.machines[handle]? = some n →
      ∃! m, g.hostState.Suspends handle start m) ∧
    (∀ handle start m, g.MayInvoke handle start → g.hostState.Suspends handle start m →
      (g.dispatch config HostCall.invoke.id).1 = .continue ∧
      (g.after config .invoke).Suspends handle start (m.run config.gasMode).2) ∧
    (¬(g.MayInvoke g.hostState.r7 g.hostState.r8 ∧
        ∃ n, g.hostState.machines[g.hostState.r7]? = some n) →
      (g.after config .invoke).machines = g.hostState.machines ∧
      (g.after config .invoke).memory = g.hostState.memory) ∧
    (∀ handle start m count g', g.hostState.Suspends handle start m →
      g.Invokes config handle start count g' →
      g'.hostState.Suspends handle start ((fun m : Machine => (m.run config.gasMode).2)^[count] m)) ∧
    (∀ next : Guest, g.RepliesOk config .poke →
      next.hostState.machines[g.hostState.r7]? = (g.after config .poke).machines[g.hostState.r7]? →
      next.hostState.r7 = g.hostState.r7 → next.hostState.r9 = g.hostState.r9 →
      next.hostState.r10 = g.hostState.r10 → next.RepliesOk config .peek →
      (next.after config .peek).memory.bytesAt next.hostState.r8.toNat next.hostState.r10.toNat =
        g.hostState.memory.bytesAt g.hostState.r8.toNat g.hostState.r10.toNat) ∧
    (g.hostState.machines.isEmpty = true → ∀ exit g', g.Visits config exit g' →
      ∃ free : UInt64, g'.hostState.machines[free]? = none) := by
  refine ⟨fun free room => ⟨fun other apart => ?_, fun blob program paid read accepted => ?_⟩,
    fun call handled other different => Guest.others_kept config handled different, g.peek_frame config,
    fun call quiet => Guest.memory_kept config quiet, g.invoke_sameOutside config,
    fun handle n start named => HostState.existsUnique_suspends named start,
    fun handle start m may suspends => may.run config suspends, Guest.invoke_idle,
    fun handle start m count g' suspends invokes => invokes.suspends suspends,
    fun next poked machine handle start len peeked => ?_,
    fun empty exit g' visited => visited.exists_unused empty⟩
  · exact Guest.machine_kept room apart
  · exact Guest.machine_created refining paid read accepted room
  · exact Guest.peek_poked poked machine handle start len peeked

/-- The machine loads 9, and stops at its call with two units of gas less. -/
theorem invokingGuest_runs :
    invokingGuest.hostState.memory.HoldsBlock 0x20000 ⟨100, Registers.zero⟩ ∧
      (invokingGuest.after {} .invoke).memory.HoldsBlock 0x20000 ⟨98, Registers.zero.put 0 9⟩ := by
  have run : (Machine.run ⟨loadingProgram, ⟨0, Registers.zero, {}⟩, 100, {}⟩ .perInstruction).2.gas = 98 ∧
      (Machine.run ⟨loadingProgram, ⟨0, Registers.zero, {}⟩, 100, {}⟩ .perInstruction).2.cpu.registers =
        Registers.zero.put 0 9 := by decide +kernel
  obtain ⟨-, -, -, -, -, -, invoke, -⟩ := nested_machines_isolated {} invokingGuest rfl
  have after := (invoke 5 0x20000 _ invokingGuest_mayInvoke invokingGuest_suspends).2.block
  rw [show ({} : Config).gasMode = .perInstruction from rfl, run.1, run.2] at after
  exact ⟨invokingGuest_suspends.block, after⟩

end ServiceVm
