import ServiceVm.Proofs.Host.Run
import ServiceVm.Proofs.Machine.MemoryUse

/-!
# Guests between their instructions

`Guest.Visits` are the states a guest passes through, one instruction or call at a time. In each of
them its memory has come about by the instructions of `Memory.Executed` and by writes of its host,
which looks at the first and the last page only.
-/
namespace ServiceVm

/-- What one instruction, or one call, can make of the memory of a guest. -/
inductive Memory.Used (m : Memory) : Memory → Prop where
  | same : Used m m
  | written (start : Nat) (data : Bytes) : m.isWriteable start data.size = true → Used m (m.write start data)
  | grown (amount : Nat) : Used m (m.sbrk amount).2

theorem Memory.Executed.used {m m' : Memory} (executed : m.Executed m') : m.Used m' := by
  cases executed with
  | same => exact .same
  | stored start data inRange writeable =>
    exact .written start data (isWriteable_of_touched inRange writeable)
  | grown amount => exact .grown amount

theorem HostState.Wrote.used {config : Config} {call : HostCall} {s : HostState} {m : Memory}
    (wrote : s.Wrote config call m) : s.memory.Used m := by
  cases wrote with
  | nothing => exact .same
  | bytes data _ writeable => exact .written _ data writeable

namespace Guest

variable {config : Config} {g g' last : Guest} {exit : Exit}

def withMachine (g : Guest) (machine : Machine) : Guest := { g with machine }

/-- States of a guest while it runs, with the exit of the last instruction or call. -/
inductive Visits (config : Config) (g : Guest) : Exit → Guest → Prop where
  | start : Visits config g .continue g
  | step {last : Guest} : Visits config g .continue last →
      Visits config g (last.machine.step config.gasMode).1
        (last.withMachine (last.machine.step config.gasMode).2)
  | call {last : Guest} {id : UInt32} : Visits config g (.hostCall id) last →
      Visits config g (last.dispatch config id).1 (last.dispatch config id).2

/-! ## A run visits the states it passes through -/

theorem Visits.machine_runFor (visited : Visits config g .continue last) (fuel : Nat) :
    Visits config g (Machine.runFor config.gasMode fuel last.machine).1
      (last.withMachine (Machine.runFor config.gasMode fuel last.machine).2) := by
  induction fuel generalizing last with
  | zero => exact visited
  | succ fuel ih =>
    have stepped := visited.step
    rw [Machine.runFor_succ]
    split
    · rename_i goesOn
      rw [goesOn] at stepped
      exact ih stepped
    · exact stepped

theorem Visits.turn (visited : Visits config g .continue last) :
    Visits config g (last.turn config).1 (last.turn config).2 := by
  have ran := visited.machine_runFor last.machine.stepBound
  rw [turn_eq, Machine.run]
  generalize Machine.runFor config.gasMode last.machine.stepBound last.machine = outcome at ran ⊢
  obtain ⟨exit, machine⟩ := outcome
  cases exit with
  | hostCall id => exact ran.call
  | _ => exact ran

theorem Reaches.visits (reached : Reaches config g exit g') : Visits config g exit g' := by
  induction reached with
  | start => exact .start
  | turn _ ih => exact ih.turn

theorem run_visits (g : Guest) (config : Config) : Visits config g (g.run config).1 (g.run config).2 :=
  (g.run_reaches config).visits

theorem Visits.step_machine (visited : Visits config g .continue last) {machine : Machine}
    (stepped : last.machine.step config.gasMode = (exit, machine)) :
    Visits config g exit (last.withMachine machine) := by
  have next := visited.step
  rw [stepped] at next
  exact next

theorem Visits.step_cpu (visited : Visits config g .continue last) (mode : config.gasMode = .perInstruction)
    (funded : instructionGas ≤ last.machine.gas) {cpu : Cpu}
    (stepped : last.machine.cpu.step last.machine.program = (exit, cpu)) :
    Visits config g exit
      (last.withMachine { last.machine with cpu, gas := last.machine.gas - instructionGas }) := by
  refine visited.step_machine ?_
  rw [mode, Machine.step_perInstruction funded stepped]

/-! ## The data of the invocation -/

/-- What holds of the data of an invocation at first, and is kept by every call, holds in every state
that is visited. -/
theorem Visits.context_invariant {P : HostContext → Prop} (start : P g.context)
    (kept : ∀ {call c c'}, P c → c.Served config call c' → P c') (visited : Visits config g exit g') :
    P g'.context := by
  induction visited with
  | start => exact start
  | step _ ih => exact ih
  | @call last id _ ih =>
    rcases (last.dispatch_spec config id).context with same | ⟨call, -, served⟩
    · rw [same]
      exact ih
    · exact kept ih served

/-! ## Memory -/

theorem Dispatch.memory {id : UInt32} (dispatch : Dispatch config g id exit g') :
    g.machine.cpu.memory.Used g'.machine.cpu.memory := by
  cases dispatch with
  | unpaid => exact .same
  | unknown => exact .same
  | refused => exact .same
  | served permitted enough done =>
    exact (Host.served (s := (g.charged id).hostState) (permitted?_eq_some permitted).2 done).memory.used

/-- What holds of the memory of a guest at first, and is kept by every instruction and call, holds in
every state that is visited. -/
theorem Visits.memory_invariant {P : Memory → Prop} (start : P g.machine.cpu.memory)
    (kept : ∀ {m m'}, P m → m.Used m' → P m') (visited : Visits config g exit g') :
    P g'.machine.cpu.memory := by
  induction visited with
  | start => exact start
  | @step last _ ih => exact kept ih (last.machine.step_memory config.gasMode).used
  | @call last id _ ih => exact kept ih (last.dispatch_spec config id).memory

end Guest

end ServiceVm
