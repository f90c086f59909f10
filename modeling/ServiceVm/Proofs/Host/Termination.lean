import ServiceVm.Proofs.Host.Run
import ServiceVm.Proofs.Machine.Termination
import ServiceVm.Proofs.Service.FreshId

/-!
# Guests stop

A turn that goes on has run at least one step, and serving the call that ended it takes none back:
`Machine.stepsLeft` decreases from turn to turn, whatever the fee of the call. Nested machines stay
well-formed, so every run that a call makes of them ends as well.
-/
namespace ServiceVm

/-- Nested machines as calls make them: with a program from a blob that fits the program counter and
a meter that only runs of the machine have touched. -/
structure NestedMachine.Fit (n : NestedMachine) : Prop where
  built : n.program.Built
  short : n.program.code.size < UInt32.size
  left : n.meter.LeftBy n.program

theorem Program.size_code_lt {blob : Bytes} {p : Program} (accepted : ofBlob blob = .ok p)
    (fits : blob.size ≤ addressSpace) : p.code.size < UInt32.size := by
  obtain ⟨entries, width, codeLength, -, -, -, -, size, rfl⟩ := ofBlob_ok accepted
  have space : addressSpace = UInt32.size := rfl
  simp only [Array.size_extract]
  omega

namespace NestedMachine

def toMachine (n : NestedMachine) (gas : UInt64) (registers : Registers) : Machine :=
  ⟨n.program, ⟨n.pc, registers, n.memory⟩, gas, n.meter⟩

variable {n : NestedMachine}

theorem Fit.wellFormed (fit : n.Fit) (gas : UInt64) (registers : Registers) :
    (n.toMachine gas registers).WellFormed := ⟨fit.built, fit.short, fit.left.honest⟩

theorem Fit.ofMachine (fit : n.Fit) (config : Config) (gas : UInt64) (registers : Registers) :
    (NestedMachine.ofMachine (n.run config gas registers).2).Fit := by
  let m := n.toMachine gas registers
  have same : (n.run config gas registers).2.program = n.program :=
    (m.runFor_frame config.gasMode m.stepBound fit.left.honest).1
  refine ⟨?_, ?_, ?_⟩
  · rw [NestedMachine.ofMachine, same]
    exact fit.built
  · rw [NestedMachine.ofMachine, same]
    exact fit.short
  · rw [NestedMachine.ofMachine, same]
    exact .run m config.gasMode rfl fit.left

end NestedMachine

/-- Every nested machine is as calls make them. -/
def HostContext.NestedFit : HostContext → Prop
  | .refinement c => ∀ (handle : UInt64) (n : NestedMachine), c.machines[handle]? = some n → n.Fit
  | _ => True

theorem fit_insert {machines : Std.TreeMap UInt64 NestedMachine} {handle : UInt64} {n : NestedMachine}
    (fit : ∀ (handle : UInt64) (n : NestedMachine), machines[handle]? = some n → n.Fit) (added : n.Fit)
    (other : UInt64) (m : NestedMachine) (found : (machines.insert handle n)[other]? = some m) : m.Fit := by
  rw [Std.TreeMap.getElem?_insert] at found
  split at found
  · obtain rfl := Option.some.inj found
    exact added
  · exact fit other m found

theorem HostContext.Served.nestedFit {config : Config} {call : HostCall} {c c' : HostContext}
    (served : c.Served config call c') (fit : c.NestedFit) : c'.NestedFit := by
  cases served with
  | observed => exact fit
  | accumulation => trivial
  | transfer => trivial
  | refinement change =>
    cases change with
    | exportSegment => exact fit
    | machine blob pc size accepted =>
      exact fit_insert fit ⟨.ofBlob accepted, Program.size_code_lt accepted size, .fresh⟩
    | poke handle start data named =>
      have old := fit handle _ named
      exact fit_insert fit ⟨old.built, old.short, old.left⟩
    | pages handle first count mode named =>
      have old := fit handle _ named
      exact fit_insert fit ⟨old.built, old.short, old.left⟩
    | invoke handle gas registers named =>
      exact fit_insert fit ((fit handle _ named).ofMachine config gas registers)
    | expunge handle =>
      intro other m found
      rw [Std.TreeMap.getElem?_erase] at found
      split at found
      · contradiction
      · exact fit other m found

namespace Guest

variable {config : Config} {g g' : Guest} {exit : Exit}

theorem Dispatched.wellFormed (dispatched : Dispatched g g') (wf : g.machine.WellFormed) :
    g'.machine.WellFormed :=
  ⟨by rw [dispatched.program]; exact wf.built, by rw [dispatched.program]; exact wf.short,
    by rw [dispatched.program, dispatched.meter]; exact wf.honest⟩

theorem Dispatched.stepsLeft_le (dispatched : Dispatched g g') (mode : GasMode) :
    g'.machine.stepsLeft mode ≤ g.machine.stepsLeft mode := by
  have due : g'.machine.isDue mode = g.machine.isDue mode := by
    cases mode with
    | perInstruction => rfl
    | perBlock => rw [Machine.isDue, Machine.isDue, dispatched.meter, dispatched.program, dispatched.pc]
  have gas := Nat.mul_le_mul_right (g.machine.program.code.size + 2)
    (UInt64.le_iff_toNat_le.mp dispatched.gas)
  rw [Machine.stepsLeft, Machine.stepsLeft, due, dispatched.program, dispatched.pc]
  exact Nat.add_le_add_right gas _

theorem turn_wellFormed (wf : g.machine.WellFormed) : (g.turn config).2.machine.WellFormed := by
  have kept := (Machine.run_runs wf config.gasMode).wellFormed wf
  rw [turn_eq]
  split
  · exact (dispatch_dispatched _ config _).wellFormed kept
  · exact kept

theorem turn_stepsLeft (wf : g.machine.WellFormed) (goesOn : (g.turn config).1 = .continue) :
    (g.turn config).2.machine.stepsLeft config.gasMode < g.machine.stepsLeft config.gasMode := by
  have runs := Machine.run_runs wf config.gasMode
  rw [turn_eq] at goesOn ⊢
  split at goesOn
  · rename_i id called
    rw [called] at runs
    have dispatched := dispatch_dispatched ⟨(g.machine.run config.gasMode).2, g.context⟩ config id
    exact Nat.lt_of_le_of_lt (dispatched.stepsLeft_le config.gasMode) (runs.stepsLeft_lt wf rfl)
  · exact absurd goesOn runs.ne_continue

theorem runFor_stops (fuel : Nat) {g : Guest} (wf : g.machine.WellFormed)
    (enough : g.machine.stepsLeft config.gasMode < fuel) : (runFor config fuel g).1 ≠ .continue := by
  induction fuel generalizing g with
  | zero => omega
  | succ fuel ih =>
    rw [runFor_succ]
    split
    · rename_i goesOn
      have used := turn_stepsLeft wf goesOn
      exact ih (turn_wellFormed wf) (by omega)
    · assumption

theorem run_stops (wf : g.machine.WellFormed) (config : Config) : (g.run config).1 ≠ .continue :=
  runFor_stops _ wf (g.machine.stepsLeft_lt_stepBound config.gasMode)

theorem Reaches.wellFormed (reached : Reaches config g exit g') (wf : g.machine.WellFormed) :
    g'.machine.WellFormed := by
  induction reached with
  | start => exact wf
  | turn _ ih => exact turn_wellFormed ih

/-- The unbounded loops that the next turn of a guest may enter come to an end: the run of its
machine, runs of nested machines with any gas and registers, and the search for the id that follows
one which a new service takes. -/
structure LoopsEnd (config : Config) (g : Guest) : Prop where
  machine : Machine.Runs config.gasMode g.machine (g.machine.run config.gasMode).1
    (g.machine.run config.gasMode).2
  nested : ∀ (c : RefinementContext) (handle : UInt64) (n : NestedMachine) (gas : UInt64)
    (registers : Registers), g.context = .refinement c → c.machines[handle]? = some n →
    Machine.Runs config.gasMode (n.toMachine gas registers) (n.run config gas registers).1
      (n.run config gas registers).2
  newId : ∀ (c : AccumulationContext) (id : ServiceId), g.context = .accumulation c →
    c.current.state.accounts.Search (ServiceId.advance id 42) (c.current.state.accounts.nextId id)

theorem Reaches.loopsEnd (reached : Reaches config g exit g') (wf : g.machine.WellFormed)
    (fit : g.context.NestedFit) (free : g'.context.HasFreeId) : g'.LoopsEnd config := by
  have nested : g'.context.NestedFit := reached.invariant fit fun _ kept served => served.nestedFit kept
  refine ⟨Machine.run_runs (reached.wellFormed wf) config.gasMode, ?_, ?_⟩
  · intro c handle n gas registers held named
    rw [held] at nested
    exact Machine.run_runs ((nested handle n named).wellFormed gas registers) config.gasMode
  · intro c id held
    rw [held] at free
    exact Accounts.freeId_search free (ServiceId.isPublic_advance id 42)

end Guest

/-- Machines and guests run to an end. A machine with a built program and a meter that is fresh or left
by earlier runs of it stops in both gas modes, and the block costs it is billed are those of
simulations that were done. As a guest it stops in every invocation, and so does everything that
calls of it run on the way, as long as a public id stays unused. -/
theorem runs_terminate (m : Machine) (built : m.program.Built) (short : m.program.code.size < UInt32.size)
    (left : m.meter.LeftBy m.program) :
    (∀ mode, Machine.Runs mode m (m.run mode).1 (m.run mode).2 ∧ (m.run mode).1 ≠ .continue) ∧
    (∀ pc, (Pipeline.State.simulate m.program CostTable.baseline
      (Pipeline.cycleBound m.program CostTable.baseline pc) (Pipeline.initial pc)).isDone = true) ∧
    ∀ (config : Config) (context : HostContext), context.NestedFit →
      (∀ exit g, Guest.Reaches config ⟨m, context⟩ exit g → g.context.HasFreeId) →
      Guest.Reaches config ⟨m, context⟩ (Guest.run ⟨m, context⟩ config).1
        (Guest.run ⟨m, context⟩ config).2 ∧
      (Guest.run ⟨m, context⟩ config).1 ≠ .continue ∧
      ∀ exit g, Guest.Reaches config ⟨m, context⟩ exit g → g.LoopsEnd config := by
  have wf : m.WellFormed := ⟨built, short, left.honest⟩
  refine ⟨?_, ?_, ?_⟩
  · intro mode
    have runs := Machine.run_runs wf mode
    exact ⟨runs, runs.ne_continue⟩
  · exact Pipeline.simulation_ends built short CostTable.baseline
  · intro config context fit free
    refine ⟨Guest.run_reaches _ config, Guest.run_stops wf config, ?_⟩
    intro exit g reached
    exact reached.loopsEnd wf fit (free exit g reached)

/-- An accumulation whose code calls the host once, to log, and ends there. -/
def loggingGuest : Guest where
  machine := ⟨Program.ofCode #[10, 100] #[true, false] #[] 0, ⟨0, Registers.zero, {}⟩, 5, {}⟩
  context := .accumulation ⟨{}, {}, 0, Hash.zero, #[]⟩

theorem loggingGuest_context {exit : Exit} {g : Guest} (reached : Guest.Reaches {} loggingGuest exit g) :
    g.context = loggingGuest.context := by
  let logged : Guest := { loggingGuest with machine := { loggingGuest.machine with
    gas := 4
    cpu := { loggingGuest.machine.cpu with pc := 2 } } }
  have first : loggingGuest.turn {} = (.continue, logged) := by with_unfolding_all rfl
  have second : (logged.turn {}).1 = .panic := by with_unfolding_all rfl
  have states : (exit = .continue ∧ (g = loggingGuest ∨ g = logged)) ∨
      exit = .panic ∧ g.context = loggingGuest.context := by
    induction reached with
    | start => exact .inl ⟨rfl, .inl rfl⟩
    | turn _ ih =>
      rcases ih with ⟨-, rfl | rfl⟩ | ⟨stopped, -⟩
      · rw [first]
        exact .inl ⟨rfl, .inr rfl⟩
      · exact .inr ⟨second, by with_unfolding_all rfl⟩
      · contradiction
  rcases states with ⟨-, rfl | rfl⟩ | ⟨-, same⟩
  · rfl
  · rfl
  · exact same

theorem loggingGuest_terminates :
    (loggingGuest.run {}).1 ≠ .continue ∧
      ∀ exit g, Guest.Reaches {} loggingGuest exit g → g.LoopsEnd {} := by
  have ends := runs_terminate loggingGuest.machine (.ofCode _ _ _ _) (by decide) .fresh
  refine (ends.2.2 {} loggingGuest.context trivial ?_).2
  intro exit g reached
  rw [loggingGuest_context reached]
  exact ⟨65536, by decide, rfl⟩

end ServiceVm
