import ServiceVm.Proofs.Host.Refusals

/-!
# Guests between their turns

A turn runs the machine up to its next exit and serves the call it stopped for. `Dispatch` lists the
ways in which a call ends: it keeps the program, the meter and the program counter, never adds gas,
and changes the data of the invocation as `HostContext.Served` says, or not at all if it is refused.
`Reaches` are the states a guest passes through; what every served call preserves holds in all of them.
-/
namespace ServiceVm

namespace Guest

variable {config : Config} {g g' : Guest} {exit : Exit}

theorem permitted?_eq_some {id : UInt32} {call : HostCall} (permitted : g.permitted? id = some call) :
    HostCall.ofId? id = some call ∧ call.permittedIn g.context.kind = true := by
  rw [permitted?] at permitted
  split at permitted
  · rename_i known
    split at permitted
    · rename_i allowed
      obtain rfl := Option.some.inj permitted
      exact ⟨known, allowed⟩
    · contradiction
  · contradiction

def hostState (g : Guest) : HostState :=
  ⟨g.machine.cpu.registers, g.machine.cpu.memory, g.machine.gas, g.context⟩

/-- The guest once its host has left it in state `s`. -/
def resume (g : Guest) (s : HostState) : Guest where
  machine := { g.machine with
    cpu := { g.machine.cpu with registers := s.registers, memory := s.memory }
    gas := s.gas }
  context := s.context

/-- What the call with the given number costs the guest. -/
def due (g : Guest) (id : UInt32) : UInt64 :=
  match g.permitted? id with
  | some call => call.fee g.machine.cpu.registers
  | none => hostCallGas

def charged (g : Guest) (id : UInt32) : Guest :=
  { g with machine := { g.machine with gas := g.machine.gas - g.due id } }

/-- The ways in which a call ends: the guest cannot pay for it, the guest may not make it, its host
refuses it, or its host does what was asked. -/
inductive Dispatch (config : Config) (g : Guest) (id : UInt32) : Exit → Guest → Prop where
  | unpaid : g.machine.gas < g.due id → Dispatch config g id .outOfGas g
  | unknown : g.permitted? id = none → g.due id ≤ g.machine.gas →
      Dispatch config g id .continue (g.charged id).refuse
  | refused {call : HostCall} {refusal : Refusal} : g.permitted? id = some call →
      g.due id ≤ g.machine.gas →
      call.result config (g.charged id).hostState = .error refusal (g.charged id).hostState →
      Dispatch config g id refusal.exit
        ((g.charged id).resume ((g.charged id).hostState.reply refusal.code))
  | served {call : HostCall} {s : HostState} : g.permitted? id = some call →
      g.due id ≤ g.machine.gas → call.result config (g.charged id).hostState = .ok s →
      Dispatch config g id .continue ((g.charged id).resume s)

theorem pay?_of_le {fee : UInt64} (enough : fee ≤ g.machine.gas) :
    g.pay? fee = some { g with machine := { g.machine with gas := g.machine.gas - fee } } := by
  simp only [pay?, deduct?, if_pos enough]

theorem pay?_of_lt {fee : UInt64} (short : g.machine.gas < fee) : g.pay? fee = none := by
  simp only [pay?, deduct?, if_neg (UInt64.not_le.mpr short)]

theorem execute_eq (g : Guest) (config : Config) (call : HostCall) :
    g.execute config call =
      ((call.result config g.hostState).settle.1, g.resume (call.result config g.hostState).settle.2) := rfl

theorem dispatch_eq_execute {id : UInt32} {call : HostCall} (permitted : g.permitted? id = some call)
    (enough : g.due id ≤ g.machine.gas) : g.dispatch config id = (g.charged id).execute config call := by
  have fee : g.due id = call.fee g.machine.cpu.registers := by simp only [due, permitted]
  rw [fee] at enough
  simp only [dispatch, permitted, pay?_of_le enough, charged, fee]

theorem dispatch_spec (g : Guest) (config : Config) (id : UInt32) :
    Dispatch config g id (g.dispatch config id).1 (g.dispatch config id).2 := by
  cases permitted : g.permitted? id with
  | none =>
    have fee : g.due id = hostCallGas := by simp only [due, permitted]
    rcases UInt64.lt_or_le g.machine.gas hostCallGas with short | enough
    · simp only [dispatch, permitted, pay?_of_lt short]
      exact .unpaid (by rwa [fee])
    · simp only [dispatch, permitted, pay?_of_le enough]
      rw [← fee] at enough ⊢
      exact .unknown permitted enough
  | some call =>
    rcases UInt64.lt_or_le g.machine.gas (g.due id) with short | enough
    · have fee : g.due id = call.fee g.machine.cpu.registers := by simp only [due, permitted]
      rw [fee] at short
      simp only [dispatch, permitted, pay?_of_lt short]
      exact .unpaid (by rwa [fee])
    · rw [dispatch_eq_execute permitted enough, execute_eq]
      cases done : call.result config (g.charged id).hostState with
      | error refusal s =>
        obtain rfl := HostCall.state_of_result_error done
        exact .refused permitted enough done
      | ok s => exact .served permitted enough done

/-- What serving a call leaves of the machine. -/
structure Dispatched (g g' : Guest) : Prop where
  program : g'.machine.program = g.machine.program
  meter : g'.machine.meter = g.machine.meter
  pc : g'.machine.cpu.pc = g.machine.cpu.pc
  gas : g'.machine.gas ≤ g.machine.gas

theorem charged_gas_le {id : UInt32} (enough : g.due id ≤ g.machine.gas) :
    (g.charged id).machine.gas ≤ g.machine.gas := by
  rw [charged, UInt64.le_iff_toNat_le, UInt64.toNat_sub_of_le _ _ enough]
  exact Nat.sub_le _ _

theorem Dispatch.dispatched {id : UInt32} (dispatch : Dispatch config g id exit g') : Dispatched g g' := by
  cases dispatch with
  | unpaid => exact ⟨rfl, rfl, rfl, UInt64.le_refl _⟩
  | unknown _ enough => exact ⟨rfl, rfl, rfl, charged_gas_le enough⟩
  | refused _ enough => exact ⟨rfl, rfl, rfl, charged_gas_le enough⟩
  | served permitted enough done =>
    have served := Host.served (s := (g.charged id).hostState) (permitted?_eq_some permitted).2 done
    exact ⟨rfl, rfl, rfl, UInt64.le_trans (UInt64.le_of_eq served.gas) (charged_gas_le enough)⟩

theorem dispatch_dispatched (g : Guest) (config : Config) (id : UInt32) :
    Dispatched g (g.dispatch config id).2 := (g.dispatch_spec config id).dispatched

/-- The call with the given number, if the guest may make it and can pay for it. -/
def granted? (g : Guest) (id : UInt32) : Option HostCall :=
  if g.due id ≤ g.machine.gas then g.permitted? id else none

theorem granted?_eq_some {id : UInt32} {call : HostCall} (granted : g.granted? id = some call) :
    g.due id ≤ g.machine.gas ∧ g.permitted? id = some call := by
  simpa [granted?] using granted

/-- Calls change the data of the invocation only once they are paid for, and then as listed. -/
theorem Dispatch.context {id : UInt32} (dispatch : Dispatch config g id exit g') :
    g'.context = g.context ∨ ∃ call, g.granted? id = some call ∧ g.context.Served config call g'.context := by
  cases dispatch with
  | unpaid => exact .inl rfl
  | unknown => exact .inl rfl
  | refused => exact .inl rfl
  | @served call s permitted enough done =>
    have served := Host.served (s := (g.charged id).hostState) (permitted?_eq_some permitted).2 done
    exact .inr ⟨call, by rw [granted?, if_pos enough, permitted], served.context⟩

theorem turn_eq (g : Guest) (config : Config) :
    g.turn config =
      match (g.machine.run config.gasMode).1 with
      | .hostCall id => ({ g with machine := (g.machine.run config.gasMode).2 } : Guest).dispatch config id
      | exit => (exit, { g with machine := (g.machine.run config.gasMode).2 }) := rfl

def nextCall? (g : Guest) (config : Config) : Option HostCall :=
  match (g.machine.run config.gasMode).1 with
  | .hostCall id => granted? { g with machine := (g.machine.run config.gasMode).2 } id
  | _ => none

/-- A turn runs the machine, which leaves the data of the invocation alone, and then makes a call or
stops. -/
theorem turn_cases (g : Guest) (config : Config) :
    (∃ id, (g.machine.run config.gasMode).1 = .hostCall id ∧
      g.nextCall? config = granted? { g with machine := (g.machine.run config.gasMode).2 } id ∧
      Dispatch config { g with machine := (g.machine.run config.gasMode).2 } id (g.turn config).1
        (g.turn config).2) ∨
    (g.nextCall? config = none ∧
      g.turn config = ((g.machine.run config.gasMode).1,
        { g with machine := (g.machine.run config.gasMode).2 })) := by
  rw [turn_eq, nextCall?]
  cases stopped : (g.machine.run config.gasMode).1 with
  | hostCall id => exact .inl ⟨id, rfl, rfl, dispatch_spec _ config id⟩
  | _ => exact .inr ⟨rfl, rfl⟩

theorem turn_context (g : Guest) (config : Config) :
    (g.turn config).2.context = g.context ∨
      ∃ call, g.nextCall? config = some call ∧ g.context.Served config call (g.turn config).2.context := by
  rcases g.turn_cases config with ⟨id, -, next, dispatch⟩ | ⟨-, stops⟩
  · rw [next]
    exact dispatch.context
  · rw [stops]
    exact .inl rfl

def asked (g : Guest) (config : Config) (call : HostCall) : HostState :=
  let m := (g.machine.run config.gasMode).2
  ⟨m.cpu.registers, m.cpu.memory, m.gas - call.fee m.cpu.registers, g.context⟩

def paused (g : Guest) (config : Config) : Guest :=
  { g with machine := (g.machine.run config.gasMode).2 }

theorem asked_of_run {exit : Exit} {m : Machine} (stopped : g.machine.run config.gasMode = (exit, m))
    (call : HostCall) :
    g.asked config call = ⟨m.cpu.registers, m.cpu.memory, m.gas - call.fee m.cpu.registers, g.context⟩ := by
  rw [asked, stopped]

theorem nextCall?_of_run {call : HostCall} {m : Machine}
    (stopped : g.machine.run config.gasMode = (.hostCall call.id, m))
    (allowed : call.permittedIn g.context.kind = true) (affords : call.fee m.cpu.registers ≤ m.gas) :
    g.nextCall? config = some call := by
  have permitted : permitted? { g with machine := m } call.id = some call := by
    simp only [permitted?, HostCall.ofId?_id, if_pos allowed]
  simp only [nextCall?, stopped, granted?, due, permitted, if_pos affords]

theorem turn_of_nextCall? {call : HostCall} (next : g.nextCall? config = some call) :
    g.turn config =
      ((call.result config (g.asked config call)).settle.1,
        (g.paused config).resume (call.result config (g.asked config call)).settle.2) := by
  rw [nextCall?] at next
  cases stopped : (g.machine.run config.gasMode).1 with
  | hostCall id =>
    simp only [stopped] at next
    obtain ⟨enough, permitted⟩ := granted?_eq_some next
    have state : (charged { g with machine := (g.machine.run config.gasMode).2 } id).hostState =
        g.asked config call := by
      simp only [hostState, charged, due, permitted, asked]
    simp only [turn_eq, stopped]
    rw [dispatch_eq_execute permitted enough, execute_eq, state]
    rfl
  | _ =>
    simp only [stopped] at next
    contradiction

/-- States of a guest between its turns, with the exit of the last turn. The guest goes on as long as
that is `Exit.continue`. -/
inductive Reaches (config : Config) (g : Guest) : Exit → Guest → Prop where
  | start : Reaches config g .continue g
  | turn {last : Guest} : Reaches config g .continue last →
      Reaches config g (last.turn config).1 (last.turn config).2

theorem runFor_succ (config : Config) (fuel : Nat) (g : Guest) :
    runFor config (fuel + 1) g =
      if (g.turn config).1 = .continue then runFor config fuel (g.turn config).2 else g.turn config := rfl

theorem runFor_reaches (fuel : Nat) {last : Guest} (reached : Reaches config g .continue last) :
    Reaches config g (runFor config fuel last).1 (runFor config fuel last).2 := by
  induction fuel generalizing last with
  | zero => exact reached
  | succ fuel ih =>
    have turned := reached.turn
    rw [runFor_succ]
    split
    · rename_i goesOn
      rw [goesOn] at turned
      exact ih turned
    · exact turned

theorem run_reaches (g : Guest) (config : Config) :
    Reaches config g (g.run config).1 (g.run config).2 := runFor_reaches _ .start

theorem Reaches.cases_head (reached : Reaches config g exit g') :
    (exit = .continue ∧ g' = g) ∨ (exit = (g.turn config).1 ∧ g' = (g.turn config).2) ∨
      ((g.turn config).1 = .continue ∧ Reaches config (g.turn config).2 exit g') := by
  induction reached with
  | start => exact .inl ⟨rfl, rfl⟩
  | @turn last _ ih =>
    rcases ih with ⟨-, rfl⟩ | ⟨goesOn, rfl⟩ | ⟨goesOn, later⟩
    · exact .inr (.inl ⟨rfl, rfl⟩)
    · exact .inr (.inr ⟨goesOn.symm, .turn .start⟩)
    · exact .inr (.inr ⟨goesOn, later.turn⟩)

/-- What holds of the data of an invocation at first, and is kept by every call that leads to a
reached state, holds in every reached state. -/
theorem Reaches.invariant {P : HostContext → Prop} (start : P g.context)
    (kept : ∀ {call c exit next}, Reaches config g exit next → P c → c.Served config call next.context →
      P next.context)
    (reached : Reaches config g exit g') : P g'.context := by
  induction reached with
  | start => exact start
  | @turn last before ih =>
    rcases last.turn_context config with same | ⟨call, -, served⟩
    · rw [same]
      exact ih
    · exact kept before.turn ih served

end Guest

/-- An accumulation whose current outcome and checkpoint both have a property. -/
inductive HostContext.BothOutcomes (P : Outcome → Prop) : HostContext → Prop where
  | accumulation {c : AccumulationContext} : P c.current → P c.checkpoint → BothOutcomes P (.accumulation c)

theorem HostContext.BothOutcomes.mono {P Q : Outcome → Prop} {c : HostContext} (both : c.BothOutcomes P)
    (weaker : ∀ x, P x → Q x) : c.BothOutcomes Q := by
  obtain ⟨current, checkpoint⟩ := both
  exact .accumulation (weaker _ current) (weaker _ checkpoint)

/-- What calls preserve of the outcome an accumulation works on holds of its checkpoint, too. Calls may
rely on `Q`, which is known of every outcome that is reached. -/
theorem Guest.Reaches.bothOutcomes {config : Config} {g g' : Guest} {exit : Exit} {P Q : Outcome → Prop}
    (start : g.context.BothOutcomes P)
    (kept : ∀ {timeslot call x x'}, x.Served config timeslot call x' → P x → Q x' → P x')
    (always : ∀ {exit last c}, Reaches config g exit last → last.context = .accumulation c → Q c.current)
    (reached : Reaches config g exit g') : g'.context.BothOutcomes P := by
  refine reached.invariant start ?_
  intro call c exit next later both served
  have known := @always exit next
  generalize next.context = c' at served known
  cases served with
  | observed => exact both
  | refinement => nomatch both
  | transfer => nomatch both
  | accumulation change =>
    obtain ⟨current, checkpoint⟩ := both
    cases change with
    | checkpoint => exact .accumulation current current
    | current change => exact .accumulation (kept change current (known later rfl)) checkpoint

/-- A receipt of transfers whose accounts have a property. -/
inductive HostContext.ReceiptAccounts (P : Accounts → Prop) : HostContext → Prop where
  | transfer {c : TransferContext} : P c.accounts → ReceiptAccounts P (.transfer c)

theorem Guest.Reaches.receiptAccounts {config : Config} {g g' : Guest} {exit : Exit} {P : Accounts → Prop}
    (start : g.context.ReceiptAccounts P)
    (kept : ∀ {c c' : TransferContext} {call}, c.Served call c' → P c.accounts → P c'.accounts)
    (reached : Reaches config g exit g') : g'.context.ReceiptAccounts P := by
  refine reached.invariant start ?_
  intro call c exit next later held served
  generalize next.context = c' at served
  cases served with
  | observed => exact held
  | refinement => nomatch held
  | accumulation => nomatch held
  | transfer change =>
    obtain ⟨accounts⟩ := held
    exact .transfer (kept change accounts)

end ServiceVm
