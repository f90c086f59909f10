import Mathlib.Algebra.GroupWithZero.Nat
import ServiceVm.Proofs.Host.Atomicity
import ServiceVm.Proofs.Invocation.Guests
import ServiceVm.Proofs.Machine.Metering

/-!
# The gas that an invocation reports

A guest pays for its instructions and for its calls, and for nothing else. `Executes` follows a guest
through all turns of its run, instruction by instruction, and counts what it has to pay for: the
instructions that are executed and the fees of the calls that are served. Billed by instructions, the
gas that an invocation reports is the sum of both. Fees are numbers here, while the host computes
them in words and cuts them off at the largest one; a guest that gets to call its host has less gas
than that, so it never pays a fee that was cut off.
-/
namespace ServiceVm

theorem toNat_saturatingAdd_of_lt {a b : UInt64} (below : (saturatingAdd a b).toNat < maxWord) :
    (saturatingAdd a b).toNat = a.toNat + b.toNat := by
  have max : maxWord = 18446744073709551615 := rfl
  rw [saturatingAdd, UInt64.toNat_ofNat_of_lt' (by rw [UInt64.size]; omega)] at below ⊢
  omega

namespace Guest

variable {config : Config} {g g' last : Guest} {m m' : Machine} {c : HostContext} {id : UInt32}
  {exit : Exit} {n : Nat} {fees : List Nat}

/-- The fee of the call with the given number. A call that the guest may not make is unknown to its
host. -/
def fee (g : Guest) (id : UInt32) : Nat :=
  match g.permitted? id with
  | some .transfer => 10 + (g.machine.cpu.registers.get Reg.r9).toNat
  | some .log => 0
  | _ => 10

/-- A guest executes `n` instructions, and `fees` are those of the calls it is served in order, until it
exits for good. An instruction that cannot be paid for is not executed, and a call that cannot be
paid for is not served. -/
inductive Executes (config : Config) : Guest → (n : Nat) → (fees : List Nat) → Exit → Guest → Prop where
  | starves {m m' : Machine} {c : HostContext} : m.step config.gasMode = (.outOfGas, m') →
      Executes config ⟨m, c⟩ 0 [] .outOfGas ⟨m', c⟩
  | stops {m m' : Machine} {c : HostContext} {exit : Exit} : m.step config.gasMode = (exit, m') →
      exit.isTerminal = true → exit ≠ .outOfGas → Executes config ⟨m, c⟩ 1 [] exit ⟨m', c⟩
  | steps {m m' : Machine} {c : HostContext} {n : Nat} {fees : List Nat} {exit : Exit} {last : Guest} :
      m.step config.gasMode = (.continue, m') → Executes config ⟨m', c⟩ n fees exit last →
      Executes config ⟨m, c⟩ (n + 1) fees exit last
  | unserved {m m' : Machine} {c : HostContext} {id : UInt32} {last : Guest} :
      m.step config.gasMode = (.hostCall id, m') → dispatch ⟨m', c⟩ config id = (.outOfGas, last) →
      Executes config ⟨m, c⟩ 1 [] .outOfGas last
  | failed {m m' : Machine} {c : HostContext} {id : UInt32} {last : Guest} :
      m.step config.gasMode = (.hostCall id, m') → dispatch ⟨m', c⟩ config id = (.panic, last) →
      Executes config ⟨m, c⟩ 1 [fee ⟨m', c⟩ id] .panic last
  | served {m m' : Machine} {c : HostContext} {id : UInt32} {n : Nat} {fees : List Nat} {exit : Exit}
      {next last : Guest} : m.step config.gasMode = (.hostCall id, m') →
      dispatch ⟨m', c⟩ config id = (.continue, next) → Executes config next n fees exit last →
      Executes config ⟨m, c⟩ (n + 1) (fee ⟨m', c⟩ id :: fees) exit last

/-! ## What calls cost -/

theorem toNat_due (enough : g.due id ≤ g.machine.gas) (less : g.machine.gas.toNat < maxWord) :
    (g.due id).toNat = g.fee id := by
  have below : (g.due id).toNat < maxWord := Nat.lt_of_le_of_lt (UInt64.le_iff_toNat_le.mp enough) less
  cases permitted : g.permitted? id with
  | none =>
    simp only [due, fee, permitted]
    rfl
  | some call =>
    simp only [due, fee, permitted] at below ⊢
    cases call with
    | transfer => exact toNat_saturatingAdd_of_lt below
    | _ => rfl

/-- A call that is served costs its fee, whatever the host does for it. -/
theorem Dispatch.gas_due (dispatch : Dispatch config g id exit g') (paid : exit ≠ .outOfGas) :
    g.due id ≤ g.machine.gas ∧ g'.machine.gas = (g.charged id).machine.gas := by
  cases dispatch with
  | unpaid => contradiction
  | unknown _ enough => exact ⟨enough, rfl⟩
  | refused _ enough => exact ⟨enough, rfl⟩
  | served permitted enough done =>
    have served := Host.served (s := (g.charged id).hostState) (permitted?_eq_some permitted).2 done
    exact ⟨enough, served.gas⟩

theorem Dispatch.gas_fee (dispatch : Dispatch config g id exit g') (paid : exit ≠ .outOfGas)
    (less : g.machine.gas.toNat < maxWord) : g'.machine.gas.toNat + g.fee id = g.machine.gas.toNat := by
  obtain ⟨enough, gas⟩ := dispatch.gas_due paid
  rw [gas, ← toNat_due enough less]
  exact gas_charged enough

theorem dispatch_of_eq (dispatched : g.dispatch config id = (exit, g')) : Dispatch config g id exit g' := by
  have spec := g.dispatch_spec config id
  rw [dispatched] at spec
  exact spec

theorem gas_call (mode : config.gasMode = .perInstruction)
    (called : m.step config.gasMode = (.hostCall id, m'))
    (dispatched : dispatch ⟨m', c⟩ config id = (exit, g')) (paid : exit ≠ .outOfGas) :
    g'.machine.gas.toNat + fee ⟨m', c⟩ id + 1 = m.gas.toNat := by
  rw [mode] at called
  have step := Machine.gas_perInstruction called nofun
  have size := m.gas.toNat_lt
  have max : maxWord = 18446744073709551615 := rfl
  have less : m'.gas.toNat < maxWord := by omega
  have call : g'.machine.gas.toNat + fee ⟨m', c⟩ id = m'.gas.toNat :=
    (dispatch_of_eq dispatched).gas_fee paid less
  omega

/-- Billed by instructions, gas goes into instructions and fees. -/
theorem Executes.gas (mode : config.gasMode = .perInstruction)
    (executes : Executes config g n fees exit last) :
    last.machine.gas.toNat + (n + fees.sum) = g.machine.gas.toNat := by
  induction executes with
  | starves step =>
    obtain ⟨-, -, rfl⟩ := Machine.step_short step
    rfl
  | stops step _ funded =>
    rw [mode] at step
    exact Machine.gas_perInstruction step funded
  | steps step _ ih =>
    rw [mode] at step
    have paid := Machine.gas_perInstruction step nofun
    dsimp only at ih ⊢
    omega
  | unserved step dispatched =>
    rw [mode] at step
    rw [(dispatch_of_eq dispatched).unpaid_unchanged rfl]
    exact Machine.gas_perInstruction step nofun
  | failed step dispatched =>
    have paid := gas_call mode step dispatched nofun
    rw [List.sum_singleton]
    dsimp only
    omega
  | served step dispatched _ ih =>
    have paid := gas_call mode step dispatched nofun
    rw [List.sum_cons]
    dsimp only
    omega

/-! ## Runs are executed -/

theorem executes_of_runs {stopped : Exit} (runs : Machine.Runs config.gasMode m stopped m')
    (ends : ∀ before : Machine, before.step config.gasMode = (stopped, m') →
      ∃ n fees, Executes config ⟨before, c⟩ n fees exit last) :
    ∃ n fees, Executes config ⟨m, c⟩ n fees exit last := by
  induction runs with
  | stop step _ => exact ends _ step
  | next step _ ih =>
    obtain ⟨n, fees, rest⟩ := ih ends
    exact ⟨n + 1, fees, .steps step rest⟩

theorem Dispatch.exits (dispatch : Dispatch config g id exit g') :
    exit = .continue ∨ exit = .panic ∨ exit = .outOfGas := by
  cases dispatch with
  | unpaid => exact .inr (.inr rfl)
  | unknown => exact .inl rfl
  | @refused _ refusal => cases refusal <;> simp [Refusal.exit]
  | served => exact .inl rfl

theorem executes_stop (step : m.step config.gasMode = (exit, m')) (terminal : exit.isTerminal = true) :
    ∃ n fees, Executes config ⟨m, c⟩ n fees exit ⟨m', c⟩ := by
  by_cases short : exit = .outOfGas
  · subst short
    exact ⟨0, [], .starves step⟩
  · exact ⟨1, [], .stops step terminal short⟩

theorem executes_lastCall (step : m.step config.gasMode = (.hostCall id, m'))
    (dispatched : dispatch ⟨m', c⟩ config id = (exit, last)) (ends : exit ≠ .continue) :
    ∃ n fees, Executes config ⟨m, c⟩ n fees exit last := by
  rcases (dispatch_of_eq dispatched).exits with rfl | rfl | rfl
  · contradiction
  · exact ⟨1, _, .failed step dispatched⟩
  · exact ⟨1, [], .unserved step dispatched⟩

theorem turn_executes_ends (wf : g.machine.WellFormed) (ends : (g.turn config).1 ≠ .continue) :
    ∃ n fees, Executes config g n fees (g.turn config).1 (g.turn config).2 := by
  have runs := Machine.run_runs wf config.gasMode
  cases stopped : (g.machine.run config.gasMode).1 with
  | «continue» => exact absurd stopped runs.ne_continue
  | hostCall id =>
    rw [stopped] at runs
    simp only [turn_eq, stopped] at ends ⊢
    exact executes_of_runs runs fun before step => executes_lastCall step rfl ends
  | _ =>
    rw [stopped] at runs
    simp only [turn_eq, stopped]
    exact executes_of_runs runs fun before step => executes_stop step rfl

theorem turn_executes_goesOn (wf : g.machine.WellFormed) (goesOn : (g.turn config).1 = .continue)
    (rest : Executes config (g.turn config).2 n fees exit last) :
    ∃ n fees, Executes config g n fees exit last := by
  have runs := Machine.run_runs wf config.gasMode
  rcases g.turn_cases config with ⟨id, called, -, -⟩ | ⟨-, stopped⟩
  · simp only [turn_eq, called] at goesOn rest
    rw [called] at runs
    exact executes_of_runs runs fun before step => ⟨_, _, .served step (Prod.ext goesOn rfl) rest⟩
  · rw [stopped] at goesOn
    exact absurd goesOn runs.ne_continue

theorem runFor_executes (fuel : Nat) {g : Guest} (wf : g.machine.WellFormed)
    (stops : (runFor config fuel g).1 ≠ .continue) :
    ∃ n fees, Executes config g n fees (runFor config fuel g).1 (runFor config fuel g).2 := by
  induction fuel generalizing g with
  | zero => contradiction
  | succ fuel ih =>
    rw [runFor_succ] at stops ⊢
    by_cases goesOn : (g.turn config).1 = .continue
    · rw [if_pos goesOn] at stops ⊢
      obtain ⟨n, fees, rest⟩ := ih (turn_wellFormed wf) stops
      exact turn_executes_goesOn wf goesOn rest
    · rw [if_neg goesOn]
      exact turn_executes_ends wf goesOn

theorem run_executes (wf : g.machine.WellFormed) (config : Config) :
    ∃ n fees, Executes config g n fees (g.run config).1 (g.run config).2 :=
  runFor_executes _ wf (run_stops wf config)

/-- However it is billed, no guest gains gas. -/
theorem Executes.gas_le (executes : Executes config g n fees exit last) :
    last.machine.gas ≤ g.machine.gas := by
  have stepped {m m' : Machine} {exit : Exit} (step : m.step config.gasMode = (exit, m')) :
      m'.gas ≤ m.gas := UInt64.le_iff_toNat_le.mpr (Machine.gas_le_of_step step)
  have called {m : Machine} {c : HostContext} {id : UInt32} {exit : Exit} {next : Guest}
      (dispatched : dispatch ⟨m, c⟩ config id = (exit, next)) : next.machine.gas ≤ m.gas :=
    (dispatch_of_eq dispatched).dispatched.gas
  induction executes with
  | starves step => exact stepped step
  | stops step => exact stepped step
  | steps step _ ih => exact UInt64.le_trans ih (stepped step)
  | unserved step dispatched => exact UInt64.le_trans (called dispatched) (stepped step)
  | failed step dispatched => exact UInt64.le_trans (called dispatched) (stepped step)
  | served step dispatched _ ih =>
    exact UInt64.le_trans ih (UInt64.le_trans (called dispatched) (stepped step))

end Guest

theorem invokeImage_gasUsed_le (config : Config) (image : Bytes) (pc : UInt32) (gas : UInt64)
    (argument : Bytes) (context : HostContext) :
    (invokeImage config image pc gas argument context).gasUsed ≤ gas := by
  cases loads : imageGuest? image pc gas argument context with
  | none =>
    rw [invokeImage_none config loads]
    exact UInt64.zero_le
  | some g =>
    obtain ⟨n, fees, executes⟩ := g.run_executes (imageGuest?_wellFormed loads) config
    have less := executes.gas_le
    rw [imageGuest?_gas loads] at less
    rw [invokeImage_some config loads, UInt64.le_iff_toNat_le, UInt64.toNat_sub_of_le _ _ less]
    exact Nat.sub_le _ _

/-- The gas an invocation reports is what its guest has spent. Steps and calls add no gas in either
mode, so the difference that is reported is a true one, and a guest that is billed by instructions
has spent one unit on each instruction it has executed and the fee of each call it was served. An
image that cannot be loaded costs nothing. -/
theorem gas_used_exact (config : Config) (image : Bytes) (pc : UInt32) (gas : UInt64) (argument : Bytes)
    (context : HostContext) :
    (∀ (m : Machine) (mode : GasMode), (m.step mode).2.gas ≤ m.gas) ∧
    (∀ (g : Guest) (id : UInt32), (g.dispatch config id).2.machine.gas ≤ g.machine.gas) ∧
    (imageGuest? image pc gas argument context = none →
      (invokeImage config image pc gas argument context).gasUsed = 0) ∧
    ∀ g, imageGuest? image pc gas argument context = some g →
      (g.run config).2.machine.gas ≤ gas ∧
      (invokeImage config image pc gas argument context).gasUsed = gas - (g.run config).2.machine.gas ∧
      (∃ n fees, g.Executes config n fees (g.run config).1 (g.run config).2) ∧
      (config.gasMode = .perInstruction → ∀ n fees,
        g.Executes config n fees (g.run config).1 (g.run config).2 →
        (invokeImage config image pc gas argument context).gasUsed.toNat = n + fees.sum) := by
  refine ⟨Machine.step_gas_le, fun g id => (g.dispatch_dispatched config id).gas, ?_, ?_⟩
  · intro fails
    rw [invokeImage_none config fails]
  · intro g loads
    have executed := g.run_executes (imageGuest?_wellFormed loads) config
    have less : (g.run config).2.machine.gas ≤ gas := by
      obtain ⟨n, fees, executes⟩ := executed
      rw [← imageGuest?_gas loads]
      exact executes.gas_le
    rw [invokeImage_some config loads]
    refine ⟨less, rfl, executed, ?_⟩
    intro mode n fees executes
    have spent := executes.gas mode
    have bound := UInt64.le_iff_toNat_le.mp less
    rw [imageGuest?_gas loads] at spent
    rw [UInt64.toNat_sub_of_le _ _ less]
    omega

/-- Code that logs and makes a transfer which passes on 5 gas, with a memo that lies outside of its
memory. -/
def passingImage : Bytes := Image.encode
  { readOnly := #[], readWrite := #[], heapPages := 0, stackSize := 0,
    blob := #[0, 0, 10, 10, 100, 51, 9, 5, 51, 10, 255, 10, 20, 37, 1] }

/-- It pays for two instructions that set registers, two calling instructions and the transfer; the log
is free. -/
theorem passingImage_gas_used :
    (invokeImage {} passingImage 0 100 #[] strandedGuest.context).gasUsed = 19 ∧
      ∃ g n fees, imageGuest? passingImage 0 100 #[] strandedGuest.context = some g ∧
        g.Executes {} n fees (g.run {}).1 (g.run {}).2 ∧ 19 = n + fees.sum := by
  have spent : (invokeImage {} passingImage 0 100 #[] strandedGuest.context).gasUsed = 19 := by
    decide +kernel
  have found : (imageGuest? passingImage 0 100 #[] strandedGuest.context).isSome = true := by
    decide +kernel
  obtain ⟨g, loads⟩ := Option.isSome_iff_exists.mp found
  obtain ⟨-, -, ⟨n, fees, executes⟩, sums⟩ :=
    (gas_used_exact {} passingImage 0 100 #[] strandedGuest.context).2.2.2 g loads
  have sum := sums rfl n fees executes
  rw [spent] at sum
  exact ⟨spent, g, n, fees, loads, executes, sum⟩

end ServiceVm
