import ServiceVm.Invocation.TransferReceipt
import ServiceVm.Proofs.Host.Termination
import ServiceVm.Proofs.Program.Layout

/-!
# The guests that invocations run

An invocation that finds code and can load it runs a guest and takes its data as the guest has left
them; any other invocation leaves the data it started with. What calls preserve holds of the
data that invocations leave. The guests of accumulations run to an end.
-/
namespace ServiceVm

/-- The guest that an image runs as, if the image can be loaded. -/
def imageGuest? (image : Bytes) (pc : UInt32) (gas : UInt64) (argument : Bytes) (context : HostContext) :
    Option Guest :=
  match Image.load image argument with
  | .error _ => none
  | .ok loaded => some ⟨⟨loaded.program, ⟨pc, loaded.registers, loaded.memory⟩, gas, {}⟩, context⟩

section Image

variable {image argument : Bytes} {pc : UInt32} {gas : UInt64} {context : HostContext}

/-- The guest starts with what the parts of the image are loaded into. -/
theorem imageGuest?_eq_some {g : Guest} (loads : imageGuest? image pc gas argument context = some g) :
    ∃ parts : Image, parts.Fits ∧ image = parts.encode ∧ argument.size ≤ inputSize ∧
      ∃ program, Program.ofBlob parts.blob = .ok program ∧
        g = ⟨⟨program, ⟨pc, Image.entryRegisters argument, parts.layout argument⟩, gas, {}⟩, context⟩ := by
  cases load : Image.load image argument with
  | error cause => simp [imageGuest?, load] at loads
  | ok loaded =>
    simp only [imageGuest?, load, Option.some.injEq] at loads
    obtain ⟨parts, fits, written, short, program, built, rfl⟩ := Image.load_eq_ok.mp load
    exact ⟨parts, fits, written, short, program, built, loads.symm⟩

theorem imageGuest?_encode {parts : Image} {program : Program} (fits : parts.Fits)
    (short : argument.size ≤ inputSize) (built : Program.ofBlob parts.blob = .ok program) :
    imageGuest? parts.encode pc gas argument context = some
      ⟨⟨program, ⟨pc, Image.entryRegisters argument, parts.layout argument⟩, gas, {}⟩, context⟩ := by
  have loads := Image.load_eq_ok.mpr ⟨parts, fits, rfl, short, program, built, rfl⟩
  simp only [imageGuest?, loads]

theorem imageGuest?_context {g : Guest} (loads : imageGuest? image pc gas argument context = some g) :
    g.context = context := by
  obtain ⟨-, -, -, -, -, -, rfl⟩ := imageGuest?_eq_some loads
  rfl

theorem imageGuest?_gas {g : Guest} (loads : imageGuest? image pc gas argument context = some g) :
    g.machine.gas = gas := by
  obtain ⟨-, -, -, -, -, -, rfl⟩ := imageGuest?_eq_some loads
  rfl

theorem imageGuest?_wellFormed {g : Guest} (loads : imageGuest? image pc gas argument context = some g) :
    g.machine.WellFormed := by
  obtain ⟨parts, fits, -, -, program, built, rfl⟩ := imageGuest?_eq_some loads
  -- The length of the blob takes four bytes.
  have size : parts.blob.size < addressSpace := fits.blob
  exact ⟨.ofBlob built, Program.size_code_lt built size.le, Meter.honest_fresh _⟩

theorem invokeImage_none (config : Config) (fails : imageGuest? image pc gas argument context = none) :
    invokeImage config image pc gas argument context = ⟨.panic, 0, context⟩ := by
  cases load : Image.load image argument with
  | error cause => simp only [invokeImage, load]
  | ok loaded => simp [imageGuest?, load] at fails

theorem invokeImage_some (config : Config) {g : Guest}
    (loads : imageGuest? image pc gas argument context = some g) :
    invokeImage config image pc gas argument context =
      ⟨InvocationResult.ofExit (g.run config).1 (g.run config).2.machine.cpu,
        gas - (g.run config).2.machine.gas, (g.run config).2.context⟩ := by
  cases load : Image.load image argument with
  | error cause => simp [imageGuest?, load] at loads
  | ok loaded =>
    simp only [imageGuest?, load, Option.some.injEq] at loads
    subst loads
    simp only [invokeImage, load]

end Image

/-! ## Accumulation -/

namespace AccumulationInput

def context (input : AccumulationInput) (state : ChainState) : AccumulationContext where
  current := input.initial state
  checkpoint := input.initial state
  timeslot := input.timeslot
  entropy := input.entropy
  operands := input.operands

/-- The guest that an accumulation runs, if the service has code that can be loaded. -/
def guest? (input : AccumulationInput) (state : ChainState) : Option Guest :=
  match (input.initial state).self?.bind Account.runnableCode? with
  | none => none
  | some code => imageGuest? code accumulateEntry input.gas
      (accumulateArgument input.timeslot input.service input.operands.size)
      (.accumulation (input.context state))

variable {input : AccumulationInput} {state : ChainState}

theorem guest?_context {g : Guest} (runs : input.guest? state = some g) :
    g.context = .accumulation (input.context state) := by
  rw [guest?] at runs
  split at runs
  · contradiction
  · exact imageGuest?_context runs

theorem guest?_wellFormed {g : Guest} (runs : input.guest? state = some g) : g.machine.WellFormed := by
  rw [guest?] at runs
  split at runs
  · contradiction
  · exact imageGuest?_wellFormed runs

end AccumulationInput

section Accumulation

variable {input : AccumulationInput} {state : ChainState}

theorem accumulate_none (config : Config) (idle : input.guest? state = none) :
    (accumulate config state input).outcome = input.initial state := by
  cases found : (input.initial state).self?.bind Account.runnableCode? with
  | none => simp only [accumulate, found]
  | some code =>
    simp only [AccumulationInput.guest?, found] at idle
    have failed := invokeImage_none config idle
    rw [AccumulationInput.context] at failed
    simp only [accumulate, found, failed]
    rfl

theorem accumulate_some (config : Config) {g : Guest} (runs : input.guest? state = some g) :
    (accumulate config state input).result =
        InvocationResult.ofExit (g.run config).1 (g.run config).2.machine.cpu ∧
      (accumulate config state input).outcome =
        (g.run config).2.context.commit (accumulate config state input).result := by
  cases found : (input.initial state).self?.bind Account.runnableCode? with
  | none => simp [AccumulationInput.guest?, found] at runs
  | some code =>
    simp only [AccumulationInput.guest?, found] at runs
    have ran := invokeImage_some config runs
    rw [AccumulationInput.context] at ran
    simp only [accumulate, found, ran, and_self]

theorem AccumulationContext.commit_eq (c : AccumulationContext) (result : InvocationResult) :
    c.commit result = c.checkpoint ∨ ∃ yielded, c.commit result = { c.current with yielded } := by
  cases result with
  | ok output =>
    rw [commit]
    split
    · exact .inr ⟨_, rfl⟩
    · exact .inr ⟨c.current.yielded, rfl⟩
  | outOfGas => exact .inl rfl
  | panic => exact .inl rfl

/-- A property of the outcome an accumulation starts with, and of both outcomes its guest leaves, holds
of the outcome that stands, whatever that yields. -/
theorem accumulate_of_bothOutcomes {P : Outcome → Prop} (config : Config)
    (yields : ∀ x yielded, P x → P { x with yielded }) (initial : P (input.initial state))
    (ran : ∀ g, input.guest? state = some g → (g.run config).2.context.BothOutcomes P) :
    P (accumulate config state input).outcome := by
  cases runs : input.guest? state with
  | none =>
    rw [accumulate_none config runs]
    exact initial
  | some g =>
    have both := ran g runs
    rw [(accumulate_some config runs).2]
    generalize (g.run config).2.context = last at both
    obtain @⟨c, current, checkpoint⟩ := both
    rcases c.commit_eq (accumulate config state input).result with failed | ⟨yielded, halted⟩
    · rw [HostContext.commit, failed]
      exact checkpoint
    · rw [HostContext.commit, halted]
      exact yields _ _ current

end Accumulation

/-- A chain whose only service is its manager. Accumulating, the service blesses, sets a checkpoint and
traps. -/
def blessingService : ChainState where
  manager := 7
  accounts := (∅ : Accounts).insert 7
    { balance := 1000
      preimages := (∅ : Std.TreeMap Hash Bytes).insert Hash.zero (#[0] ++ Image.encode
        { readOnly := #[], readWrite := #[], heapPages := 0, stackSize := 0,
          blob := #[0, 0, 10, 0, 0, 0, 0, 0, 10, 14, 10, 17, 0, 191, 2] }) }

def coreless : Config where
  params := { cores := 0 }

def blessingInput : AccumulationInput where
  service := 7
  gas := 50

/-! ## Receipt of transfers -/

/-- The guest that a receipt of transfers runs: the service has code that can be loaded, and there is
something to receive. -/
def transferGuest? (accounts : Accounts) (service : ServiceId) (timeslot : TimeSlot) (entropy : Hash)
    (transfers : Array Transfer) : Option Guest :=
  match (accounts[service]?).bind Account.runnableCode? with
  | none => none
  | some code =>
    if transfers.isEmpty then none
    else imageGuest? code transferEntry (totalGas transfers)
      (accumulateArgument timeslot service transfers.size)
      (.transfer ⟨service, accounts.credit service (totalAmount transfers), timeslot, entropy, transfers⟩)

section Receipt

variable {accounts : Accounts} {service : ServiceId} {timeslot : TimeSlot} {entropy : Hash}
  {transfers : Array Transfer}

theorem transferGuest?_context {g : Guest}
    (runs : transferGuest? accounts service timeslot entropy transfers = some g) :
    g.context =
      .transfer ⟨service, accounts.credit service (totalAmount transfers), timeslot, entropy, transfers⟩ := by
  rw [transferGuest?] at runs
  split at runs
  · contradiction
  · split at runs
    · contradiction
    · exact imageGuest?_context runs

theorem receiveTransfers_none (config : Config)
    (idle : transferGuest? accounts service timeslot entropy transfers = none) :
    (receiveTransfers config accounts service timeslot entropy transfers).1 = accounts ∨
      (receiveTransfers config accounts service timeslot entropy transfers).1 =
        accounts.credit service (totalAmount transfers) := by
  cases found : (accounts[service]?).bind Account.runnableCode? with
  | none =>
    left
    simp only [receiveTransfers, found]
  | some code =>
    by_cases nothing : transfers.isEmpty = true
    · left
      simp only [receiveTransfers, found, if_pos nothing]
    · right
      simp only [transferGuest?, found, if_neg nothing] at idle
      simp only [receiveTransfers, found, if_neg nothing, invokeImage_none config idle]
      rfl

theorem receiveTransfers_some (config : Config) {g : Guest}
    (runs : transferGuest? accounts service timeslot entropy transfers = some g) :
    (receiveTransfers config accounts service timeslot entropy transfers).1 =
      (g.run config).2.context.accounts?.getD ∅ := by
  cases found : (accounts[service]?).bind Account.runnableCode? with
  | none => simp [transferGuest?, found] at runs
  | some code =>
    by_cases nothing : transfers.isEmpty = true
    · simp only [transferGuest?, found, if_pos nothing] at runs
      contradiction
    · simp only [transferGuest?, found, if_neg nothing] at runs
      simp only [receiveTransfers, found, if_neg nothing, invokeImage_some config runs]

/-- A property of the accounts before and after the transfers are credited, and of those the guest
leaves, holds of the accounts that result. -/
theorem receiveTransfers_of_receiptAccounts {P : Accounts → Prop} (config : Config) (before : P accounts)
    (credited : P (accounts.credit service (totalAmount transfers)))
    (ran : ∀ g, transferGuest? accounts service timeslot entropy transfers = some g →
      (g.run config).2.context.ReceiptAccounts P) :
    P (receiveTransfers config accounts service timeslot entropy transfers).1 := by
  cases runs : transferGuest? accounts service timeslot entropy transfers with
  | none =>
    rcases receiveTransfers_none config runs with same | same
    · rw [same]
      exact before
    · rw [same]
      exact credited
  | some g =>
    have held := ran g runs
    rw [receiveTransfers_some config runs]
    generalize (g.run config).2.context = last at held
    obtain ⟨left⟩ := held
    exact left

end Receipt

end ServiceVm
