import ServiceVm.Invocation.Argument

/-! # Accumulating the results of work -/
namespace ServiceVm

open Codec

structure AccumulationInput where
  service : ServiceId := 0
  timeslot : TimeSlot := 0
  gas : UInt64 := 0
  entropy : Hash := Hash.zero
  operands : Array Operand := #[]
  transfers : Array Transfer := #[]

structure AccumulationOutcome where
  outcome : Outcome
  gasUsed : UInt64
  result : InvocationResult

/-- Sum of amounts, up to the largest word. -/
def totalAmount (transfers : Array Transfer) : UInt64 :=
  transfers.foldl (fun sum t => saturatingAdd sum t.amount) 0

/-- The account with `amount` more, if there is one. -/
def Accounts.credit (accounts : Accounts) (service : ServiceId) (amount : UInt64) : Accounts :=
  match accounts[service]? with
  | some account => accounts.insert service (account.credit amount)
  | none => accounts

/-- Time slot, service and the number of things to work on. -/
def accumulateArgument (timeslot : TimeSlot) (service : ServiceId) (count : Nat) : Bytes :=
  encodeNatural timeslot.toUInt64 ++ encodeNatural service.toUInt64 ++
    encodeNatural (UInt64.ofNat count)

namespace AccumulationInput

/-- Outcome before any code runs: transfers to the service are credited. -/
def initial (input : AccumulationInput) (state : ChainState) : Outcome :=
  let incoming := input.transfers.filter fun t => t.destination = input.service
  let accounts := state.accounts.credit input.service (totalAmount incoming)
  Outcome.initial input.service { state with accounts } input.timeslot input.entropy

end AccumulationInput

/-- The outcome that stands after the guest has stopped: the last checkpoint if it failed. An output
of 32 bytes replaces the yielded hash. -/
def AccumulationContext.commit (c : AccumulationContext) : InvocationResult → Outcome
  | .ok output =>
    match Hash.ofBytes? output with
    | some hash => { c.current with yielded := some hash }
    | none => c.current
  | .outOfGas | .panic => c.checkpoint

def HostContext.commit (result : InvocationResult) : HostContext → Outcome
  | .accumulation c => c.commit result
  | _ => {}

/-- Place in the code where accumulation starts. -/
def accumulateEntry : UInt32 := 5

/-- Runs the service's code on the operands. A service without code changes nothing. -/
def accumulate (config : Config) (state : ChainState) (input : AccumulationInput) :
    AccumulationOutcome :=
  let start := input.initial state
  match start.self?.bind Account.runnableCode? with
  | none => ⟨start, 0, .ok #[]⟩
  | some code =>
    let argument := accumulateArgument input.timeslot input.service input.operands.size
    let outcome := invokeImage config code accumulateEntry input.gas argument
      (.accumulation ⟨start, start, input.timeslot, input.entropy, input.operands⟩)
    ⟨outcome.context.commit outcome.result, outcome.gasUsed, outcome.result⟩

end ServiceVm
