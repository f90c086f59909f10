import ServiceVm.Invocation.Accumulation

/-! # Receiving transfers -/
namespace ServiceVm

/-- Place in the code where the receipt of transfers starts. -/
def transferEntry : UInt32 := 10

def totalGas (transfers : Array Transfer) : UInt64 :=
  transfers.foldl (fun sum t => saturatingAdd sum t.gasLimit) 0

/-- Credits transfers to a service and runs its code on them. Answers the accounts and the gas
spent; what the code did to them stands however it stopped. -/
def receiveTransfers (config : Config) (accounts : Accounts) (service : ServiceId)
    (timeslot : TimeSlot) (entropy : Hash) (transfers : Array Transfer) : Accounts × UInt64 :=
  match (accounts[service]?).bind Account.runnableCode? with
  | none => (accounts, 0)
  | some code =>
    if transfers.isEmpty then (accounts, 0)
    else
      let accounts := accounts.credit service (totalAmount transfers)
      let argument := accumulateArgument timeslot service transfers.size
      let outcome := invokeImage config code transferEntry (totalGas transfers) argument
        (.transfer ⟨service, accounts, timeslot, entropy, transfers⟩)
      (outcome.context.accounts?.getD ∅, outcome.gasUsed)

end ServiceVm
