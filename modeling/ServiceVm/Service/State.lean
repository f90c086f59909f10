import Std.Data.TreeSet
import ServiceVm.Hash.Blake2b
import ServiceVm.Service.Account

/-!
# Chain state seen by an accumulation

`ChainState` is what an accumulation may change; `Outcome` is that state together with what the
accumulation leaves for later: transfers, a yielded hash and provided preimages.
-/
namespace ServiceVm

structure Transfer where
  source : ServiceId := 0
  destination : ServiceId := 0
  amount : UInt64 := 0
  memo : Bytes := #[]
  gasLimit : UInt64 := 0
deriving DecidableEq, Repr, Inhabited

abbrev ValidatorKey := Vector UInt8 validatorKeySize

def ValidatorKey.ofBytes (data : Bytes) : ValidatorKey :=
  ⟨data.resize validatorKeySize, Bytes.size_resize data validatorKeySize⟩

structure ChainState where
  accounts : Accounts := ∅
  stagingSet : Array ValidatorKey := #[]
  authQueue : Array (Array Hash) := #[]
  manager : ServiceId := 0
  assigners : Array ServiceId := #[]
  delegator : ServiceId := 0
  alwaysAccumulate : Std.TreeMap ServiceId UInt64 := ∅
deriving Inhabited

/-- A preimage provided to a service. -/
structure Provision where
  service : ServiceId
  preimage : Bytes
deriving DecidableEq, Repr

instance : Ord Provision where
  compare := compareLex (compareOn Provision.service) (compareOn Provision.preimage)

/-- State and side effects of the accumulation of `service`. -/
structure Outcome where
  service : ServiceId := 0
  state : ChainState := {}
  nextFreeId : ServiceId := 0
  transfers : Array Transfer := #[]
  yielded : Option Hash := none
  provisions : Std.TreeSet Provision := ∅
deriving Inhabited

/-- First id to try for a new service created by `service`. -/
def initialServiceId (service : ServiceId) (entropy : Hash) (timeslot : TimeSlot)
    (accounts : Accounts) : ServiceId :=
  let seed := Blake2b.digest
    (Bytes.ofWord service.toUInt64 4 ++ entropy.toBytes ++ Bytes.ofWord timeslot.toUInt64 4)
  let start := LittleEndian.decode (seed.toBytes.extract 0 4).toList
  accounts.freeId (UInt32.ofNat (firstPublicId + start % publicIds))

namespace Outcome

def initial (service : ServiceId) (state : ChainState) (timeslot : TimeSlot) (entropy : Hash) :
    Outcome where
  service
  state
  nextFreeId := initialServiceId service entropy timeslot state.accounts

def self? (o : Outcome) : Option Account := o.state.accounts[o.service]?

def setAccounts (o : Outcome) (accounts : Accounts) : Outcome :=
  { o with state := { o.state with accounts } }

def setSelf (o : Outcome) (account : Account) : Outcome :=
  o.setAccounts (o.state.accounts.insert o.service account)

theorem self?_setSelf (o : Outcome) (account : Account) :
    (o.setSelf account).self? = some account := by
  simp [setSelf, setAccounts, self?]

end Outcome

end ServiceVm
