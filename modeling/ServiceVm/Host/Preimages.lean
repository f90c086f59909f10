import ServiceVm.Host.Services

/-! # Requests for preimages -/
namespace ServiceVm.Host

def wide (slot : TimeSlot) : UInt64 := UInt64.ofNat (slot.toNat * UInt32.size)

/-- A history in two words; the lowest byte of the first is its length. -/
def packHistory? : History → Option (UInt64 × UInt64)
  | [] => some (0, 0)
  | [x] => some (1 + wide x, 0)
  | [x, y] => some (2 + wide x, y.toUInt64)
  | [x, y, w] => some (3 + wide x, y.toUInt64 + wide w)
  | _ => none

/-- The history of a request of the caller. -/
def requestHistory? (x : Outcome) (hash : Hash) (length : UInt64) : Option History := do
  let length ← toUInt32? length
  let account ← x.self?
  account.requests[(⟨hash, length⟩ : Request)]?

/-- Replies the history of a request of the caller in registers 7 and 8. -/
def query : HostAction Unit := do
  let s ← get
  let hash ← s.readHash s.r7
  let c ← s.accumulation
  let packed := (requestHistory? c.current hash s.r8).bind packHistory?
  let (first, second) := packed.getD (Refusal.none.code, 0)
  modify fun s => { s with registers := s.registers.put Reg.r8 second }
  reply first

/-- Requests a preimage, or requests it again after it was withdrawn. -/
def solicit : HostAction Unit := do
  let s ← get
  let hash ← s.readHash s.r7
  let length ← require (toUInt32? s.r8) .huh
  let c ← s.accumulation
  let account ← require c.current.self? .huh
  let request : Request := ⟨hash, length⟩
  match account.requests[request]? with
  | none =>
    if account.balance < account.thresholdAfterRequest length then
      throw .full
    updateSelf { account with requests := account.requests.insert request [] }
    reply replyOk
  | some [x, y] =>
    if account.balance < account.threshold then
      throw .full
    updateSelf { account with requests := account.requests.insert request [x, y, c.timeslot] }
    reply replyOk
  | some _ => throw .huh

/-- What becomes of a request that is forgotten. -/
inductive Forgotten where
  | removed
  | kept (slots : History)
deriving DecidableEq, Repr

/-- A request that was never answered, or withdrawn long ago, goes; an available preimage is
withdrawn at `t`. -/
def forgetSlots? (slots : History) (t cutoff : TimeSlot) : Option Forgotten :=
  match slots with
  | [] => some .removed
  | [x] => some (.kept [x, t])
  | [_, y] => if y < cutoff then some .removed else none
  | [_, y, w] => if y < cutoff then some (.kept [w, t]) else none
  | _ => none

/-- Withdraws a request of the caller; with the request goes its preimage. -/
def forget (config : Config) : HostAction Unit := do
  let s ← get
  let hash ← s.readHash s.r7
  let c ← s.accumulation
  let account ← require c.current.self? .huh
  let length ← require (toUInt32? s.r8) .huh
  let request : Request := ⟨hash, length⟩
  let slots ← require account.requests[request]? .huh
  let forgotten ← require (forgetSlots? slots c.timeslot (cutoffSlot config c.timeslot)) .huh
  updateSelf <| match forgotten with
    | .removed => { account with
        requests := account.requests.erase request
        preimages := account.preimages.erase hash }
    | .kept slots => { account with requests := account.requests.insert request slots }
  reply replyOk

/-- Whether the account waits for the preimage. -/
def awaits (account : Account) (preimage : Bytes) : Bool :=
  match toUInt32? (UInt64.ofNat preimage.size) with
  | some length => account.requests[(⟨Blake2b.digest preimage, length⟩ : Request)]? == some []
  | none => false

/-- Provides a preimage that a service waits for. -/
def provide : HostAction Unit := do
  let s ← get
  let preimage ← s.readBytes s.r8 s.r9
  let c ← s.accumulation
  let x := c.current
  let service ← require (resolveService? s.r7 x.service) .who
  let account ← require x.state.accounts[service]? .who
  if !awaits account preimage then
    throw .huh
  let provision : Provision := ⟨service, preimage⟩
  -- Inserting tells whether the provision is new, and changes nothing if it is not.
  updateCurrent fun x => { x with provisions := x.provisions.insert provision }
  if x.provisions.contains provision then
    throw .huh
  reply replyOk

end ServiceVm.Host
