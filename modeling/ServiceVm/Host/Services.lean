import ServiceVm.Host.Reply

/-! # Creating, changing and removing services -/
namespace ServiceVm.Host

/-- Makes the current outcome the one that stands if the guest fails. -/
def checkpoint : HostAction Unit := do
  let s ← get
  let c ← s.accumulation
  modify fun s => { s with context := .accumulation { c with checkpoint := c.current } }
  reply s.gas

/-- An account that holds nothing but a request for its own code, and the deposit for that. -/
def freshAccount (codeHash : Hash) (codeLength : UInt32) (minItemGas minMemoGas gratis : UInt64)
    (created : TimeSlot) (parent : ServiceId) : Account :=
  let account : Account := {
    codeHash
    minItemGas
    minMemoGas
    gratis
    created
    parent
    requests := (∅ : Std.TreeMap Request History).insert ⟨codeHash, codeLength⟩ [] }
  { account with balance := account.threshold }

/-- The account after paying `amount`, if its deposit stays covered. -/
def payFrom? (account : Account) (amount : UInt64) : Option Account :=
  match deduct? account.balance amount with
  | some balance =>
    if account.threshold ≤ balance then some { account with balance } else none
  | none => none

/-- Creates a service paid for by the caller and replies its id. -/
def new : HostAction Unit := do
  let s ← get
  let codeHash ← s.readHash s.r7
  let codeLength ← require (toUInt32? s.r8) .badMemory
  let c ← s.accumulation
  let x := c.current
  if s.r11 ≠ 0 ∧ x.service ≠ x.state.manager then
    throw .huh
  let account := freshAccount codeHash codeLength s.r9 s.r10 s.r11 c.timeslot x.service
  let caller ← require x.self? .who
  let caller ← require (payFrom? caller account.balance) .cash
  updateSelf caller
  let id := x.nextFreeId
  updateCurrent fun x =>
    let accounts : Accounts := x.state.accounts.insert id account
    { x.setAccounts accounts with nextFreeId := accounts.nextId id }
  reply id.toUInt64

/-- Changes the code of the caller. -/
def upgrade : HostAction Unit := do
  let s ← get
  let codeHash ← s.readHash s.r7
  let c ← s.accumulation
  let account ← require c.current.self? .who
  updateSelf { account with codeHash, minItemGas := s.r8, minMemoGas := s.r9 }
  reply replyOk

/-- Defers a transfer to another service, and takes its amount from the caller. -/
def transfer : HostAction Unit := do
  let s ← get
  let memo ← s.readBytes s.r10 (UInt64.ofNat memoSize)
  let c ← s.accumulation
  let x := c.current
  let destination ← require (toUInt32? s.r7) .who
  let receiver ← require x.state.accounts[destination]? .who
  if s.r9 < receiver.minMemoGas then
    throw .low
  let sender ← require x.self? .who
  let sender ← require (payFrom? sender s.r8) .cash
  updateSelf sender
  let deferred : Transfer := {
    source := x.service
    destination
    amount := s.r8
    memo
    gasLimit := s.r9 }
  updateCurrent fun x => { x with transfers := x.transfers.push deferred }
  reply replyOk

/-- Whether a request was withdrawn before `cutoff`. -/
def isExpired (slots : History) (cutoff : TimeSlot) : Bool :=
  match slots with
  | [_, y] => y < cutoff
  | _ => false

/-- The slot before which a withdrawn preimage may be dropped. -/
def cutoffSlot (config : Config) (timeslot : TimeSlot) : TimeSlot :=
  UInt32.ofNat (timeslot.toNat - config.params.expungePeriod.toNat)

/-- Removes a service that handed itself over to the caller and holds one expired request; its
balance goes to the caller. -/
def eject (config : Config) : HostAction Unit := do
  let s ← get
  let hash ← s.readHash s.r8
  let c ← s.accumulation
  let x := c.current
  let target ← require (toUInt32? s.r7) .who
  if target = x.service then
    throw .who
  let account ← require x.state.accounts[target]? .who
  if account.codeHash.toBytes ≠ Bytes.ofWord x.service.toUInt64 32 then
    throw .who
  let length ← require (toUInt32? (UInt64.ofNat (account.octets - requestOctets))) .huh
  let slots ← require account.requests[(⟨hash, length⟩ : Request)]? .huh
  if account.items ≠ 2 ∨ !isExpired slots (cutoffSlot config c.timeslot) then
    throw .huh
  updateCurrent fun x => x.setAccounts (x.state.accounts.erase target)
  updateCurrent fun x =>
    match x.self? with
    | some caller => x.setSelf (caller.credit account.balance)
    | none => x
  reply replyOk

/-- Leaves a hash as the result of the accumulation. -/
def yield : HostAction Unit := do
  let s ← get
  let hash ← s.readHash s.r7
  let _ ← s.accumulation
  updateCurrent fun x => { x with yielded := some hash }
  reply replyOk

end ServiceVm.Host
