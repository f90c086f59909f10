import ServiceVm.Host.Reply
import ServiceVm.Service.Encoding

/-! # Reading and writing what accounts hold -/
namespace ServiceVm.Host

/-- Replies the gas left. -/
def gas : HostAction Unit := do
  let s ← get
  reply s.gas

/-- The preimage of a hash held by an account. -/
def lookup : HostAction Unit := do
  let s ← get
  let account ← require (s.context.resolve? s.r7) .none
  let hash ← s.readHash s.r8
  writeSlice? account.preimages[hash]? s.r9 s.r10 s.r11

/-- The value of a key in an account's storage. -/
def read : HostAction Unit := do
  let s ← get
  let key ← s.readBytes s.r8 s.r9
  let account ← require (s.context.resolve? s.r7) .none
  writeSlice? account.storage[key]? s.r10 s.r11 s.r12

/-- The value given by a pair of registers; without bytes there is none. -/
def writtenValue (s : HostState) (start len : UInt64) : Except Refusal (Option Bytes) :=
  if len = 0 then .ok none
  else
    match s.readBytes start len with
    | .ok value => .ok (some value)
    | .error refusal => .error refusal

/-- Sets or removes a key of the caller's storage and replies the size of its old value. -/
def write : HostAction Unit := do
  let s ← get
  let key ← s.readBytes s.r7 s.r8
  let value ← writtenValue s s.r9 s.r10
  let service ← require s.context.service? .who
  let accounts ← require s.context.accounts? .who
  let account ← require accounts[service]? .who
  if account.balance < account.thresholdAfterWrite key value then
    throw .full
  let storage := match value with
    | some value => account.storage.insert key value
    | none => account.storage.erase key
  let answer := match account.storage[key]? with
    | some previous => UInt64.ofNat previous.size
    | none => Refusal.none.code
  let accounts := accounts.insert service { account with storage }
  modify fun s => { s with context := s.context.setAccounts accounts }
  reply answer

/-- Public facts about an account. -/
def info : HostAction Unit := do
  let s ← get
  writeSlice? ((s.context.resolve? s.r7).map Account.encodeInfo) s.r8 s.r9 s.r10

/-- The preimage of a hash, if it was available at the lookup slot of the refinement. -/
def historicalLookup : HostAction Unit := do
  let s ← get
  let hash ← s.readHash s.r8
  let c ← s.refinement .none
  let account ← require (c.accounts.resolve? s.r7 c.service) .none
  writeSlice? (account.lookupAt? c.lookupSlot hash) s.r9 s.r10 s.r11

/-- Messages of guests are dropped. -/
def log : HostAction Unit := pure ()

end ServiceVm.Host
