import Std.Data.TreeMap
import ServiceVm.Bytes
import ServiceVm.Protocol

/-!
# Service accounts

An account holds a balance, a key-value store, preimages, and the requests that were made for
preimages. The balance has to cover a deposit that grows with what the account stores.
-/
namespace ServiceVm

abbrev ServiceId := UInt32
abbrev TimeSlot := UInt32

/-- A request for the preimage of `hash`, which is `length` bytes long. -/
structure Request where
  hash : Hash
  length : UInt32
deriving DecidableEq, Repr

instance : Ord Request where
  compare := compareLex (compareOn Request.hash) (compareOn Request.length)

/-- Times at which a requested preimage became available, was forgotten, and became available
again. -/
abbrev History := List TimeSlot

/-- Whether the preimage was available at `t`. -/
def History.availableAt (slots : History) (t : TimeSlot) : Bool :=
  match slots with
  | [x] => x ≤ t
  | [x, y] => x ≤ t && t < y
  | [x, y, z] => (x ≤ t && t < y) || z ≤ t
  | _ => false

structure Account where
  codeHash : Hash := Hash.zero
  balance : UInt64 := 0
  minItemGas : UInt64 := 0
  minMemoGas : UInt64 := 0
  /-- Part of the deposit that the account need not hold. -/
  gratis : UInt64 := 0
  created : TimeSlot := 0
  lastAccumulation : TimeSlot := 0
  parent : ServiceId := 0
  storage : Std.TreeMap Bytes Bytes := ∅
  preimages : Std.TreeMap Hash Bytes := ∅
  requests : Std.TreeMap Request History := ∅
deriving Inhabited

abbrev Accounts := Std.TreeMap ServiceId Account

namespace Account

/-- Deposit required for a number of items and octets, `gratis` taken off. -/
def thresholdFor (items octets : Nat) (gratis : UInt64) : UInt64 :=
  let deposit := baseDeposit + itemDeposit * items + byteDeposit * octets
  UInt64.ofNat (min deposit maxWord - gratis.toNat)

def items (account : Account) : Nat := 2 * account.requests.size + account.storage.size

def storedOctets (key value : Bytes) : Nat := storageOctets + key.size + value.size

def requestedOctets (request : Request) : Nat := requestOctets + request.length.toNat

def octets (account : Account) : Nat :=
  account.requests.foldl (fun sum request _ => sum + requestedOctets request) 0 +
    account.storage.foldl (fun sum key value => sum + storedOctets key value) 0

def threshold (account : Account) : UInt64 :=
  thresholdFor account.items account.octets account.gratis

/-- Threshold once `key` holds `value`, or nothing. -/
def thresholdAfterWrite (account : Account) (key : Bytes) (value : Option Bytes) : UInt64 :=
  let (items, octets) := match account.storage[key]? with
    | some previous => (account.items - 1, account.octets - storedOctets key previous)
    | none => (account.items, account.octets)
  let (items, octets) := match value with
    | some value => (items + 1, octets + storedOctets key value)
    | none => (items, octets)
  thresholdFor items octets account.gratis

/-- Threshold once one more preimage of `length` bytes is requested. -/
def thresholdAfterRequest (account : Account) (length : UInt32) : UInt64 :=
  thresholdFor (account.items + 2) (account.octets + (requestOctets + length.toNat)) account.gratis

def codePreimage? (account : Account) : Option Bytes := account.preimages[account.codeHash]?

/-- The preimage of `hash` if its request marks it available at `t`. -/
def lookupAt? (account : Account) (t : TimeSlot) (hash : Hash) : Option Bytes := do
  let preimage ← account.preimages[hash]?
  let length ← toUInt32? (UInt64.ofNat preimage.size)
  let slots ← account.requests[(⟨hash, length⟩ : Request)]?
  if slots.availableAt t then some preimage else none

def credit (account : Account) (amount : UInt64) : Account :=
  { account with balance := saturatingAdd account.balance amount }

end Account

/-- Service ids are handed out cyclically from this many public ids. -/
def publicIds : Nat := addressSpace - firstPublicId - 256

/-- The public id `n` places after `id`. -/
def ServiceId.advance (id : ServiceId) (n : Nat) : ServiceId :=
  UInt32.ofNat (firstPublicId + (id.toNat - firstPublicId + n) % publicIds)

namespace Accounts

def freeIdWithin (accounts : Accounts) : (tries : Nat) → ServiceId → ServiceId
  | 0, id => id
  | tries + 1, id =>
    if accounts.contains id then freeIdWithin accounts tries (ServiceId.advance id 1) else id

/-- The first unused id at or after `id`. Among one more candidates than there are accounts, one is
unused. -/
def freeId (accounts : Accounts) (id : ServiceId) : ServiceId :=
  freeIdWithin accounts accounts.size id

/-- Where the search for the next new service starts once `id` is taken. -/
def nextId (accounts : Accounts) (id : ServiceId) : ServiceId :=
  accounts.freeId (ServiceId.advance id 42)

end Accounts

end ServiceVm
