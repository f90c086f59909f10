/-!
# Protocol parameters

Sizes, deposits and limits that are the same on every chain are constants; what differs from chain
to chain is a field of `Params`.
-/
namespace ServiceVm

def pageSize : Nat := 4096
def zoneSize : Nat := 65536
/-- Size of the zone that holds the argument of an invocation. -/
def inputSize : Nat := 16777216
def addressSpace : Nat := 4294967296
def pageCount : Nat := addressSpace / pageSize
/-- Pages below this index belong to the first zone and are never mapped. -/
def firstMutablePage : Nat := 16

/-- Jumping here halts the machine. -/
def haltAddress : Nat := addressSpace - zoneSize
/-- First address past the stack. -/
def stackEnd : Nat := addressSpace - 2 * zoneSize - inputSize
def argumentStart : Nat := addressSpace - zoneSize - inputSize

def alignTo (unit size : Nat) : Nat := (size + unit - 1) / unit * unit
def alignToPage (size : Nat) : Nat := alignTo pageSize size
def alignToZone (size : Nat) : Nat := alignTo zoneSize size

def authorizationGas : UInt64 := 50000000
def maxAuthorizerCode : Nat := 64000
def maxServiceCode : Nat := 4000000
def segmentSize : Nat := 4104
def maxPackageExports : Nat := 3072
/-- Service ids below this one are never handed out. -/
def firstPublicId : Nat := 65536
def validatorKeySize : Nat := 336
def memoSize : Nat := 128
def authQueueSize : Nat := 80

def itemDeposit : Nat := 10
def byteDeposit : Nat := 1
def baseDeposit : Nat := 100
/-- Octets a preimage request occupies besides the requested length. -/
def requestOctets : Nat := 81
/-- Octets a storage entry occupies besides its key and value. -/
def storageOctets : Nat := 34

/-- Gas charged by a host call before it runs. -/
def hostCallGas : UInt64 := 10

def maxWord : Nat := 18446744073709551615

/-- Addition that stops at the largest word. -/
def saturatingAdd (a b : UInt64) : UInt64 := UInt64.ofNat (min (a.toNat + b.toNat) maxWord)

/-- What is left after taking `amount` away, if there is enough. -/
def deduct? (total amount : UInt64) : Option UInt64 :=
  if amount ≤ total then some (total - amount) else none

theorem deduct?_eq_some_iff (total amount rest : UInt64) :
    deduct? total amount = some rest ↔ rest.toNat + amount.toNat = total.toNat := by
  rw [deduct?]
  split
  · rename_i enough
    have difference := UInt64.toNat_sub_of_le total amount enough
    have bound := UInt64.le_iff_toNat_le.1 enough
    rw [Option.some.injEq, ← UInt64.toNat_inj, difference]
    omega
  · rename_i short
    have bound : ¬ amount.toNat ≤ total.toNat := fun h => short (UInt64.le_iff_toNat_le.2 h)
    constructor
    · intro h
      contradiction
    · intro h
      omega

/-- A word that fits 32 bits. -/
def toUInt32? (value : UInt64) : Option UInt32 :=
  if value.toNat < UInt32.size then some value.toUInt32 else none

structure Params where
  cores : UInt32 := 341
  expungePeriod : UInt32 := 19200
  epochDuration : UInt32 := 600
  maxRefineGas : UInt64 := 5000000000
  maxBlockGas : UInt64 := 3500000000
  ticketsPerExtrinsic : UInt32 := 16
  maxLookupAnchorage : UInt32 := 14400
  ticketsPerValidator : UInt32 := 2
  slotDuration : UInt32 := 6
  rotationPeriod : UInt32 := 10
  validators : UInt32 := 1023
  pieceSize : UInt32 := 684
  piecesPerSegment : UInt32 := 6
  contestDuration : UInt32 := 500
deriving DecidableEq, Repr

namespace Params

/-- A two-core chain with six validators. -/
def tiny : Params where
  cores := 2
  epochDuration := 12
  validators := 6
  contestDuration := 10
  rotationPeriod := 4
  ticketsPerExtrinsic := 3
  ticketsPerValidator := 3
  pieceSize := 4
  piecesPerSegment := 1026

end Params

/-- How instructions are billed: one unit each, or whole basic blocks up front. -/
inductive GasMode where
  | perInstruction
  | perBlock
deriving DecidableEq, Repr

structure Config where
  gasMode : GasMode := .perInstruction
  params : Params := {}
deriving DecidableEq, Repr

end ServiceVm
