import ServiceVm.Codec
import ServiceVm.Protocol

/-! # The parameter record handed to guests -/
namespace ServiceVm.Params

open Codec

/-- Every parameter with the number of bytes it takes in the record, in record order. -/
def fields (p : Params) : List (UInt64 × Nat) := [
  (UInt64.ofNat itemDeposit, 8),
  (UInt64.ofNat byteDeposit, 8),
  (UInt64.ofNat baseDeposit, 8),
  (p.cores.toUInt64, 2),
  (p.expungePeriod.toUInt64, 4),
  (p.epochDuration.toUInt64, 4),
  (10000000, 8),
  (authorizationGas, 8),
  (p.maxRefineGas, 8),
  (p.maxBlockGas, 8),
  (8, 2),
  (16, 2),
  (8, 2),
  (p.ticketsPerExtrinsic.toUInt64, 2),
  (p.maxLookupAnchorage.toUInt64, 4),
  (p.ticketsPerValidator.toUInt64, 2),
  (8, 2),
  (p.slotDuration.toUInt64, 2),
  (UInt64.ofNat authQueueSize, 2),
  (p.rotationPeriod.toUInt64, 2),
  (128, 2),
  (5, 2),
  (p.validators.toUInt64, 2),
  (UInt64.ofNat maxAuthorizerCode, 4),
  (13791360, 4),
  (UInt64.ofNat maxServiceCode, 4),
  (p.pieceSize.toUInt64, 4),
  (3072, 4),
  (p.piecesPerSegment.toUInt64, 4),
  (49152, 4),
  (UInt64.ofNat memoSize, 4),
  (UInt64.ofNat maxPackageExports, 4),
  (p.contestDuration.toUInt64, 4)]

def encode (p : Params) : Bytes :=
  p.fields.foldl (fun out field => out ++ encodeFixed field.1 field.2) #[]

end ServiceVm.Params
