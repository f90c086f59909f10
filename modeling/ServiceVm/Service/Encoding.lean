import ServiceVm.Codec
import ServiceVm.Service.State

/-! # Records about services handed to guests -/
namespace ServiceVm

open Codec

/-- The memo is cut or zero-padded to its fixed size. -/
def Transfer.encode (t : Transfer) : Bytes :=
  encodeFixed t.source.toUInt64 4 ++ encodeFixed t.destination.toUInt64 4 ++
    encodeFixed t.amount 8 ++ t.memo.resize memoSize ++ encodeFixed t.gasLimit 8

/-- Public facts about an account, in 96 bytes. -/
def Account.encodeInfo (a : Account) : Bytes :=
  a.codeHash.toBytes ++ encodeFixed a.balance 8 ++ encodeFixed a.threshold 8 ++
    encodeFixed a.minItemGas 8 ++ encodeFixed a.minMemoGas 8 ++
    encodeFixed (UInt64.ofNat a.octets) 8 ++ encodeFixed (UInt64.ofNat a.items) 4 ++
    encodeFixed a.gratis 8 ++ encodeFixed a.created.toUInt64 4 ++
    encodeFixed a.lastAccumulation.toUInt64 4 ++ encodeFixed a.parent.toUInt64 4

end ServiceVm
