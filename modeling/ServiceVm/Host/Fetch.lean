import ServiceVm.Host.Reply
import ServiceVm.Protocol.Encoding
import ServiceVm.Service.Encoding
import ServiceVm.Work.Encoding

/-!
# Fetching data of the invocation

A guest selects a value by a number; which numbers have a meaning depends on the kind of
invocation.
-/
namespace ServiceVm

open Codec

/-- Parts of a package. `index` selects an item where an item is asked for. -/
def WorkPackage.fetch? (p : WorkPackage) (selector index : Nat) : Option Bytes :=
  match selector with
  | 7 => some p.encode
  | 8 => some (p.authCodeHash.toBytes ++ encodeVariable p.authorizerConfig)
  | 9 => some p.authorization
  | 10 => some p.context.encode
  | 11 => some (encodeSequence (p.items.map WorkItem.encodeSummary))
  | 12 => p.items[index]?.map WorkItem.encodeSummary
  | 13 => p.items[index]?.map WorkItem.payload
  | _ => none

/-- Entry `j` of list `i`. -/
def entry? (lists : Array (Array Bytes)) (i j : Nat) : Option Bytes :=
  match lists[i]? with
  | some list => list[j]?
  | none => none

def RefinementContext.fetch? (c : RefinementContext) (selector i j : Nat) : Option Bytes :=
  match selector with
  | 2 => some c.authOutput
  | 3 => entry? c.extrinsics i j
  | 4 => entry? c.extrinsics c.itemIndex i
  | 5 => entry? c.importSegments i j
  | 6 => entry? c.importSegments c.itemIndex i
  | _ => c.package.fetch? selector i

def AccumulationContext.fetch? (c : AccumulationContext) (selector i : Nat) : Option Bytes :=
  match selector with
  | 1 => some c.entropy.toBytes
  | 14 => some (encodeSequence (c.operands.map Operand.encode))
  | 15 => c.operands[i]?.map Operand.encode
  | _ => none

def TransferContext.fetch? (c : TransferContext) (selector i : Nat) : Option Bytes :=
  match selector with
  | 1 => some c.entropy.toBytes
  | 16 => some (encodeSequence (c.transfers.map Transfer.encode))
  | 17 => c.transfers[i]?.map Transfer.encode
  | _ => none

def HostContext.fetch? (c : HostContext) (params : Params) (selector i j : Nat) : Option Bytes :=
  if selector = 0 then some params.encode
  else
    match c with
    | .authorization c => c.package.fetch? selector i
    | .refinement c => c.fetch? selector i j
    | .accumulation c => c.fetch? selector i
    | .transfer c => c.fetch? selector i

namespace Host

def fetch (config : Config) : HostAction Unit := do
  let s ← get
  let value := s.context.fetch? config.params s.r10.toNat s.r11.toNat s.r12.toNat
  writeSlice? value s.r7 s.r8 s.r9

end Host

end ServiceVm
