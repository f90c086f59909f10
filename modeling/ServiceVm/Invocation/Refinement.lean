import ServiceVm.Invocation.Argument

/-! # Refining a work item -/
namespace ServiceVm

open Codec

structure RefinementOutcome where
  result : WorkResult
  gasUsed : UInt64
  exports : Array Bytes

/-- A failed refinement exports zeros in place of the segments it promised. -/
def RefinementOutcome.failed (result : WorkResult) (gasUsed : UInt64) (exportCount : UInt16) :
    RefinementOutcome where
  result
  gasUsed
  exports := Array.replicate exportCount.toNat (Bytes.zeros segmentSize)

/-- The data of the invocation that refines `item`: nothing exported yet and no nested machines. -/
def RefinementContext.start (c : RefinementContext) (item : WorkItem) : RefinementContext :=
  { c with
    service := item.service
    lookupSlot := c.package.context.lookupAnchorSlot
    exports := #[]
    machines := ∅ }

def RefinementContext.itemCode? (c : RefinementContext) (item : WorkItem) : Option Bytes := do
  let account ← c.accounts[item.service]?
  let preimage ← account.lookupAt? c.lookupSlot item.codeHash
  serviceCode? preimage

def RefinementContext.argument (c : RefinementContext) (item : WorkItem) : Bytes :=
  encodeNatural c.core.toUInt64 ++ encodeNatural (UInt64.ofNat c.itemIndex) ++
    encodeNatural item.service.toUInt64 ++ encodeVariable item.payload ++ c.package.hash.toBytes

def HostContext.exports : HostContext → Array Bytes
  | .refinement c => c.exports
  | _ => #[]

/-- Runs the code of the item's service on the item the context points to. -/
def refine (config : Config) (c : RefinementContext) : RefinementOutcome :=
  match c.package.items[c.itemIndex]? with
  | none => .failed .badCode 0 0
  | some item =>
    let c := c.start item
    match c.itemCode? item with
    | none => .failed .badCode 0 item.exportCount
    | some code =>
      if maxServiceCode < code.size then .failed .codeOversize 0 item.exportCount
      else
        let outcome := invokeImage config code 0 item.refineGasLimit (c.argument item)
          (.refinement c)
        let exports := outcome.context.exports
        match outcome.result with
        | .ok output =>
          if exports.size = item.exportCount.toNat then ⟨.ok output, outcome.gasUsed, exports⟩
          else .failed .badExports outcome.gasUsed item.exportCount
        | result => .failed result.toWorkResult outcome.gasUsed item.exportCount

end ServiceVm
