import ServiceVm.Codec
import ServiceVm.Hash.Blake2b
import ServiceVm.Work.Package

/-! # Canonical encodings of work packages and their parts -/
namespace ServiceVm

open Codec

/-- A tag byte; the output follows the tag of success. -/
def WorkResult.encode : WorkResult → Bytes
  | .ok output => #[0] ++ encodeVariable output
  | .outOfGas => #[1]
  | .panic => #[2]
  | .badExports => #[3]
  | .oversize => #[4]
  | .badCode => #[5]
  | .codeOversize => #[6]

def ImportSpec.encode (i : ImportSpec) : Bytes :=
  i.treeRoot.toBytes ++ encodeFixed i.index.toUInt64 2

def ExtrinsicSpec.encode (x : ExtrinsicSpec) : Bytes :=
  x.hash.toBytes ++ encodeFixed x.length.toUInt64 4

def WorkContext.encode (c : WorkContext) : Bytes :=
  c.anchor.toBytes ++ c.stateRoot.toBytes ++ c.beefyRoot.toBytes ++ c.lookupAnchor.toBytes ++
    encodeFixed c.lookupAnchorSlot.toUInt64 4 ++
    encodeSequence (c.prerequisites.map Hash.toBytes)

def WorkItem.encode (w : WorkItem) : Bytes :=
  encodeFixed w.service.toUInt64 4 ++ w.codeHash.toBytes ++ encodeVariable w.payload ++
    encodeFixed w.refineGasLimit 8 ++ encodeFixed w.accumulateGasLimit 8 ++
    encodeSequence (w.imports.map ImportSpec.encode) ++
    encodeSequence (w.extrinsics.map ExtrinsicSpec.encode) ++
    encodeFixed w.exportCount.toUInt64 2

/-- The item with counts and sizes in place of its lists and payload. -/
def WorkItem.encodeSummary (w : WorkItem) : Bytes :=
  encodeFixed w.service.toUInt64 4 ++ w.codeHash.toBytes ++
    encodeFixed w.refineGasLimit 8 ++ encodeFixed w.accumulateGasLimit 8 ++
    encodeFixed w.exportCount.toUInt64 2 ++
    encodeFixed (UInt64.ofNat w.imports.size) 2 ++
    encodeFixed (UInt64.ofNat w.extrinsics.size) 2 ++
    encodeFixed (UInt64.ofNat w.payload.size) 4

def WorkPackage.encode (p : WorkPackage) : Bytes :=
  encodeVariable p.authorization ++ encodeFixed p.authCodeHost.toUInt64 4 ++
    p.authCodeHash.toBytes ++ encodeVariable p.authorizerConfig ++ p.context.encode ++
    encodeSequence (p.items.map WorkItem.encode)

def WorkPackage.hash (p : WorkPackage) : Hash := Blake2b.digest p.encode

def Operand.encode (o : Operand) : Bytes :=
  o.packageHash.toBytes ++ o.segmentRoot.toBytes ++ o.authorizerHash.toBytes ++
    encodeVariable o.authOutput ++ o.payloadHash.toBytes ++ encodeNatural o.gasLimit ++
    o.result.encode

end ServiceVm
