import ServiceVm.Service.Account

/-!
# Work packages

A package asks for a number of items to be refined, each by the code of some service, after an
authorizer has agreed. The outcome of refining an item reaches its service as an operand.
-/
namespace ServiceVm

/-- Outcome of running one piece of work. -/
inductive WorkResult where
  | ok (output : Bytes)
  | outOfGas
  | panic
  | badExports
  | oversize
  | badCode
  | codeOversize
deriving DecidableEq, Repr, Inhabited

structure ImportSpec where
  treeRoot : Hash
  index : UInt16
deriving DecidableEq, Repr

structure ExtrinsicSpec where
  hash : Hash
  length : UInt32
deriving DecidableEq, Repr

structure WorkItem where
  service : ServiceId := 0
  codeHash : Hash := Hash.zero
  payload : Bytes := #[]
  refineGasLimit : UInt64 := 0
  accumulateGasLimit : UInt64 := 0
  imports : Array ImportSpec := #[]
  extrinsics : Array ExtrinsicSpec := #[]
  exportCount : UInt16 := 0
deriving DecidableEq, Repr, Inhabited

/-- The chain state a package was built against. -/
structure WorkContext where
  anchor : Hash := Hash.zero
  stateRoot : Hash := Hash.zero
  beefyRoot : Hash := Hash.zero
  lookupAnchor : Hash := Hash.zero
  lookupAnchorSlot : TimeSlot := 0
  prerequisites : Array Hash := #[]
deriving DecidableEq, Repr, Inhabited

structure WorkPackage where
  authorization : Bytes := #[]
  authCodeHost : ServiceId := 0
  authCodeHash : Hash := Hash.zero
  authorizerConfig : Bytes := #[]
  context : WorkContext := {}
  items : Array WorkItem := #[]
deriving DecidableEq, Repr, Inhabited

/-- What an accumulation is told about one refined item. -/
structure Operand where
  packageHash : Hash := Hash.zero
  segmentRoot : Hash := Hash.zero
  authorizerHash : Hash := Hash.zero
  payloadHash : Hash := Hash.zero
  gasLimit : UInt64 := 0
  result : WorkResult := .ok #[]
  authOutput : Bytes := #[]
deriving DecidableEq, Repr, Inhabited

end ServiceVm
