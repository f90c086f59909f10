import ServiceVm.Machine
import ServiceVm.Service.State
import ServiceVm.Work.Package

/-!
# What a host call works on

There are four kinds of invocation, and each carries its own data besides the machine that runs.
-/
namespace ServiceVm

/-- A machine that a refining guest runs inside its own. -/
structure NestedMachine where
  program : Program
  memory : Memory := {}
  pc : UInt32
  meter : Meter := {}

structure AuthorizationContext where
  package : WorkPackage
  core : UInt16

structure RefinementContext where
  core : UInt16 := 0
  itemIndex : Nat := 0
  service : ServiceId := 0
  package : WorkPackage := {}
  authOutput : Bytes := #[]
  importSegments : Array (Array Bytes) := #[]
  extrinsics : Array (Array Bytes) := #[]
  /-- Number of segments exported by earlier items of the package. -/
  exportOffset : UInt64 := 0
  exports : Array Bytes := #[]
  machines : Std.TreeMap UInt64 NestedMachine := ∅
  accounts : Accounts := ∅
  lookupSlot : TimeSlot := 0

structure AccumulationContext where
  /-- The outcome if the guest halts. -/
  current : Outcome
  /-- The outcome if the guest fails. -/
  checkpoint : Outcome
  timeslot : TimeSlot := 0
  entropy : Hash := Hash.zero
  operands : Array Operand := #[]

structure TransferContext where
  service : ServiceId := 0
  accounts : Accounts := ∅
  timeslot : TimeSlot := 0
  entropy : Hash := Hash.zero
  transfers : Array Transfer := #[]

inductive InvocationKind where
  | authorization
  | refinement
  | accumulation
  | transfer
deriving DecidableEq, Repr

inductive HostContext where
  | authorization (c : AuthorizationContext)
  | refinement (c : RefinementContext)
  | accumulation (c : AccumulationContext)
  | transfer (c : TransferContext)

namespace HostContext

def kind : HostContext → InvocationKind
  | .authorization _ => .authorization
  | .refinement _ => .refinement
  | .accumulation _ => .accumulation
  | .transfer _ => .transfer

/-- The service on whose behalf the guest runs. -/
def service? : HostContext → Option ServiceId
  | .authorization _ => none
  | .refinement c => some c.service
  | .accumulation c => some c.current.service
  | .transfer c => some c.service

def accounts? : HostContext → Option Accounts
  | .authorization _ => none
  | .refinement c => some c.accounts
  | .accumulation c => some c.current.state.accounts
  | .transfer c => some c.accounts

def setAccounts (c : HostContext) (accounts : Accounts) : HostContext :=
  match c with
  | .authorization c => .authorization c
  | .refinement c => .refinement { c with accounts }
  | .accumulation c => .accumulation { c with current := c.current.setAccounts accounts }
  | .transfer c => .transfer { c with accounts }

end HostContext

end ServiceVm
