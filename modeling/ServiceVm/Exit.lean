/-! # Why a machine stopped -/
namespace ServiceVm

/-- Result of a step, a run or a host call. -/
inductive Exit where
  | continue
  | halt
  | panic
  | outOfGas
  /-- Start of the first page that could not be accessed. -/
  | pageFault (address : UInt32)
  | hostCall (id : UInt32)
deriving DecidableEq, Repr, Inhabited

namespace Exit

/-- Whether the machine cannot go on by itself. -/
def isTerminal : Exit → Bool
  | .continue | .hostCall _ => false
  | _ => true

/-- Status number a nested machine reports, with the value that accompanies it. -/
def status : Exit → UInt64 × Option UInt64
  | .continue | .halt => (0, none)
  | .panic => (1, none)
  | .pageFault address => (2, some address.toUInt64)
  | .hostCall id => (3, some id.toUInt64)
  | .outOfGas => (4, none)

end Exit

end ServiceVm
