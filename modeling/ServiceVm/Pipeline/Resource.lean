import ServiceVm.Opcode

/-!
# Resources of operations

Block billing simulates a pipeline. A `CostTable` says for every operation how long it executes, how
much of a cycle its decoding takes, and which execution units it occupies meanwhile.
-/
namespace ServiceVm

/-- Execution units by kind. -/
structure Units where
  alu : Nat := 0
  load : Nat := 0
  store : Nat := 0
  mul : Nat := 0
  div : Nat := 0
deriving DecidableEq, Repr

namespace Units

/-- The units of the machine. -/
def available : Units := ⟨4, 4, 4, 1, 1⟩

def fitsIn (u free : Units) : Bool :=
  u.alu ≤ free.alu && u.load ≤ free.load && u.store ≤ free.store && u.mul ≤ free.mul &&
    u.div ≤ free.div

def capped (u limit : Units) : Units :=
  ⟨min u.alu limit.alu, min u.load limit.load, min u.store limit.store, min u.mul limit.mul,
    min u.div limit.div⟩

/-- What is left of `free` once `u` is taken. -/
def take (free u : Units) : Units :=
  ⟨free.alu - u.alu, free.load - u.load, free.store - u.store, free.mul - u.mul, free.div - u.div⟩

def release (free u : Units) : Units :=
  ⟨free.alu + u.alu, free.load + u.load, free.store + u.store, free.mul + u.mul, free.div + u.div⟩

end Units

structure Resource where
  cycles : Nat
  decodeSlots : Nat
  units : Units
deriving DecidableEq, Repr

abbrev CostTable := Opcode → Resource

/-- One cycle, one decode slot and one arithmetic unit; `trap` and `fallthrough` take two cycles and
two slots. -/
def CostTable.baseline : CostTable
  | .trap | .fallthrough => ⟨2, 2, ⟨1, 0, 0, 0, 0⟩⟩
  | _ => ⟨1, 1, ⟨1, 0, 0, 0, 0⟩⟩

end ServiceVm
