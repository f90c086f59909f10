import ServiceVm.Pipeline.BlockCost

/-!
# Metered machines

A machine pays for every instruction, or for every basic block before its first instruction. It
runs until it stops for a reason other than `Exit.continue`.
-/
namespace ServiceVm

/-- Billing by blocks, carried over when a machine is resumed. -/
structure Meter where
  /-- Costs of blocks met so far, by the place they start. -/
  costs : Std.TreeMap UInt32 UInt64 := ∅
  /-- Whether the block that holds the program counter has been paid for. -/
  paid : Bool := false
deriving Inhabited

structure Machine where
  program : Program
  cpu : Cpu
  gas : UInt64
  meter : Meter := {}

/-- Gas of one instruction when instructions are billed one by one. -/
def instructionGas : UInt64 := 1

namespace Machine

/-- Cost of the block at the program counter, remembered for the next time. -/
def blockCost (m : Machine) : UInt64 × Meter :=
  match m.meter.costs[m.cpu.pc]? with
  | some cost => (cost, m.meter)
  | none =>
    let cost := Pipeline.blockCost m.program CostTable.baseline m.cpu.pc
    (cost, { m.meter with costs := m.meter.costs.insert m.cpu.pc cost })

/-- Pays for the next instruction. A block is paid for at its start, and anywhere else if it has not
been paid for. -/
def charge (m : Machine) (mode : GasMode) : Bool × Machine :=
  match mode with
  | .perInstruction =>
    match deduct? m.gas instructionGas with
    | some gas => (true, { m with gas })
    | none => (false, m)
  | .perBlock =>
    if m.meter.paid && !m.program.isBlockStart m.cpu.pc.toNat then (true, m)
    else
      let (cost, meter) := m.blockCost
      match deduct? m.gas cost with
      | some gas => (true, { m with gas, meter := { meter with paid := true } })
      | none => (false, { m with meter := { meter with paid := false } })

/-- Pays for one instruction and executes it. -/
def step (m : Machine) (mode : GasMode) : Exit × Machine :=
  let (paid, m) := m.charge mode
  if paid then
    let (exit, cpu) := m.cpu.step m.program
    (exit, { m with cpu })
  else (.outOfGas, m)

/-- Steps until the machine stops, at most `fuel` times. -/
def runFor (mode : GasMode) : (fuel : Nat) → Machine → Exit × Machine
  | 0, m => (.continue, m)
  | fuel + 1, m =>
    let (exit, m) := m.step mode
    if exit = .continue then runFor mode fuel m else (exit, m)

/-- No run takes more steps. Between two payments the program counter only moves up within the
code, and there are at most `gas` payments. -/
def stepBound (m : Machine) : Nat := (m.gas.toNat + 1) * (m.program.code.size + 2)

/-- Runs until the machine halts, panics, faults, is out of gas or calls its host. -/
def run (m : Machine) (mode : GasMode) : Exit × Machine := runFor mode m.stepBound m

end Machine

end ServiceVm
