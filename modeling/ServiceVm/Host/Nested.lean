import ServiceVm.Host.Reply
import ServiceVm.Program.Blob

/-!
# Exports and nested machines of a refinement

A refining guest creates machines, gives them memory, copies bytes in and out, and runs them with
gas and registers it keeps in a block of its own memory.
-/
namespace ServiceVm

namespace NestedMachine

/-- Runs the machine with the given gas and registers. -/
def run (n : NestedMachine) (config : Config) (gas : UInt64) (registers : Registers) :
    Exit × Machine :=
  Machine.run ⟨n.program, ⟨n.pc, registers, n.memory⟩, gas, n.meter⟩ config.gasMode

/-- What is kept of a machine that has stopped. -/
def ofMachine (m : Machine) : NestedMachine := ⟨m.program, m.cpu.memory, m.cpu.pc, m.meter⟩

end NestedMachine

/-- The least handle that is not in use. -/
def unusedHandle (machines : Std.TreeMap UInt64 NestedMachine) : UInt64 :=
  machines.foldl (fun handle used _ => if used = handle then handle + 1 else handle) 0

/-- Gas and registers of a nested machine as they stand in the guest's memory. -/
structure InvokeBlock where
  gas : UInt64
  registers : Registers

namespace InvokeBlock

def size : Nat := 112

def decode (data : Bytes) : InvokeBlock where
  gas := data.toWord
  registers := Vector.ofFn fun i => (data.drop (8 * (i + 1))).toWord

def encode (b : InvokeBlock) : Bytes :=
  b.registers.foldl (fun out value => out ++ Bytes.ofWord value 8) (Bytes.ofWord b.gas 8)

end InvokeBlock

/-- Leaves the second word of a status in register 8. -/
def HostState.putExtra (s : HostState) (extra : Option UInt64) : HostState :=
  match extra with
  | some extra => { s with registers := s.registers.put Reg.r8 extra }
  | none => s

namespace Host

/-- Appends a zero-padded segment and replies its number within the package. -/
def exportSegment : HostAction Unit := do
  let s ← get
  let len := min s.r8 (UInt64.ofNat segmentSize)
  let segment ← s.readBytes s.r7 len
  let c ← s.refinement .what
  let index := c.exportOffset + UInt64.ofNat c.exports.size
  if UInt64.ofNat maxPackageExports ≤ index then
    throw .full
  updateRefinement fun c => { c with exports := c.exports.push (segment.resize segmentSize) }
  reply index

/-- Creates a machine without memory and replies its handle. -/
def machine : HostAction Unit := do
  let s ← get
  let blob ← s.readBytes s.r7 s.r8
  match Program.ofBlob blob with
  | .error _ => throw .huh
  | .ok program =>
    let c ← s.refinement .what
    let handle := unusedHandle c.machines
    let pc := (toUInt32? s.r9).getD 0xffffffff
    updateRefinement fun c => { c with machines := c.machines.insert handle { program, pc } }
    reply handle

/-- Copies bytes out of a nested machine. -/
def peek : HostAction Unit := do
  let s ← get
  if !s.memory.isWriteable s.r8.toNat s.r10.toNat then
    throw .badMemory
  let c ← s.refinement .what
  let n ← require c.machines[s.r7]? .who
  if !n.memory.isReadable s.r9.toNat s.r10.toNat then
    throw .oob
  match n.memory.read s.r9.toNat s.r10.toNat with
  | .error _ => throw .oob
  | .ok data =>
    writeMemory s.r8.toNat data
    reply replyOk

/-- Copies bytes into a nested machine. -/
def poke : HostAction Unit := do
  let s ← get
  let data ← s.readBytes s.r8 s.r10
  let c ← s.refinement .what
  let n ← require c.machines[s.r7]? .who
  if !n.memory.isWriteable s.r9.toNat s.r10.toNat then
    throw .oob
  let n := { n with memory := n.memory.write s.r9.toNat data }
  updateRefinement fun c => { c with machines := c.machines.insert s.r7 n }
  reply replyOk

/-- Rights and clearing asked for by a mode number: modes 3 and 4 change the rights of pages that
are accessible already and keep their bytes. -/
def pageMode? (mode : UInt64) : Option (Access × Bool) :=
  match mode.toNat with
  | 0 => some (.none, true)
  | 1 => some (.readOnly, true)
  | 2 => some (.readWrite, true)
  | 3 => some (.readOnly, false)
  | 4 => some (.readWrite, false)
  | _ => none

/-- Sets the rights of pages of a nested machine. -/
def pages : HostAction Unit := do
  let s ← get
  let first := s.r8.toNat
  let count := s.r9.toNat
  let c ← s.refinement .what
  let n ← require c.machines[s.r7]? .who
  let (access, zero) ← require (pageMode? s.r10) .huh
  if first < firstMutablePage ∨ pageCount ≤ first + count then
    throw .huh
  if !zero && (n.memory.refusedPage? Access.isReadable count first).isSome then
    throw .huh
  let n := { n with memory := n.memory.setPages first count access zero }
  updateRefinement fun c => { c with machines := c.machines.insert s.r7 n }
  reply replyOk

/-- Runs a nested machine with the block at register 8 and replies how it stopped. -/
def invoke (config : Config) : HostAction Unit := do
  let s ← get
  let start := s.r8.toNat
  if !s.memory.isWriteable start InvokeBlock.size then
    throw .badMemory
  match s.memory.read start InvokeBlock.size with
  | .error _ => throw .badMemory
  | .ok data =>
    let block := InvokeBlock.decode data
    let c ← s.refinement .what
    let n ← require c.machines[s.r7]? .who
    let (exit, m) := n.run config block.gas block.registers
    updateRefinement fun c =>
      { c with machines := c.machines.insert s.r7 (NestedMachine.ofMachine m) }
    writeMemory start (InvokeBlock.encode ⟨m.gas, m.cpu.registers⟩)
    let (status, extra) := exit.status
    modify (·.putExtra extra)
    reply status

/-- Removes a nested machine and replies its program counter. -/
def expunge : HostAction Unit := do
  let s ← get
  let c ← s.refinement .what
  let n ← require c.machines[s.r7]? .who
  updateRefinement fun c => { c with machines := c.machines.erase s.r7 }
  reply n.pc.toUInt64

end Host

end ServiceVm
