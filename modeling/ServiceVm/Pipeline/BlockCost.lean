import ServiceVm.Pipeline.Resource
import ServiceVm.Instr.Step

/-!
# Cost of a basic block

The block is run through an out-of-order pipeline without its data. Every cycle decodes
instructions into a reorder buffer, starts entries whose operands are ready and whose units are
free, advances the entries that execute, and retires finished entries from the front. The cost is
the number of cycles less three, and at least one.
-/
namespace ServiceVm.Pipeline

def decodeWidth : Nat := 4
def executionWidth : Nat := 5
def bufferSize : Nat := 32

inductive Stage where
  /-- Decoded in this cycle; may start from the next one on. -/
  | decoded
  | pending
  | executing
  | finished
deriving DecidableEq, Repr

structure Entry where
  id : Nat
  stage : Stage
  /-- Cycles left to execute. -/
  remaining : Nat
  units : Units
  /-- Entries that produce the operands. -/
  producers : List Nat
deriving DecidableEq, Repr

structure State where
  /-- Next instruction to decode. -/
  pc : UInt32
  cycles : Nat
  decodeSlots : Nat
  executionSlots : Nat
  free : Units
  /-- Reorder buffer, oldest entry first. -/
  buffer : List Entry
  nextId : Nat
  /-- Entry that last wrote each register, renamings followed. -/
  producers : RegFile (Option Nat)
  ended : Bool
deriving DecidableEq, Repr

def initial (start : UInt32) : State where
  pc := start
  cycles := 0
  decodeSlots := decodeWidth
  executionSlots := executionWidth
  free := Units.available
  buffer := []
  nextId := 0
  producers := Vector.replicate 13 none
  ended := false

/-- A resource that can always be decoded and started within one cycle. -/
def capped (r : Resource) : Resource where
  cycles := r.cycles
  decodeSlots := min r.decodeSlots decodeWidth
  units := r.units.capped Units.available

/-- An instruction with what the simulation needs to know of it. A place that holds no instruction
counts as a trap that touches no register. -/
structure Decoded where
  opcode : Opcode
  following : UInt32
  /-- Whether the block ends here. -/
  last : Bool
  reads : List Reg
  writes : List Reg
deriving DecidableEq, Repr

def decodeAt (p : Program) (pc : UInt32) : Decoded :=
  match p.fetch? pc with
  | some ⟨instr, skip⟩ =>
    let following := followingPc pc skip
    { opcode := instr.opcode
      following
      last := instr.opcode.isTerminator || decide (p.code.size ≤ following.toNat)
      reads := instr.reads
      writes := instr.writes }
  | none =>
    { opcode := .trap
      following := followingPc pc (p.skip pc.toNat)
      last := true
      reads := []
      writes := [] }

namespace State

/-- A move makes its destination a second name of its source and takes no entry. -/
def rename (s : State) (d : Decoded) : State :=
  match d.writes, d.reads with
  | w :: _, r :: _ => { s with producers := s.producers.put w (s.producers.get r) }
  | _, _ => s

/-- Makes the next entry the producer of the given registers. -/
def produce (s : State) (writes : List Reg) : RegFile (Option Nat) :=
  writes.foldl (fun (table : RegFile (Option Nat)) reg => table.put reg (some s.nextId)) s.producers

/-- Appends an entry for the instruction to the buffer. -/
def enter (s : State) (d : Decoded) (r : Resource) : State :=
  let entry : Entry := {
    id := s.nextId
    stage := .decoded
    remaining := max r.cycles 1
    units := r.units
    producers := d.reads.filterMap fun reg => s.producers.get reg }
  { s with
    nextId := s.nextId + 1
    producers := s.produce d.writes
    buffer := s.buffer ++ [entry] }

/-- Decodes one instruction, for which there is room. -/
def accept (s : State) (d : Decoded) (r : Resource) : State :=
  let s := { s with
    decodeSlots := s.decodeSlots - r.decodeSlots
    ended := d.last
    pc := d.following }
  if d.opcode = .moveReg then s.rename d else s.enter d r

/-- Decodes instructions until the block ends, the buffer is full or the cycle's slots are used
up. Every instruction but the last moves the program counter up within the code, so `fuel` need not
exceed the code size. -/
def decodeCycle (p : Program) (table : CostTable) : (fuel : Nat) → State → State
  | 0, s => s
  | fuel + 1, s =>
    if s.ended || decide (bufferSize ≤ s.buffer.length) then s
    else
      let d := decodeAt p s.pc
      let r := capped (table d.opcode)
      if s.decodeSlots < r.decodeSlots then s
      else decodeCycle p table fuel (s.accept d r)

/-- Entries before the front of the buffer have been retired. -/
def isFinished (s : State) (id : Nat) : Bool :=
  match s.buffer with
  | [] => true
  | head :: _ =>
    if id < head.id then true
    else
      match s.buffer[id - head.id]? with
      | some entry => entry.stage = .finished
      | none => true

/-- Starts pending entries in buffer order while there are slots, units permitting. -/
def start (ready : Nat → Bool) : List Entry → (slots : Nat) → (free : Units) →
    List Entry × Nat × Units
  | [], slots, free => ([], slots, free)
  | entry :: rest, slots, free =>
    if 0 < slots ∧ entry.stage = .pending ∧ entry.units.fitsIn free ∧ entry.producers.all ready then
      let (rest, slots, free) := start ready rest (slots - 1) (free.take entry.units)
      ({ entry with stage := .executing } :: rest, slots, free)
    else
      let (rest, slots, free) := start ready rest slots free
      (entry :: rest, slots, free)

/-- Starting an entry finishes none, so readiness is that of the buffer before. -/
def dispatch (s : State) : State :=
  let (buffer, executionSlots, free) := start s.isFinished s.buffer s.executionSlots s.free
  { s with buffer, executionSlots, free }

def advanceEntry (entry : Entry) : Entry :=
  match entry.stage with
  | .decoded => { entry with stage := .pending }
  | .executing =>
    let remaining := entry.remaining - 1
    { entry with remaining, stage := if remaining = 0 then .finished else .executing }
  | .pending | .finished => entry

/-- Whether the entry gives its units back in this cycle. -/
def finishes (entry : Entry) : Bool := entry.stage = .executing ∧ entry.remaining ≤ 1

def advance (s : State) : State :=
  { s with
    buffer := s.buffer.map advanceEntry
    free := s.buffer.foldl (fun free e => if finishes e then free.release e.units else free) s.free
    cycles := s.cycles + 1
    decodeSlots := decodeWidth
    executionSlots := executionWidth }

def retire (s : State) : State :=
  { s with buffer := s.buffer.dropWhile fun entry => entry.stage = .finished }

def isDone (s : State) : Bool := s.ended && s.buffer.isEmpty

def cycle (p : Program) (table : CostTable) (s : State) : State :=
  (decodeCycle p table (p.code.size + 1) s).dispatch.advance.retire

/-- Runs cycles until the block has ended and every entry is retired. -/
def simulate (p : Program) (table : CostTable) : (fuel : Nat) → State → State
  | 0, s => s
  | fuel + 1, s =>
    let s := s.cycle p table
    if s.isDone then s else simulate p table fuel s

end State

/-- Cycles that suffice for the rest of a block: one to decode every instruction, and its own
cycles to execute it. -/
def cycleBoundFrom (p : Program) (table : CostTable) :
    (fuel : Nat) → (pc : UInt32) → (sum : Nat) → Nat
  | 0, _, sum => sum
  | fuel + 1, pc, sum =>
    let d := decodeAt p pc
    let sum := sum + 1 + max (table d.opcode).cycles 1
    if d.last then sum else cycleBoundFrom p table fuel d.following sum

def cycleBound (p : Program) (table : CostTable) (start : UInt32) : Nat :=
  cycleBoundFrom p table (p.code.size + 1) start 0

/-- Cycles the pipeline takes for the block at `start`. -/
def blockCycles (p : Program) (table : CostTable) (start : UInt32) : Nat :=
  (State.simulate p table (cycleBound p table start) (initial start)).cycles

/-- Gas for the basic block at `start`. -/
def blockCost (p : Program) (table : CostTable) (start : UInt32) : UInt64 :=
  UInt64.ofNat (max (blockCycles p table start - 3) 1)

end ServiceVm.Pipeline
