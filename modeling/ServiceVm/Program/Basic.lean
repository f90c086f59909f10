import ServiceVm.Bytes
import ServiceVm.Opcode

/-!
# Programs

A program is a code string, a tag for every code byte, and a table of jump targets. Tags say where
instructions start and where basic blocks start; block tags follow from the code and the
instruction tags, and `tagCode` derives them.
-/
namespace ServiceVm

structure Tag where
  instruction : Bool
  block : Bool
deriving DecidableEq, Repr

structure Program where
  code : Bytes
  tags : Array Tag
  /-- `entries` jump targets of `width` bytes each. -/
  jumpTable : Bytes
  entries : UInt32
  width : UInt8
deriving DecidableEq, Repr

/-- Tags of a code string so far, and whether the last instruction start holds a terminator. -/
structure Tagging where
  tags : Array Tag
  afterTerminator : Bool

/-- Tags one more byte. The first byte starts a block, and so does an instruction start that
follows a terminator. -/
def Tagging.push (t : Tagging) (byte : UInt8) (isStart : Bool) : Tagging where
  tags := t.tags.push ⟨isStart, t.tags.isEmpty || (isStart && t.afterTerminator)⟩
  afterTerminator := if isStart then isTerminatorByte byte else t.afterTerminator

def tagCode (code : Bytes) (starts : Array Bool) : Array Tag :=
  ((code.zip starts).foldl (fun (t : Tagging) entry => t.push entry.1 entry.2) ⟨#[], false⟩).tags

/-- Longest operand string. -/
def maxSkip : Nat := 24

namespace Program

/-- A jump target in `width` bytes. -/
def encodeTarget (width : UInt8) (target : UInt32) : Bytes :=
  Bytes.ofWord target.toUInt64 width.toNat

/-- Builds a program from its code, the places where instructions start and its jump targets. -/
def ofCode (code : Bytes) (starts : Array Bool) (targets : Array UInt32) (width : UInt8) :
    Program where
  code
  tags := tagCode code (Array.ofFn (n := code.size) fun i => starts.getD i false)
  jumpTable := Bytes.concat (targets.map (encodeTarget width))
  entries := UInt32.ofNat targets.size
  width

def isInstructionStart (p : Program) (pc : Nat) : Bool :=
  match p.tags[pc]? with
  | some tag => tag.instruction
  | none => false

def isBlockStart (p : Program) (pc : Nat) : Bool :=
  match p.tags[pc]? with
  | some tag => tag.block
  | none => false

/-- Whether an instruction that began earlier ends before `i`: the next one starts here, or the code
has ended. -/
def endsBefore (p : Program) (i : Nat) : Bool :=
  match p.tags[i]? with
  | some tag => tag.instruction
  | none => true

/-- Number of bytes from `i` on before the next instruction, counting at most `limit`. -/
def operandsFrom (p : Program) : (limit : Nat) → (i : Nat) → Nat
  | 0, _ => 0
  | limit + 1, i => if p.endsBefore i then 0 else p.operandsFrom limit (i + 1) + 1

/-- Number of operand bytes of the instruction at `pc`. -/
def skip (p : Program) (pc : Nat) : Nat := p.operandsFrom maxSkip (pc + 1)

theorem operandsFrom_le (p : Program) (limit i : Nat) : p.operandsFrom limit i ≤ limit := by
  induction limit generalizing i with
  | zero => exact Nat.le_refl 0
  | succ limit ih =>
    rw [operandsFrom]
    split
    · exact Nat.zero_le _
    · exact Nat.succ_le_succ (ih (i + 1))

theorem skip_le (p : Program) (pc : Nat) : p.skip pc ≤ maxSkip := p.operandsFrom_le maxSkip (pc + 1)

/-- Entry `index` of the jump table, if it is a 32-bit number. -/
def jumpTarget? (p : Program) (index : Nat) : Option UInt32 :=
  let start := index * p.width.toNat
  if index < p.entries.toNat ∧ start + p.width.toNat ≤ p.jumpTable.size then
    let stop := start + min p.width.toNat 8
    let value := LittleEndian.decode (p.jumpTable.extract start stop).toList
    if value < UInt32.size then some (UInt32.ofNat value) else none
  else none

/-- Places where instructions start, in code order. -/
def instructionStarts (p : Program) : List Nat :=
  (List.range p.tags.size).filter p.isInstructionStart

end Program

end ServiceVm
