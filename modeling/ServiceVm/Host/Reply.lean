import ServiceVm.Host.Context

/-!
# Replies of host calls

A host call reads its arguments from registers 7 to 12 and leaves its reply in register 7. It works on
the state of the guest in place, one step after the other, and `Refusal` lists the reasons for which a
step ends it early.
-/
namespace ServiceVm

/-- State of the guest while a host call runs. -/
structure HostState where
  registers : Registers
  memory : Memory
  gas : UInt64
  context : HostContext

inductive Refusal where
  /-- The guest named memory it may not use; it panics. -/
  | badMemory
  | none
  | what
  | oob
  | who
  | full
  | core
  | cash
  | low
  | huh
deriving DecidableEq, Repr

namespace Refusal

def code : Refusal → UInt64
  | .none => 0xffffffffffffffff
  | .what => 0xfffffffffffffffe
  | .oob | .badMemory => 0xfffffffffffffffd
  | .who => 0xfffffffffffffffc
  | .full => 0xfffffffffffffffb
  | .core => 0xfffffffffffffffa
  | .cash => 0xfffffffffffffff9
  | .low => 0xfffffffffffffff8
  | .huh => 0xfffffffffffffff7

def exit : Refusal → Exit
  | .badMemory => .panic
  | _ => .continue

end Refusal

/-- Reply of a call that has nothing to report. -/
def replyOk : UInt64 := 0

namespace HostState

/-! Arguments of the call. -/

def r7 (s : HostState) : UInt64 := s.registers.get Reg.r7
def r8 (s : HostState) : UInt64 := s.registers.get Reg.r8
def r9 (s : HostState) : UInt64 := s.registers.get Reg.r9
def r10 (s : HostState) : UInt64 := s.registers.get Reg.r10
def r11 (s : HostState) : UInt64 := s.registers.get Reg.r11
def r12 (s : HostState) : UInt64 := s.registers.get Reg.r12

def reply (s : HostState) (value : UInt64) : HostState :=
  { s with registers := s.registers.put Reg.r7 value }

/-- The bytes at an address the guest named. -/
def readBytes (s : HostState) (start len : UInt64) : Except Refusal Bytes :=
  if s.memory.isReadable start.toNat len.toNat then
    match s.memory.read start.toNat len.toNat with
    | .ok data => .ok data
    | .error _ => .error .badMemory
  else .error .badMemory

def readHash (s : HostState) (start : UInt64) : Except Refusal Hash := do
  let data ← s.readBytes start 32
  match Hash.ofBytes? data with
  | some hash => .ok hash
  | none => .error .badMemory

def refinement (s : HostState) (otherwise : Refusal) : Except Refusal RefinementContext :=
  match s.context with
  | .refinement c => .ok c
  | _ => .error otherwise

def accumulation (s : HostState) : Except Refusal AccumulationContext :=
  match s.context with
  | .accumulation c => .ok c
  | _ => .error .what

def mapRefinement (s : HostState) (change : RefinementContext → RefinementContext) : HostState :=
  match s.context with
  | .refinement c => { s with context := .refinement (change c) }
  | _ => s

def mapCurrent (s : HostState) (change : Outcome → Outcome) : HostState :=
  match s.context with
  | .accumulation c => { s with context := .accumulation { c with current := change c.current } }
  | _ => s

end HostState

/-- Steps of a call. What they have changed stays changed if a later one refuses the call. -/
abbrev HostAction := ExceptT Refusal (StateM HostState)

/-- How a call ends, and the state that it leaves. -/
inductive HostResult where
  | ok (s : HostState)
  | error (refusal : Refusal) (s : HostState)

def HostAction.perform (action : HostAction Unit) (s : HostState) : HostResult :=
  match (action.run.run s).run with
  | (.ok (), s) => .ok s
  | (.error refusal, s) => .error refusal s

/-- The exit, and the state in which the guest finds the reason of a refusal. -/
def HostResult.settle : HostResult → Exit × HostState
  | .ok s => (.continue, s)
  | .error refusal s => (refusal.exit, s.reply refusal.code)

namespace Host

def reply (value : UInt64) : HostAction Unit := modify (·.reply value)

/-- Writes to the memory of the guest whatever the rights of its pages. -/
def writeMemory (start : Nat) (data : Bytes) : HostAction Unit :=
  modify fun s => { s with memory := s.memory.write start data }

/-- Changes the data of a refinement. -/
def updateRefinement (change : RefinementContext → RefinementContext) : HostAction Unit :=
  modify (·.mapRefinement change)

/-- Changes the outcome that an accumulation is working on. -/
def updateCurrent (change : Outcome → Outcome) : HostAction Unit := modify (·.mapCurrent change)

def updateSelf (account : Account) : HostAction Unit := updateCurrent (·.setSelf account)

/-- Writes the part of `value` from `offset` on, at most `len` bytes, and replies the size of all of
it. -/
def writeSlice (value : Bytes) (output offset len : UInt64) : HostAction Unit := do
  let s ← get
  let first := min offset.toNat value.size
  let count := min len.toNat (value.size - first)
  if count = 0 then
    reply (UInt64.ofNat value.size)
  else if s.memory.isWriteable output.toNat count then
    writeMemory output.toNat (value.extract first (first + count))
    reply (UInt64.ofNat value.size)
  else
    throw .badMemory

/-- Writes `value` as `writeSlice` does, or refuses if there is none. -/
def writeSlice? (value : Option Bytes) (output offset len : UInt64) : HostAction Unit :=
  match value with
  | some value => writeSlice value output offset len
  | none => throw .none

end Host

/-- Refuses unless there is a value. -/
def require {α : Type} (value : Option α) (refusal : Refusal) : Except Refusal α :=
  match value with
  | some a => .ok a
  | none => .error refusal

/-- A service named by a register; the largest word stands for the caller. -/
def resolveService? (selector : UInt64) (caller : ServiceId) : Option ServiceId :=
  if selector = Refusal.none.code then some caller else toUInt32? selector

def Accounts.resolve? (accounts : Accounts) (selector : UInt64) (caller : ServiceId) :
    Option Account :=
  match resolveService? selector caller with
  | some id => accounts[id]?
  | none => none

/-- The account named by a register, if the invocation sees accounts. -/
def HostContext.resolve? (c : HostContext) (selector : UInt64) : Option Account :=
  match c.accounts? with
  | some accounts => accounts.resolve? selector (c.service?.getD 0)
  | none => none

end ServiceVm
