import ServiceVm.Host.Dispatch
import ServiceVm.Program.Image

/-!
# Invocations with an argument

An invocation loads an image with its argument, runs it as a guest, and takes the memory named by
registers 7 and 8 as its output.
-/
namespace ServiceVm

inductive InvocationResult where
  | ok (output : Bytes)
  | outOfGas
  | panic
deriving DecidableEq, Repr

def InvocationResult.toWorkResult : InvocationResult → WorkResult
  | .ok output => .ok output
  | .outOfGas => .outOfGas
  | .panic => .panic

/-- Result, gas spent, and what has become of the data of the invocation. -/
structure InvocationOutcome where
  result : InvocationResult
  gasUsed : UInt64
  context : HostContext

/-- The output of a guest that has halted; unreadable memory gives no bytes. -/
def Cpu.output (c : Cpu) : Bytes :=
  match c.memory.read (c.registers.get Reg.r7).toNat (c.registers.get Reg.r8).toNat with
  | .ok data => data
  | .error _ => #[]

def InvocationResult.ofExit (exit : Exit) (c : Cpu) : InvocationResult :=
  match exit with
  | .halt => .ok c.output
  | .outOfGas => .outOfGas
  | _ => .panic

/-- Runs an image from `pc` on. A malformed image panics without using gas. -/
def invokeImage (config : Config) (image : Bytes) (pc : UInt32) (gas : UInt64) (argument : Bytes)
    (context : HostContext) : InvocationOutcome :=
  match Image.load image argument with
  | .error _ => ⟨.panic, 0, context⟩
  | .ok loaded =>
    let cpu : Cpu := ⟨pc, loaded.registers, loaded.memory⟩
    let (exit, g) := Guest.run ⟨⟨loaded.program, cpu, gas, {}⟩, context⟩ config
    ⟨InvocationResult.ofExit exit g.machine.cpu, gas - g.machine.gas, g.context⟩

/-- The code inside a preimage, its metadata left out. -/
def serviceCode? (preimage : Bytes) : Option Bytes :=
  (Codec.decodeServiceCode preimage).map Codec.ServiceCode.code

/-- The code an account runs when it accumulates or receives transfers. -/
def Account.runnableCode? (account : Account) : Option Bytes :=
  match account.codePreimage?.bind serviceCode? with
  | some code => if code.isEmpty ∨ maxServiceCode < code.size then none else some code
  | none => none

end ServiceVm
