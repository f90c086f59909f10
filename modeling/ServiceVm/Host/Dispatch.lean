import ServiceVm.Host.Accounts
import ServiceVm.Host.Call
import ServiceVm.Host.Fetch
import ServiceVm.Host.Nested
import ServiceVm.Host.Preimages
import ServiceVm.Host.Privileges

/-!
# Running a guest with its host

A guest that calls its host pays the fee of the call, then the call runs and the guest goes on.
Calls that the invocation does not permit cost the base fee and only reply that they are not
known.
-/
namespace ServiceVm

/-- The work of a call, the fee and the permission left out. -/
def HostCall.action (call : HostCall) (config : Config) : HostAction Unit :=
  match call with
  | .gas => Host.gas
  | .fetch => Host.fetch config
  | .lookup => Host.lookup
  | .read => Host.read
  | .write => Host.write
  | .info => Host.info
  | .historicalLookup => Host.historicalLookup
  | .exportSegment => Host.exportSegment
  | .machine => Host.machine
  | .peek => Host.peek
  | .poke => Host.poke
  | .pages => Host.pages
  | .invoke => Host.invoke config
  | .expunge => Host.expunge
  | .bless => Host.bless config
  | .assign => Host.assign config
  | .designate => Host.designate config
  | .checkpoint => Host.checkpoint
  | .new => Host.new
  | .upgrade => Host.upgrade
  | .transfer => Host.transfer
  | .eject => Host.eject config
  | .query => Host.query
  | .solicit => Host.solicit
  | .forget => Host.forget config
  | .yield => Host.yield
  | .provide => Host.provide
  | .log => Host.log

def HostCall.result (call : HostCall) (config : Config) (s : HostState) : HostResult :=
  (call.action config).perform s

/-- A machine together with the data of its invocation. -/
structure Guest where
  machine : Machine
  context : HostContext

namespace Guest

/-- Runs a call on the guest without charging for it. -/
def execute (g : Guest) (config : Config) (call : HostCall) : Exit × Guest :=
  let m := g.machine
  let s : HostState := ⟨m.cpu.registers, m.cpu.memory, m.gas, g.context⟩
  let (exit, s) := (call.result config s).settle
  let cpu := { m.cpu with registers := s.registers, memory := s.memory }
  (exit, ⟨{ m with cpu, gas := s.gas }, s.context⟩)

/-- Takes a fee from the guest's gas. -/
def pay? (g : Guest) (fee : UInt64) : Option Guest :=
  match deduct? g.machine.gas fee with
  | some gas => some { g with machine := { g.machine with gas } }
  | none => none

/-- Replies that the call is not known. -/
def refuse (g : Guest) : Guest :=
  let cpu := g.machine.cpu
  let cpu := { cpu with registers := cpu.registers.put Reg.r7 Refusal.what.code }
  { g with machine := { g.machine with cpu } }

/-- The call with the given number, if the guest may make it. -/
def permitted? (g : Guest) (id : UInt32) : Option HostCall :=
  match HostCall.ofId? id with
  | some call => if call.permittedIn g.context.kind then some call else none
  | none => none

/-- Charges for a host call and runs it. -/
def dispatch (g : Guest) (config : Config) (id : UInt32) : Exit × Guest :=
  match g.permitted? id with
  | none =>
    match g.pay? hostCallGas with
    | some g => (.continue, g.refuse)
    | none => (.outOfGas, g)
  | some call =>
    match g.pay? (call.fee g.machine.cpu.registers) with
    | some g => g.execute config call
    | none => (.outOfGas, g)

/-- Runs the guest up to its next exit, and serves it if it calls the host. -/
def turn (g : Guest) (config : Config) : Exit × Guest :=
  let (exit, machine) := g.machine.run config.gasMode
  let g := { g with machine }
  match exit with
  | .hostCall id => g.dispatch config id
  | exit => (exit, g)

def runFor (config : Config) : (fuel : Nat) → Guest → Exit × Guest
  | 0, g => (.continue, g)
  | fuel + 1, g =>
    let (exit, g) := g.turn config
    if exit = .continue then runFor config fuel g else (exit, g)

/-- Runs the guest until it stops for good. Every turn takes at least one step, and serving a call
neither gives gas nor moves the program counter, so there are no more turns than steps. -/
def run (g : Guest) (config : Config) : Exit × Guest := runFor config g.machine.stepBound g

end Guest

end ServiceVm
