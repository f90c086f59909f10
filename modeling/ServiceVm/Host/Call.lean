import ServiceVm.Host.Context

/-! # Host calls and the invocations that may use them -/
namespace ServiceVm

inductive HostCall where
  | gas
  | fetch
  | lookup
  | read
  | write
  | info
  | historicalLookup
  | exportSegment
  | machine
  | peek
  | poke
  | pages
  | invoke
  | expunge
  | bless
  | assign
  | designate
  | checkpoint
  | new
  | upgrade
  | transfer
  | eject
  | query
  | solicit
  | forget
  | yield
  | provide
  | log
deriving DecidableEq, Repr

namespace HostCall

/-- Number and written name. -/
def entry : HostCall → UInt32 × String
  | .gas => (0, "gas")
  | .fetch => (1, "fetch")
  | .lookup => (2, "lookup")
  | .read => (3, "read")
  | .write => (4, "write")
  | .info => (5, "info")
  | .historicalLookup => (6, "historical_lookup")
  | .exportSegment => (7, "export")
  | .machine => (8, "machine")
  | .peek => (9, "peek")
  | .poke => (10, "poke")
  | .pages => (11, "pages")
  | .invoke => (12, "invoke")
  | .expunge => (13, "expunge")
  | .bless => (14, "bless")
  | .assign => (15, "assign")
  | .designate => (16, "designate")
  | .checkpoint => (17, "checkpoint")
  | .new => (18, "new")
  | .upgrade => (19, "upgrade")
  | .transfer => (20, "transfer")
  | .eject => (21, "eject")
  | .query => (22, "query")
  | .solicit => (23, "solicit")
  | .forget => (24, "forget")
  | .yield => (25, "yield")
  | .provide => (26, "provide")
  | .log => (100, "log")

def id (call : HostCall) : UInt32 := call.entry.1

def name (call : HostCall) : String := call.entry.2

def ofId? : UInt32 → Option HostCall
  | 0 => some .gas
  | 1 => some .fetch
  | 2 => some .lookup
  | 3 => some .read
  | 4 => some .write
  | 5 => some .info
  | 6 => some .historicalLookup
  | 7 => some .exportSegment
  | 8 => some .machine
  | 9 => some .peek
  | 10 => some .poke
  | 11 => some .pages
  | 12 => some .invoke
  | 13 => some .expunge
  | 14 => some .bless
  | 15 => some .assign
  | 16 => some .designate
  | 17 => some .checkpoint
  | 18 => some .new
  | 19 => some .upgrade
  | 20 => some .transfer
  | 21 => some .eject
  | 22 => some .query
  | 23 => some .solicit
  | 24 => some .forget
  | 25 => some .yield
  | 26 => some .provide
  | 100 => some .log
  | _ => none

theorem ofId?_id (call : HostCall) : ofId? call.id = some call := by
  cases call <;> rfl

/-- Whether guests of an invocation may make the call. -/
def permittedIn (call : HostCall) (kind : InvocationKind) : Bool :=
  match call with
  | .gas | .fetch | .log => true
  | .lookup | .read | .write | .info => kind = .accumulation || kind = .transfer
  | .historicalLookup | .exportSegment | .machine | .peek | .poke | .pages | .invoke
  | .expunge => kind = .refinement
  | .bless | .assign | .designate | .checkpoint | .new | .upgrade | .transfer | .eject
  | .query | .solicit | .forget | .yield | .provide => kind = .accumulation

/-- Gas charged before the call runs. A transfer also pays the gas it passes on. -/
def fee (call : HostCall) (registers : Registers) : UInt64 :=
  match call with
  | .log => 0
  | .transfer => saturatingAdd hostCallGas (registers.get Reg.r9)
  | _ => hostCallGas

end HostCall

end ServiceVm
