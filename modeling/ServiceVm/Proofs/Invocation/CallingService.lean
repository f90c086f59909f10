import ServiceVm.Proofs.Invocation.Guests
import ServiceVm.Proofs.Machine.Metering
import ServiceVm.Proofs.Program.RoundTrip
import ServiceVm.Proofs.Service.Balance

/-!
# Services that make one call

An account whose code is an image that can be loaded accumulates by running that image, and what stands
in a segment of the image is what a call reads there. Services that hand a hash to one call of their
host, and do nothing else, show what single calls do in an accumulation.
-/
namespace ServiceVm

theorem Segment.Holds.read {s : Segment} {m : Memory} (holds : s.Holds m)
    (readable : s.access.isReadable = true) {n : Nat} (inside : s.start + n ≤ s.stop)
    (space : s.stop ≤ addressSpace) : m.read s.start n = .ok (s.content.resize n) := by
  rw [Memory.read_eq_ok]
  refine ⟨.inr (by omega), ?_, ?_⟩
  · rintro k ⟨a, low, high, rfl⟩
    rw [(holds a ⟨low, by omega⟩).1]
    exact readable
  · apply Array.ext
    · rw [Bytes.size_resize, Memory.bytesAt, Array.size_ofFn]
    · intro i short _
      rw [Bytes.size_resize] at short
      have byte := (holds (s.start + i) ⟨by omega, by omega⟩).2
      rw [Nat.add_sub_cancel_left, Array.getD_eq_getD_getElem?] at byte
      simp only [Memory.bytesAt, Array.getElem_ofFn, byte, Bytes.resize, Array.getElem_append,
        Array.size_extract, Array.getElem_extract, Nat.zero_add, Bytes.zeros, Array.getElem_replicate]
      split
      · rename_i stored
        rw [Array.getElem?_eq_getElem (by omega)]
        rfl
      · rw [Array.getElem?_eq_none (by omega)]
        rfl

theorem HostState.readBytes_of_read {s : HostState} {start len : UInt64} {data : Bytes}
    (read : s.memory.read start.toNat len.toNat = .ok data) : s.readBytes start len = .ok data := by
  have ends : s.memory.isReadable start.toNat len.toNat = true := by
    obtain ⟨inRange, readable, -⟩ := (s.memory.read_eq_ok ..).mp read
    refine (s.memory.endsAllow_iff ..).mpr ?_
    by_cases empty : len.toNat = 0
    · exact .inl empty
    · exact .inr ⟨by omega, readable _ ⟨start.toNat, by omega, by omega, rfl⟩,
        readable _ ⟨start.toNat + len.toNat - 1, by omega, by omega, rfl⟩⟩
  rw [readBytes, if_pos ends, read]

namespace Host

open HostAction

variable {config : Config} {s : HostState} {c : AccumulationContext} {hash : Hash} {length : UInt32}
  {account : Account}

theorem forget_ok {slots : History} {forgotten : Forgotten} (named : s.readHash s.r7 = .ok hash)
    (context : s.context = .accumulation c) (self : c.current.self? = some account)
    (short : toUInt32? s.r8 = some length) (listed : account.requests[(⟨hash, length⟩ : Request)]? = some slots)
    (forgets : forgetSlots? slots c.timeslot (cutoffSlot config c.timeslot) = some forgotten) :
    (forget config).perform s =
      .ok ((s.mapCurrent (·.setSelf (account.forget ⟨hash, length⟩ forgotten))).reply replyOk) := by
  simp only [forget, perform_get, named, HostState.accumulation, context, self, short, listed, forgets,
    require, perform_ok, perform_updateSelf, perform_reply]
  cases forgotten <;> rfl

theorem new_ok {payer : Account} (named : s.readHash s.r7 = .ok hash) (short : toUInt32? s.r8 = some length)
    (context : s.context = .accumulation c) (plain : s.r11 = 0) (self : c.current.self? = some account)
    (pays : payFrom? account (freshAccount hash length s.r9 s.r10 s.r11 c.timeslot c.current.service).balance =
      some payer) :
    new.perform s = .ok (({ s with context := .accumulation { c with
        current := c.current.create payer
          (freshAccount hash length s.r9 s.r10 s.r11 c.timeslot c.current.service) } } : HostState).reply
      c.current.nextFreeId.toUInt64) := by
  have free : ¬(s.r11 ≠ 0 ∧ c.current.service ≠ c.current.state.manager) := by simp [plain]
  simp only [new, perform_get, named, HostState.accumulation, context, self, short, pays, require,
    perform_ok, if_neg free, perform_updateSelf, perform_updateCurrent, perform_reply,
    HostState.mapCurrent_eq context]
  rfl

theorem write_ok {key : Bytes} {value : Option Bytes} {service : ServiceId} {accounts : Accounts}
    (named : s.readBytes s.r7 s.r8 = .ok key) (given : writtenValue s s.r9 s.r10 = .ok value)
    (caller : s.context.service? = some service) (seen : s.context.accounts? = some accounts)
    (known : accounts[service]? = some account)
    (covered : account.thresholdAfterWrite key value ≤ account.balance) :
    ∃ s', write.perform s = .ok s' ∧
      s'.context = s.context.setAccounts (accounts.insert service (account.write key value)) := by
  have enough := UInt64.not_lt.mpr covered
  simp only [write, perform_get, named, given, caller, seen, known, require, perform_ok, if_neg enough,
    perform_modify, perform_reply]
  exact ⟨_, rfl, rfl⟩

end Host

theorem serviceCode?_plain (code : Bytes) : serviceCode? (#[0] ++ code) = some code := by
  have none : Codec.decodeNatural #[0] = some ⟨0, 1⟩ := by decide +kernel
  have metadata : Codec.decodeVariable (#[0] ++ code) = some ⟨#[], 1⟩ := by
    simp [Codec.decodeVariable, Codec.decodeNatural_append none code]
  have rest : Bytes.drop (#[0] ++ code) 1 = code := by simp [Bytes.drop]
  simp [serviceCode?, Codec.decodeServiceCode, metadata, rest]

theorem Account.runnableCode?_of_image (account : Account) {image : Image}
    (stored : account.preimages[account.codeHash]? = some (#[0] ++ image.encode))
    (nonempty : 0 < image.encode.size) (short : image.encode.size ≤ maxServiceCode) :
    account.runnableCode? = some image.encode := by
  have preimage : account.codePreimage? = some (#[0] ++ image.encode) := stored
  have full : ¬(image.encode.isEmpty = true ∨ maxServiceCode < image.encode.size) := by
    rw [Array.isEmpty_iff_size_eq_zero]
    omega
  simp only [Account.runnableCode?, preimage, Option.bind_some, serviceCode?_plain, if_neg full]

namespace AccumulationInput

variable {input : AccumulationInput} {state : ChainState}

def argument (input : AccumulationInput) : Bytes :=
  accumulateArgument input.timeslot input.service input.operands.size

theorem initial_self? {account : Account} (present : state.accounts[input.service]? = some account) :
    (input.initial state).self? =
      some (account.credit (totalAmount (input.transfers.filter fun t => t.destination = input.service))) := by
  have self : (input.initial state).self? = (state.accounts.credit input.service
      (totalAmount (input.transfers.filter fun t => t.destination = input.service)))[input.service]? := rfl
  rw [self, Accounts.getElem?_credit, if_pos rfl, present]
  rfl

theorem guest?_of_image {account : Account} {image : Image} {program : Program}
    (present : state.accounts[input.service]? = some account)
    (stored : account.preimages[account.codeHash]? = some (#[0] ++ image.encode)) (fits : image.Fits)
    (nonempty : 0 < image.encode.size) (short : image.encode.size ≤ maxServiceCode)
    (accepted : Program.ofBlob image.blob = .ok program) (room : input.argument.size ≤ inputSize) :
    input.guest? state = some
      ⟨⟨program, ⟨accumulateEntry, Image.entryRegisters input.argument, image.layout input.argument⟩,
        input.gas, {}⟩, .accumulation (input.context state)⟩ := by
  have code (amount : UInt64) : (account.credit amount).runnableCode? = some image.encode :=
    (account.credit amount).runnableCode?_of_image stored nonempty short
  simp only [guest?, initial_self? present, Option.bind_some, code]
  exact imageGuest?_encode fits room accepted

end AccumulationInput

theorem transferGuest?_of_image {accounts : Accounts} {service : ServiceId} {timeslot : TimeSlot}
    {entropy : Hash} {transfers : Array Transfer} {account : Account} {image : Image} {program : Program}
    (present : accounts[service]? = some account)
    (stored : account.preimages[account.codeHash]? = some (#[0] ++ image.encode)) (fits : image.Fits)
    (nonempty : 0 < image.encode.size) (short : image.encode.size ≤ maxServiceCode)
    (accepted : Program.ofBlob image.blob = .ok program) (sent : transfers.isEmpty = false)
    (room : (accumulateArgument timeslot service transfers.size).size ≤ inputSize) :
    transferGuest? accounts service timeslot entropy transfers = some
      ⟨⟨program, ⟨transferEntry, Image.entryRegisters (accumulateArgument timeslot service transfers.size),
        image.layout (accumulateArgument timeslot service transfers.size)⟩, totalGas transfers, {}⟩,
        .transfer ⟨service, accounts.credit service (totalAmount transfers), timeslot, entropy, transfers⟩⟩ := by
  simp only [transferGuest?, present, Option.bind_some, account.runnableCode?_of_image stored nonempty short,
    sent, Bool.false_eq_true, if_false]
  exact imageGuest?_encode fits room accepted

/-! ## Code that makes one call -/

/-- Loads the address of the hash, makes the call, and halts. -/
def callingProgram (call : HostCall) : Program :=
  .ofCode #[0, 0, 0, 0, 0, 51, 7, 0, 0, 1, 10, call.id.toUInt8, 50, 0]
    #[true, true, true, true, true, true, false, false, false, false, true, false, true, false] #[] 0

def callingImage (call : HostCall) (hash : Hash) : Image where
  readOnly := hash.toBytes
  readWrite := #[]
  heapPages := 0
  stackSize := 0
  blob := (callingProgram call).toBlob

def callingAccount (call : HostCall) (hash : Hash) (account : Account) : Account :=
  { account with preimages :=
      account.preimages.insert account.codeHash (#[0] ++ (callingImage call hash).encode) }

/-- A chain with one service, which has the code and else what `account` says. -/
def callingChain (call : HostCall) (hash : Hash) (account : Account) : ChainState where
  accounts := (∅ : Accounts).insert 7 (callingAccount call hash account)

/-- The accumulation of that service in the given time slot. -/
def callingInput (timeslot : TimeSlot) : AccumulationInput where
  service := 7
  timeslot
  gas := 50

variable (call : HostCall) (hash : Hash) (account : Account) (timeslot : TimeSlot)

def callingGuest : Guest where
  machine := ⟨callingProgram call, ⟨accumulateEntry, Image.entryRegisters (callingInput timeslot).argument,
    (callingImage call hash).layout (callingInput timeslot).argument⟩, 50, {}⟩
  context := .accumulation ((callingInput timeslot).context (callingChain call hash account))

theorem size_callingArgument : (callingInput timeslot).argument.size ≤ 27 := by
  have size (value : UInt64) : (Codec.encodeNatural value).size ≤ 9 := by
    have tail := (Codec.naturalTail_spec value).1
    rw [Codec.size_encodeNatural]
    omega
  have first := size timeslot.toUInt64
  have second := size (7 : ServiceId).toUInt64
  have third := size (UInt64.ofNat 0)
  simp only [AccumulationInput.argument, callingInput, accumulateArgument, Array.size_append]
  exact Nat.add_le_add (Nat.add_le_add first second) third

theorem size_callingBlob : (callingProgram call).toBlob.size = 19 := by
  have lengths : (Codec.encodeNatural 0).size = 1 ∧ (Codec.encodeNatural 14).size = 1 := by decide +kernel
  have marks : (callingProgram call).packStarts.size = 2 := by
    simp [Program.packStarts, callingProgram, Program.ofCode]
  simp only [Program.toBlob, Array.size_append, marks]
  simp [callingProgram, Program.ofCode, Bytes.concat, lengths]

theorem callingImage_fits : (callingImage call hash).Fits where
  readOnly := by simp [callingImage, Hash.toBytes]
  readWrite := by simp [callingImage]
  heapPages := by simp [callingImage]
  stackSize := by simp [callingImage]
  blob := by simp [callingImage, size_callingBlob]

theorem callingProgram_accepted : Program.ofBlob (callingProgram call).toBlob = .ok (callingProgram call) := by
  have table : (callingProgram call).jumpTable.size =
      (callingProgram call).entries.toNat * (callingProgram call).width.toNat := by
    simp [callingProgram, Program.ofCode, Bytes.concat]
  exact (Program.Built.ofCode _ _ _ _).ofBlob_toBlob (show 14 < UInt64.size by decide) table
    (show 0 < addressSpace by decide)

theorem callingGuest_runs :
    (callingInput timeslot).guest? (callingChain call hash account) =
      some (callingGuest call hash account timeslot) := by
  have size : (callingImage call hash).encode.size = 66 := by
    simp [Image.encode, callingImage, size_callingBlob, Hash.toBytes, Codec.encodeFixed, Bytes.size_ofWord]
  have present : (callingChain call hash account).accounts[(callingInput timeslot).service]? =
      some (callingAccount call hash account) :=
    Std.TreeMap.getElem?_insert_self
  have short := size_callingArgument timeslot
  have room : 27 ≤ inputSize := by decide
  have limit : 66 ≤ maxServiceCode := by decide
  exact AccumulationInput.guest?_of_image present Std.TreeMap.getElem?_insert_self
    (callingImage_fits call hash) (by omega) (by omega) (callingProgram_accepted call) (by omega)

theorem callingGuest_self? :
    ((callingInput timeslot).context (callingChain call hash account)).current.self? =
      some (callingAccount call hash account) := by
  have present : (callingChain call hash account).accounts[(callingInput timeslot).service]? =
      some (callingAccount call hash account) := Std.TreeMap.getElem?_insert_self
  rw [← Account.credit_zero (callingAccount call hash account)]
  exact AccumulationInput.initial_self? present

/-- The processor of the guest once it has loaded the address of the hash. -/
def callingCpu (pc : UInt32) : Cpu where
  pc
  registers := (Image.entryRegisters (callingInput timeslot).argument).put Reg.r7 0x10000
  memory := (callingImage call hash).layout (callingInput timeslot).argument

/-- The machine of the guest when it makes its call. -/
def callingMachine : Machine where
  program := callingProgram call
  cpu := callingCpu call hash timeslot 12
  gas := 50 - instructionGas - instructionGas

theorem callingGuest_calls :
    (callingGuest call hash account timeslot).machine.run .perInstruction =
      (.hostCall call.id, callingMachine call hash timeslot) := by
  -- The code takes two steps up to its call: it loads the address of the hash and stops for the host.
  have loads : (callingProgram call).fetch? 5 = some ⟨.loadImm Reg.r7 0x10000, 4⟩ := by
    cases call <;> decide +kernel
  have calls : (callingProgram call).fetch? 10 = some ⟨.ecalli call.id.toUInt64, 1⟩ := by
    cases call <;> decide +kernel
  have wf := AccumulationInput.guest?_wellFormed (callingGuest_runs call hash account timeslot)
  have loaded : (callingGuest call hash account timeslot).machine.cpu.step (callingProgram call) =
      (.continue, callingCpu call hash timeslot 10) := by
    simp only [callingGuest, accumulateEntry, Cpu.step, loads, Instr.exec]
    rfl
  have called : (callingCpu call hash timeslot 10).step (callingProgram call) =
      (.hostCall call.id, callingCpu call hash timeslot 12) := by
    have number : call.id.toUInt64.toUInt32 = call.id := by simp
    simp only [callingCpu, Cpu.step, calls, Instr.exec, number]
    rfl
  have first : (callingGuest call hash account timeslot).machine.step .perInstruction =
      (.continue, ⟨callingProgram call, callingCpu call hash timeslot 10, 50 - instructionGas, {}⟩) :=
    Machine.step_perInstruction (show instructionGas ≤ 50 by decide) loaded
  have second : Machine.step ⟨callingProgram call, callingCpu call hash timeslot 10, 50 - instructionGas, {}⟩
      .perInstruction = (.hostCall call.id, callingMachine call hash timeslot) :=
    Machine.step_perInstruction (show instructionGas ≤ 50 - instructionGas by decide) called
  exact Machine.run_eq wf (.next first (.stop second (by simp)))

/-- The state in which the host serves the call. -/
def callingState : HostState :=
  let m := callingMachine call hash timeslot
  ⟨m.cpu.registers, m.cpu.memory, m.gas - call.fee m.cpu.registers,
    (callingGuest call hash account timeslot).context⟩

theorem callingGuest_asked :
    (callingGuest call hash account timeslot).asked {} call = callingState call hash account timeslot :=
  Guest.asked_of_run (callingGuest_calls call hash account timeslot) call

theorem callingGuest_nextCall? (permitted : call.permittedIn .accumulation = true)
    (fee : ∀ registers, call.fee registers = hostCallGas) :
    (callingGuest call hash account timeslot).nextCall? {} = some call := by
  refine Guest.nextCall?_of_run (callingGuest_calls call hash account timeslot) permitted ?_
  rw [fee]
  exact show hostCallGas ≤ 50 - instructionGas - instructionGas by decide

theorem callingImage_read (argument : Bytes) :
    ((callingImage call hash).layout argument).read zoneSize 32 = .ok hash.toBytes := by
  have listed : (callingImage call hash).readOnlySegment ∈ (callingImage call hash).segments argument := by
    simp only [Image.segments, List.mem_cons, true_or, or_true]
  have holds := ((callingImage_fits call hash).laidOut_layout argument).holds _ listed
  have size : hash.toBytes.size = 32 := hash.size_toArray
  have room : (callingImage call hash).readOnlySegment.stop = zoneSize + pageSize := by
    simp only [Image.readOnlySegment, callingImage, size]
    decide
  have inside : (callingImage call hash).readOnlySegment.start + 32 ≤ zoneSize + pageSize :=
    show zoneSize + 32 ≤ zoneSize + pageSize by decide
  have read := holds.read rfl (room ▸ inside) (by rw [room]; decide)
  have whole : hash.toBytes.resize 32 = hash.toBytes := by
    simp [Bytes.resize, size, Bytes.zeros]
  rw [← whole]
  exact read

theorem callingState_readHash :
    (callingState call hash account timeslot).readHash (callingState call hash account timeslot).r7 =
      .ok hash := by
  have named : (callingState call hash account timeslot).r7 = 0x10000 := by
    simp only [callingState, callingMachine, callingCpu, HostState.r7, RegFile.get_put, if_pos]
  have memory : (callingState call hash account timeslot).memory =
      (callingImage call hash).layout (callingInput timeslot).argument := by
    simp only [callingState, callingMachine, callingCpu]
  have stored : (callingState call hash account timeslot).memory.read (0x10000 : UInt64).toNat
      (32 : UInt64).toNat = .ok hash.toBytes := by
    rw [memory, show (0x10000 : UInt64).toNat = zoneSize from rfl, show (32 : UInt64).toNat = 32 from rfl]
    exact callingImage_read call hash _
  have size : hash.toBytes.size = 32 := hash.size_toArray
  rw [named, HostState.readHash, HostState.readBytes_of_read stored]
  simp only [bind, Except.bind, Hash.ofBytes?, dif_pos size]
  rfl

theorem callingState_r8 : (callingState call hash account timeslot).r8 =
    UInt64.ofNat (callingInput timeslot).argument.size := by
  simp only [callingState, callingMachine, callingCpu, HostState.r8, Image.entryRegisters, RegFile.get_put]
  rfl

/-- A call that is served leaves the guest as the host leaves it. -/
theorem callingGuest_turn (permitted : call.permittedIn .accumulation = true)
    (fee : ∀ registers, call.fee registers = hostCallGas) {s : HostState}
    (done : call.result {} (callingState call hash account timeslot) = .ok s) :
    (callingGuest call hash account timeslot).turn {} =
      (.continue, ((callingGuest call hash account timeslot).paused {}).resume s) := by
  rw [Guest.turn_of_nextCall? (callingGuest_nextCall? call hash account timeslot permitted fee),
    callingGuest_asked, done]
  rfl

theorem callingGuest_halts {s : HostState} (back : s.registers.get Reg.r0 = UInt64.ofNat haltAddress)
    (funded : instructionGas ≤ s.gas) :
    ((((callingGuest call hash account timeslot).paused {}).resume s).turn {}).1 = .halt ∧
      ((((callingGuest call hash account timeslot).paused {}).resume s).turn {}).2.context = s.context := by
  have returns : (callingProgram call).fetch? 12 = some ⟨.jumpInd Reg.r0 0, 1⟩ := by
    cases call <;> decide +kernel
  let cpu : Cpu := ⟨12, s.registers, s.memory⟩
  have resumed : ((callingGuest call hash account timeslot).paused {}).resume s =
      ⟨⟨callingProgram call, cpu, s.gas, {}⟩, s.context⟩ := by
    simp only [Guest.resume, Guest.paused, callingGuest_calls, callingMachine, callingCpu, cpu]
  have wf := AccumulationInput.guest?_wellFormed (callingGuest_runs call hash account timeslot)
  have resumedWf : Machine.WellFormed ⟨callingProgram call, cpu, s.gas, {}⟩ := ⟨wf.built, wf.short, wf.honest⟩
  have halted : cpu.step (callingProgram call) = (.halt, cpu) := by
    have jumps : (callingProgram call).dynamicJump (UInt64.ofNat haltAddress + 0) = (.halt, none) := by
      rw [Program.dynamicJump, if_pos (by decide)]
    simp only [Cpu.step, cpu, returns, Instr.exec, back, jumps, Instr.jumpEffect]
  have step := Machine.step_perInstruction (m := ⟨callingProgram call, cpu, s.gas, {}⟩) funded halted
  have run := Machine.run_eq resumedWf (.stop step (by simp))
  rw [resumed, Guest.turn_eq, run]
  exact ⟨rfl, rfl⟩

/-- The data of the accumulation are what they were before the call, or what it has made of them. -/
theorem callingGuest_contexts (permitted : call.permittedIn .accumulation = true)
    (fee : ∀ registers, call.fee registers = hostCallGas) {s : HostState}
    (done : call.result {} (callingState call hash account timeslot) = .ok s)
    (back : s.registers.get Reg.r0 = UInt64.ofNat haltAddress) (funded : instructionGas ≤ s.gas)
    {exit : Exit} {g : Guest} (reached : Guest.Reaches {} (callingGuest call hash account timeslot) exit g) :
    g.context = (callingGuest call hash account timeslot).context ∨ g.context = s.context := by
  have turn := callingGuest_turn call hash account timeslot permitted fee done
  obtain ⟨halts, left⟩ := callingGuest_halts call hash account timeslot back funded
  rcases reached.cases_head with ⟨-, rfl⟩ | ⟨-, rfl⟩ | ⟨-, later⟩
  · exact .inl rfl
  · rw [turn]
    exact .inr rfl
  · rw [turn] at later
    rcases later.cases_head with ⟨-, rfl⟩ | ⟨-, rfl⟩ | ⟨goesOn, -⟩
    · exact .inr rfl
    · exact .inr left
    · rw [halts] at goesOn
      contradiction

/-- A service that forgets a request for the hash, as long as its argument. -/
theorem callingGuest_forgets (length : UInt32) {slots : History} (forgotten : Host.Forgotten)
    (short : toUInt32? (UInt64.ofNat (callingInput timeslot).argument.size) = some length)
    (listed : account.requests[(⟨hash, length⟩ : Request)]? = some slots)
    (forgets : Host.forgetSlots? slots timeslot (Host.cutoffSlot {} timeslot) = some forgotten) :
    ((callingGuest .forget hash account timeslot).turn {}).2.context = .accumulation
      { (callingInput timeslot).context (callingChain .forget hash account) with
        current := ((callingInput timeslot).context (callingChain .forget hash account)).current.setSelf
          ((callingAccount .forget hash account).forget ⟨hash, length⟩ forgotten) } := by
  rw [← callingState_r8 .forget hash account timeslot] at short
  have done : HostCall.forget.result {} (callingState .forget hash account timeslot) = .ok _ :=
    Host.forget_ok (callingState_readHash .forget hash account timeslot) rfl
      (callingGuest_self? .forget hash account timeslot) short listed forgets
  rw [callingGuest_turn .forget hash account timeslot rfl (fun _ => rfl) done]
  rfl

/-! ## A service that creates another -/

/-- A service that can pay for another one. -/
def creator : Account where
  balance := 1000

/-- The outcome once the service has created another one. -/
def creatorOutcome : Outcome :=
  ((callingInput 5).context (callingChain .new Hash.zero creator)).current.create
    { callingAccount .new Hash.zero creator with balance := 796 } (Host.freshAccount Hash.zero 3 0 0 0 5 7)

def creatorState : HostState :=
  HostState.reply { callingState .new Hash.zero creator 5 with
    context := .accumulation
      { (callingInput 5).context (callingChain .new Hash.zero creator) with current := creatorOutcome } }
    ((callingInput 5).context (callingChain .new Hash.zero creator)).current.nextFreeId.toUInt64

theorem creator_result : HostCall.new.result {} (callingState .new Hash.zero creator 5) = .ok creatorState := by
  have short : toUInt32? (callingState .new Hash.zero creator 5).r8 = some 3 := by
    rw [callingState_r8]
    decide +kernel
  have unset : (callingState .new Hash.zero creator 5).r9 = 0 ∧
      (callingState .new Hash.zero creator 5).r10 = 0 ∧ (callingState .new Hash.zero creator 5).r11 = 0 := by
    simp only [callingState, callingMachine, callingCpu, HostState.r9, HostState.r10, HostState.r11,
      Image.entryRegisters, RegFile.get_put]
    decide
  have pays : Host.payFrom? (callingAccount .new Hash.zero creator)
      (Host.freshAccount Hash.zero 3 0 0 0 5 7).balance =
        some { callingAccount .new Hash.zero creator with balance := 796 } := by
    have deposit : (Host.freshAccount Hash.zero 3 0 0 0 5 7).balance = 204 := by decide +kernel
    have taken : deduct? (callingAccount .new Hash.zero creator).balance 204 = some 796 := by decide +kernel
    have covered : (callingAccount .new Hash.zero creator).threshold ≤ 796 := by decide +kernel
    simp only [Host.payFrom?, deposit, taken, if_pos covered]
  have done := Host.new_ok (s := callingState .new Hash.zero creator 5)
    (callingState_readHash .new Hash.zero creator 5) short rfl unset.2.2
    (callingGuest_self? .new Hash.zero creator 5) (by rw [unset.1, unset.2.1, unset.2.2]; exact pays)
  rw [unset.1, unset.2.1, unset.2.2] at done
  exact done

theorem creator_creates :
    ((callingGuest .new Hash.zero creator 5).turn {}).2.context = .accumulation
      { (callingInput 5).context (callingChain .new Hash.zero creator) with current := creatorOutcome } := by
  rw [callingGuest_turn .new Hash.zero creator 5 rfl (fun _ => rfl) creator_result]
  rfl

theorem creator_hasFreeId {exit : Exit} {g : Guest}
    (reached : Guest.Reaches {} (callingGuest .new Hash.zero creator 5) exit g) : g.context.HasFreeId := by
  have back : creatorState.registers.get Reg.r0 = UInt64.ofNat haltAddress := by decide +kernel
  rcases callingGuest_contexts .new Hash.zero creator 5 rfl (fun _ => rfl) creator_result back (by decide +kernel)
    reached with before | created
  · rw [before]
    exact ⟨65536, by decide, by decide +kernel⟩
  · rw [created]
    exact ⟨65536, by decide, by decide +kernel⟩

end ServiceVm
