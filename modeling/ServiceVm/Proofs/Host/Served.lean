import ServiceVm.Invocation.Accumulation
import ServiceVm.Proofs.Host.Output
import ServiceVm.Proofs.Result

/-!
# What host calls do to the data of an invocation

`HostContext.Served` lists the changes a successful call can make, each with what the call had
checked, and `HostCall.Answers` says what the call replies. Facts about host calls are read off these
lists, so that the calls are opened only here.
-/
namespace ServiceVm

/-! ## Successful replies -/

theorem require_ok {α : Type} {value : Option α} {refusal : Refusal} {a : α} :
    require value refusal = .ok a ↔ value = some a := by
  cases value <;> simp [require]

namespace HostState

variable {s s' : HostState}

theorem accumulation_ok {c : AccumulationContext} :
    s.accumulation = .ok c ↔ s.context = .accumulation c := by
  rw [accumulation]
  split <;> simp_all

theorem refinement_ok {otherwise : Refusal} {c : RefinementContext} :
    s.refinement otherwise = .ok c ↔ s.context = .refinement c := by
  rw [refinement]
  split <;> simp_all

theorem read_of_readBytes {start len : UInt64} {data : Bytes} (done : s.readBytes start len = .ok data) :
    s.memory.read start.toNat len.toNat = .ok data := by
  rw [readBytes] at done
  split at done
  · split at done
    · rename_i bytes read
      obtain rfl := Except.ok.inj done
      exact read
    · contradiction
  · contradiction

theorem readBytes_ok {start len : UInt64} {data : Bytes} (done : s.readBytes start len = .ok data) :
    data.size = len.toNat ∧ data.size ≤ addressSpace := by
  have size := Memory.size_of_read (read_of_readBytes done)
  obtain ⟨inRange, -⟩ := (s.memory.read_eq_ok ..).mp (read_of_readBytes done)
  exact ⟨size, by omega⟩

theorem readBytes_eq_bytesAt {start len : UInt64} {data : Bytes} (done : s.readBytes start len = .ok data) :
    data = s.memory.bytesAt start.toNat len.toNat :=
  ((s.memory.read_eq_ok ..).mp (read_of_readBytes done)).2.2

end HostState

/-! ## The changes -/

/-- Calls that only report to the guest. -/
def HostCall.observes : HostCall → Bool
  | .gas | .fetch | .lookup | .read | .info | .historicalLookup | .peek | .query | .log => true
  | _ => false

/-- The account once `key` holds `value`, or nothing. -/
def Account.write (account : Account) (key : Bytes) (value : Option Bytes) : Account :=
  { account with
    storage := match value with
      | some value => account.storage.insert key value
      | none => account.storage.erase key }

/-- The account once a request of it was forgotten. -/
def Account.forget (account : Account) (request : Request) : Host.Forgotten → Account
  | .removed => { account with
      requests := account.requests.erase request
      preimages := account.preimages.erase request.hash }
  | .kept slots => { account with requests := account.requests.insert request slots }

/-- The outcome once the service, now `payer`, has created `account`. -/
def Outcome.create (x : Outcome) (payer account : Account) : Outcome :=
  let accounts : Accounts := (x.state.accounts.insert x.service payer).insert x.nextFreeId account
  { x.setAccounts accounts with nextFreeId := accounts.nextId x.nextFreeId }

theorem Outcome.setAccounts_credit (x : Outcome) (accounts : Accounts) (amount : UInt64) :
    x.setAccounts (accounts.credit x.service amount) =
      match (x.setAccounts accounts).self? with
      | some account => (x.setAccounts accounts).setSelf (account.credit amount)
      | none => x.setAccounts accounts := by
  simp only [Accounts.credit, Outcome.self?, Outcome.setAccounts]
  cases accounts[x.service]? <;> rfl

/-- Changes that calls make to the outcome of an accumulation. -/
inductive Outcome.Served (config : Config) (timeslot : TimeSlot) (x : Outcome) :
    HostCall → Outcome → Prop where
  | write {account : Account} (key : Bytes) (value : Option Bytes) : x.self? = some account →
      account.thresholdAfterWrite key value ≤ account.balance →
      Served config timeslot x .write (x.setSelf (account.write key value))
  | new {caller payer : Account} (codeHash : Hash) (codeLength : UInt32)
      (minItemGas minMemoGas gratis : UInt64) :
      (gratis ≠ 0 → x.service = x.state.manager) → x.self? = some caller →
      Host.payFrom? caller (Host.freshAccount codeHash codeLength minItemGas minMemoGas gratis timeslot
        x.service).balance = some payer →
      Served config timeslot x .new (x.create payer
        (Host.freshAccount codeHash codeLength minItemGas minMemoGas gratis timeslot x.service))
  | upgrade {account : Account} (codeHash : Hash) (minItemGas minMemoGas : UInt64) :
      x.self? = some account →
      Served config timeslot x .upgrade (x.setSelf { account with codeHash, minItemGas, minMemoGas })
  | transfer {sender payer receiver : Account} (deferred : Transfer) : deferred.source = x.service →
      x.state.accounts[deferred.destination]? = some receiver →
      receiver.minMemoGas ≤ deferred.gasLimit → x.self? = some sender →
      Host.payFrom? sender deferred.amount = some payer →
      Served config timeslot x .transfer
        { x.setSelf payer with transfers := x.transfers.push deferred }
  | eject {account : Account} {slots : History} (target : ServiceId) (request : Request) :
      target ≠ x.service → x.state.accounts[target]? = some account →
      account.codeHash.toBytes = Bytes.ofWord x.service.toUInt64 32 →
      toUInt32? (UInt64.ofNat (account.octets - requestOctets)) = some request.length →
      account.requests[request]? = some slots → account.items = 2 →
      Host.isExpired slots (Host.cutoffSlot config timeslot) = true →
      Served config timeslot x .eject
        (x.setAccounts (Accounts.credit (x.state.accounts.erase target) x.service account.balance))
  | solicit {account : Account} (request : Request) : x.self? = some account →
      account.requests[request]? = none →
      account.thresholdAfterRequest request.length ≤ account.balance →
      Served config timeslot x .solicit
        (x.setSelf { account with requests := account.requests.insert request [] })
  | resolicit {account : Account} (request : Request) (first second : TimeSlot) :
      x.self? = some account → account.requests[request]? = some [first, second] →
      account.threshold ≤ account.balance →
      Served config timeslot x .solicit
        (x.setSelf { account with requests := account.requests.insert request [first, second, timeslot] })
  | forget {account : Account} {slots : History} {forgotten : Host.Forgotten} (request : Request) :
      x.self? = some account → account.requests[request]? = some slots →
      Host.forgetSlots? slots timeslot (Host.cutoffSlot config timeslot) = some forgotten →
      Served config timeslot x .forget (x.setSelf (account.forget request forgotten))
  | yield (hash : Hash) : Served config timeslot x .yield { x with yielded := some hash }
  | provide {account : Account} (provision : Provision) :
      x.state.accounts[provision.service]? = some account →
      Host.awaits account provision.preimage = true → x.provisions.contains provision = false →
      Served config timeslot x .provide { x with provisions := x.provisions.insert provision }
  | bless (manager delegator : ServiceId) (assigners : Array ServiceId)
      (alwaysAccumulate : Std.TreeMap ServiceId UInt64) : x.service = x.state.manager →
      Served config timeslot x .bless
        { x with state := { x.state with manager, delegator, assigners, alwaysAccumulate } }
  | assign (core : Nat) (queue : Array Hash) (assigner : ServiceId) :
      core < config.params.cores.toNat → x.state.assigners[core]? = some x.service →
      Served config timeslot x .assign { x with state := { x.state with
        authQueue := Host.setQueue x.state.authQueue core queue
        assigners := x.state.assigners.setIfInBounds core assigner } }
  | designate (stagingSet : Array ValidatorKey) : x.service = x.state.delegator →
      Served config timeslot x .designate { x with state := { x.state with stagingSet } }

/-- Changes that calls make to the data of an accumulation. -/
inductive AccumulationContext.Served (config : Config) (c : AccumulationContext) (call : HostCall) :
    AccumulationContext → Prop where
  | checkpoint : call = .checkpoint → Served config c call { c with checkpoint := c.current }
  | current {x : Outcome} : c.current.Served config c.timeslot call x →
      Served config c call { c with current := x }

/-- Changes that calls make to the data of a receipt of transfers. -/
inductive TransferContext.Served (c : TransferContext) (call : HostCall) : TransferContext → Prop where
  | write {account : Account} (key : Bytes) (value : Option Bytes) : call = .write →
      c.accounts[c.service]? = some account →
      account.thresholdAfterWrite key value ≤ account.balance →
      Served c call { c with accounts := c.accounts.insert c.service (account.write key value) }

/-- Changes that calls make to the data of a refinement. -/
inductive RefinementContext.Served (config : Config) (c : RefinementContext) :
    HostCall → RefinementContext → Prop where
  | exportSegment (segment : Bytes) : segment.size ≤ segmentSize →
      c.exportOffset + UInt64.ofNat c.exports.size < UInt64.ofNat maxPackageExports →
      Served config c .exportSegment { c with exports := c.exports.push (segment.resize segmentSize) }
  | machine {program : Program} (blob : Bytes) (pc : UInt32) : blob.size ≤ addressSpace →
      Program.ofBlob blob = .ok program →
      Served config c .machine
        { c with machines := c.machines.insert (unusedHandle c.machines) { program, pc } }
  | poke {n : NestedMachine} (handle start : UInt64) (data : Bytes) : c.machines[handle]? = some n →
      n.memory.isWriteable start.toNat data.size = true →
      Served config c .poke
        { c with machines := c.machines.insert handle { n with memory := n.memory.write start.toNat data } }
  | pages {n : NestedMachine} {access : Access} {zero : Bool} (handle first count mode : UInt64) :
      c.machines[handle]? = some n → Host.pageMode? mode = some (access, zero) →
      firstMutablePage ≤ first.toNat → first.toNat + count.toNat < pageCount →
      (zero = false → n.memory.refusedPage? Access.isReadable count.toNat first.toNat = none) →
      Served config c .pages
        { c with machines := c.machines.insert handle
                  { n with memory := n.memory.setPages first.toNat count.toNat access zero } }
  | invoke {n : NestedMachine} (handle gas : UInt64) (registers : Registers) :
      c.machines[handle]? = some n →
      Served config c .invoke
        { c with machines := c.machines.insert handle
                  (NestedMachine.ofMachine (n.run config gas registers).2) }
  | expunge {n : NestedMachine} (handle : UInt64) : c.machines[handle]? = some n →
      Served config c .expunge { c with machines := c.machines.erase handle }

/-- What has become of the data of an invocation once a call has succeeded. -/
inductive HostContext.Served (config : Config) (call : HostCall) : HostContext → HostContext → Prop where
  | observed {c : HostContext} : call.observes = true → Served config call c c
  | refinement {c c' : RefinementContext} : c.Served config call c' →
      Served config call (.refinement c) (.refinement c')
  | accumulation {c c' : AccumulationContext} : c.Served config call c' →
      Served config call (.accumulation c) (.accumulation c')
  | transfer {c c' : TransferContext} : c.Served call c' →
      Served config call (.transfer c) (.transfer c')

/-- A call leaves an accumulation one, with its time slot. It makes one of the listed changes to the
outcome, or none, and only a checkpoint changes the other outcome. -/
theorem HostContext.Served.of_accumulation {config : Config} {call : HostCall} {c : AccumulationContext}
    {next : HostContext} (served : (HostContext.accumulation c).Served config call next) :
    ∃ c', next = .accumulation c' ∧ c'.timeslot = c.timeslot ∧
      (call ≠ .checkpoint → c'.checkpoint = c.checkpoint) ∧
      (c'.current = c.current ∨ c.current.Served config c.timeslot call c'.current) := by
  cases served with
  | observed => exact ⟨c, rfl, rfl, fun _ => rfl, .inl rfl⟩
  | accumulation change =>
    cases change with
    | checkpoint same => exact ⟨_, rfl, rfl, fun other => absurd same other, .inl rfl⟩
    | current change => exact ⟨_, rfl, rfl, fun _ => rfl, .inr change⟩

/-- What a call that succeeds in state `s` may reply. -/
def HostCall.Answers (call : HostCall) (config : Config) (s : HostState) (answer : UInt64) : Prop :=
  match call with
  | .gas | .checkpoint => answer = s.gas
  | .log => answer = s.r7
  | .fetch => ∃ value, s.context.fetch? config.params s.r10.toNat s.r11.toNat s.r12.toNat = some value ∧
      answer = UInt64.ofNat value.size
  | .lookup => ∃ (account : Account) (hash : Hash) (value : Bytes), s.context.resolve? s.r7 = some account ∧
      account.preimages[hash]? = some value ∧ answer = UInt64.ofNat value.size
  | .read => ∃ (account : Account) (key value : Bytes), s.context.resolve? s.r7 = some account ∧
      account.storage[key]? = some value ∧ answer = UInt64.ofNat value.size
  | .info => ∃ account : Account, answer = UInt64.ofNat account.encodeInfo.size
  | .historicalLookup => ∃ (c : RefinementContext) (account : Account) (hash : Hash) (value : Bytes),
      s.context = .refinement c ∧ c.accounts.resolve? s.r7 c.service = some account ∧
      account.lookupAt? c.lookupSlot hash = some value ∧ answer = UInt64.ofNat value.size
  | .write => answer = Refusal.none.code ∨
      ∃ (service : ServiceId) (accounts : Accounts) (account : Account) (key previous : Bytes),
        s.context.accounts? = some accounts ∧ accounts[service]? = some account ∧
        account.storage[key]? = some previous ∧ answer = UInt64.ofNat previous.size
  | .exportSegment => answer < UInt64.ofNat maxPackageExports
  | .machine => ∃ c, s.context = .refinement c ∧ answer = unusedHandle c.machines
  | .invoke => ∃ exit : Exit, answer = exit.status.1
  | .expunge => ∃ pc : UInt32, answer = pc.toUInt64
  | .new => ∃ id : ServiceId, answer = id.toUInt64
  | .query => answer = Refusal.none.code ∨
      ∃ (slots : History) (packed : UInt64 × UInt64), Host.packHistory? slots = some packed ∧
        answer = packed.1
  | _ => answer = replyOk

/-- What a successful call leaves: the data of the invocation and the memory of the guest changed as
listed, the gas, and a reply. -/
structure HostState.Served (config : Config) (call : HostCall) (s s' : HostState) : Prop where
  context : s.context.Served config call s'.context
  gas : s'.gas = s.gas
  answer : call.Answers config s s'.r7
  memory : s.Wrote config call s'.memory

namespace Host

open HostAction

variable {config : Config} {s s' : HostState}

/-! ## Calls that report -/

theorem served_of_frame {call : HostCall} (observes : call.observes = true)
    (context : s'.context = s.context) (gas : s'.gas = s.gas) (answer : call.Answers config s s'.r7)
    (memory : s.Wrote config call s'.memory) : s.Served config call s' :=
  ⟨by rw [context]; exact .observed observes, gas, answer, memory⟩

theorem answers_of_reports {call : HostCall} {slice : Slice} (reports : call.Reports config s slice) :
    call.Answers config s (UInt64.ofNat slice.value.size) := by
  cases reports with
  | fetch found => exact ⟨_, found, rfl⟩
  | lookup known _ found => exact ⟨_, _, _, known, found, rfl⟩
  | read _ known found => exact ⟨_, _, _, known, found, rfl⟩
  | info _ => exact ⟨_, rfl⟩
  | historicalLookup _ held known found => exact ⟨_, _, _, _, held, known, found, rfl⟩

theorem reports_of_ok {call : HostCall} (reports : call ∈ HostCall.reporting)
    (done : call.result config s = .ok s') :
    ∃ slice, call.Reports config s slice ∧
      (writeSlice slice.value slice.output slice.offset slice.len).perform s = .ok s' := by
  simp only [HostCall.reporting, List.mem_cons, List.not_mem_nil, or_false] at reports
  rcases reports with rfl | rfl | rfl | rfl | rfl
  · simp only [HostCall.result, HostCall.action, fetch, perform_get] at done
    obtain ⟨value, found, written⟩ := HostState.writeSlice?_ok done
    exact ⟨_, .fetch found, written⟩
  · simp only [HostCall.result, HostCall.action, lookup, perform_get, perform_lift_eq_ok, require_ok] at done
    obtain ⟨account, known, hash, named, done⟩ := done
    obtain ⟨value, found, written⟩ := HostState.writeSlice?_ok done
    exact ⟨_, .lookup known named found, written⟩
  · simp only [HostCall.result, HostCall.action, read, perform_get, perform_lift_eq_ok, require_ok] at done
    obtain ⟨key, named, account, known, done⟩ := done
    obtain ⟨value, found, written⟩ := HostState.writeSlice?_ok done
    exact ⟨_, .read named known found, written⟩
  · simp only [HostCall.result, HostCall.action, info, perform_get] at done
    obtain ⟨value, found, written⟩ := HostState.writeSlice?_ok done
    obtain ⟨account, known, rfl⟩ := Option.map_eq_some_iff.mp found
    exact ⟨_, .info known, written⟩
  · simp only [HostCall.result, HostCall.action, historicalLookup, perform_get, perform_lift_eq_ok, require_ok,
      HostState.refinement_ok] at done
    obtain ⟨hash, named, c, held, account, known, done⟩ := done
    obtain ⟨value, found, written⟩ := HostState.writeSlice?_ok done
    exact ⟨_, .historicalLookup named held known found, written⟩

theorem served_of_reporting {call : HostCall} (reporting : call ∈ HostCall.reporting)
    (observes : call.observes = true) (done : call.result config s = .ok s') : s.Served config call s' := by
  obtain ⟨slice, reports, written⟩ := reports_of_ok reporting done
  obtain ⟨context, gas, told, memory⟩ := HostState.writeSlice_ok reports written
  exact served_of_frame observes context gas (told ▸ answers_of_reports reports) memory

theorem observed {call : HostCall} (observes : call.observes = true)
    (done : call.result config s = .ok s') : s.Served config call s' := by
  cases call with
  | fetch | lookup | read | info | historicalLookup =>
    exact served_of_reporting (by simp [HostCall.reporting]) rfl done
  | gas =>
    obtain rfl := perform_reply_eq_ok.mp done
    exact served_of_frame rfl rfl rfl (HostState.r7_reply ..) .nothing
  | log =>
    obtain rfl := HostResult.ok.inj done
    exact served_of_frame rfl rfl rfl rfl .nothing
  | query =>
    simp only [HostCall.result, HostCall.action, query, perform_get, perform_lift_eq_ok,
      perform_modify, perform_reply_eq_ok] at done
    obtain ⟨hash, -, c, -, rfl⟩ := done
    refine served_of_frame rfl rfl rfl ?_ .nothing
    rw [HostState.r7_reply]
    cases found : (requestHistory? c.current hash s.r8).bind packHistory? with
    | none => exact .inl rfl
    | some packed =>
      obtain ⟨slots, -, packs⟩ := Option.bind_eq_some_iff.mp found
      exact .inr ⟨slots, packed, packs, rfl⟩
  | peek =>
    simp only [HostCall.result, HostCall.action, peek, perform_get, perform_lift_eq_ok,
      perform_guard_eq_ok] at done
    obtain ⟨writeable, _, -, n, -, -, done⟩ := done
    split at done
    · exact (perform_throw_eq_ok.mp done).elim
    · rename_i data read
      simp only [perform_writeMemory, perform_reply_eq_ok] at done
      obtain rfl := done
      have size : data.size = s.r10.toNat := Memory.size_of_read read
      refine served_of_frame rfl rfl rfl (HostState.r7_reply ..) (.bytes data ?_ ?_)
      · rw [size]
        exact .peek
      · simpa [size] using writeable
  | _ => contradiction

/-! ## Calls of accumulations -/

theorem served_of_current {call : HostCall} {c : AccumulationContext} {change : Outcome → Outcome}
    {answer : UInt64} (found : s.context = .accumulation c) (answers : call.Answers config s answer)
    (changed : c.current.Served config c.timeslot call (change c.current)) :
    s.Served config call ((s.mapCurrent change).reply answer) := by
  rw [HostState.mapCurrent_eq found]
  exact ⟨by rw [found]; exact .accumulation (.current changed), rfl, by rw [HostState.r7_reply]; exact answers,
    .nothing⟩

theorem checkpoint_served (done : checkpoint.perform s = .ok s') : s.Served config .checkpoint s' := by
  simp only [checkpoint, perform_get, perform_lift_eq_ok, perform_modify, perform_reply_eq_ok,
    HostState.accumulation_ok] at done
  obtain ⟨c, found, rfl⟩ := done
  exact ⟨by rw [found]; exact .accumulation (.checkpoint rfl), rfl, HostState.r7_reply .., .nothing⟩

theorem new_served (done : new.perform s = .ok s') : s.Served config .new s' := by
  simp only [new, perform_get, perform_lift_eq_ok, perform_guard_eq_ok, perform_updateSelf,
    perform_updateCurrent, perform_reply_eq_ok, require_ok, HostState.accumulation_ok,
    HostState.mapCurrent_mapCurrent] at done
  obtain ⟨codeHash, -, codeLength, -, c, found, privileged, caller, self, payer, pays, rfl⟩ := done
  refine served_of_current found ⟨_, rfl⟩ (.new codeHash codeLength _ _ _ ?_ self pays)
  intro gratis
  exact Classical.not_not.mp fun other => privileged ⟨gratis, other⟩

theorem upgrade_served (done : upgrade.perform s = .ok s') : s.Served config .upgrade s' := by
  simp only [upgrade, perform_get, perform_lift_eq_ok, perform_updateSelf, perform_reply_eq_ok, require_ok,
    HostState.accumulation_ok] at done
  obtain ⟨codeHash, -, c, found, account, self, rfl⟩ := done
  exact served_of_current found rfl (.upgrade codeHash _ _ self)

theorem transfer_served (done : transfer.perform s = .ok s') : s.Served config .transfer s' := by
  simp only [transfer, perform_get, perform_lift_eq_ok, perform_guard_eq_ok, perform_updateSelf,
    perform_updateCurrent, perform_reply_eq_ok, require_ok, HostState.accumulation_ok,
    HostState.mapCurrent_mapCurrent] at done
  obtain ⟨memo, -, c, found, destination, -, receiver, known, paysGas, sender, self, payer, pays, rfl⟩ :=
    done
  exact served_of_current found rfl
    (.transfer ⟨_, destination, _, memo, _⟩ rfl known (UInt64.not_lt.mp paysGas) self pays)

theorem eject_served (done : (eject config).perform s = .ok s') : s.Served config .eject s' := by
  simp only [eject, perform_get, perform_lift_eq_ok, perform_guard_eq_ok, perform_updateCurrent,
    perform_reply_eq_ok, require_ok, HostState.accumulation_ok, HostState.mapCurrent_mapCurrent] at done
  obtain ⟨hash, -, c, found, target, -, other, account, known, handedOver, length, octets, slots, requested,
    fit, rfl⟩ := done
  obtain ⟨items, expired⟩ := not_or.mp fit
  have change := Outcome.Served.eject target ⟨hash, length⟩ other known (Classical.not_not.mp handedOver) octets
    requested (Classical.not_not.mp items) (by simpa using expired)
  rw [Outcome.setAccounts_credit] at change
  exact served_of_current found rfl change

theorem solicit_served (done : solicit.perform s = .ok s') : s.Served config .solicit s' := by
  simp only [solicit, perform_get, perform_lift_eq_ok, require_ok, HostState.accumulation_ok] at done
  obtain ⟨hash, -, length, -, c, found, account, self, done⟩ := done
  split at done
  · rename_i absent
    simp only [perform_guard_eq_ok, perform_updateSelf, perform_reply_eq_ok] at done
    obtain ⟨covered, rfl⟩ := done
    exact served_of_current found rfl (.solicit ⟨hash, length⟩ self absent (UInt64.not_lt.mp covered))
  · rename_i first second withdrawn
    simp only [perform_guard_eq_ok, perform_updateSelf, perform_reply_eq_ok] at done
    obtain ⟨covered, rfl⟩ := done
    exact served_of_current found rfl
      (.resolicit ⟨hash, length⟩ first second self withdrawn (UInt64.not_lt.mp covered))
  · exact (perform_throw_eq_ok.mp done).elim

theorem forget_served (done : (forget config).perform s = .ok s') : s.Served config .forget s' := by
  simp only [forget, perform_get, perform_lift_eq_ok, perform_updateSelf, perform_reply_eq_ok, require_ok,
    HostState.accumulation_ok] at done
  obtain ⟨hash, -, c, found, account, self, length, -, slots, requested, forgotten, allowed, rfl⟩ := done
  have change := Outcome.Served.forget ⟨hash, length⟩ self requested allowed
  cases forgotten with
  | removed => exact served_of_current found rfl change
  | kept slots => exact served_of_current found rfl change

theorem yield_served (done : Host.yield.perform s = .ok s') : s.Served config .yield s' := by
  simp only [Host.yield, perform_get, perform_lift_eq_ok, perform_updateCurrent, perform_reply_eq_ok,
    HostState.accumulation_ok] at done
  obtain ⟨hash, -, c, found, rfl⟩ := done
  exact served_of_current found rfl (.yield hash)

theorem provide_served (done : provide.perform s = .ok s') : s.Served config .provide s' := by
  simp only [provide, perform_get, perform_lift_eq_ok, perform_guard_eq_ok, perform_updateCurrent,
    perform_reply_eq_ok, require_ok, HostState.accumulation_ok] at done
  obtain ⟨preimage, -, c, found, service, -, account, known, awaited, unprovided, rfl⟩ := done
  exact served_of_current found rfl
    (.provide ⟨service, preimage⟩ known (by simpa using awaited)
      (Bool.not_eq_true _ ▸ unprovided))

theorem bless_served (done : (bless config).perform s = .ok s') : s.Served config .bless s' := by
  simp only [bless, perform_get, perform_lift_eq_ok, perform_guard_eq_ok, perform_updateCurrent,
    perform_reply_eq_ok, require_ok, HostState.accumulation_ok] at done
  obtain ⟨assigners, -, -, always, -, c, found, privileged, manager, -, delegator, -, -, -, rfl⟩ := done
  exact served_of_current found rfl (.bless manager delegator _ _ (Classical.not_not.mp privileged))

theorem assign_served (done : (assign config).perform s = .ok s') : s.Served config .assign s' := by
  simp only [assign, perform_get, perform_lift_eq_ok, perform_guard_eq_ok, perform_updateCurrent,
    perform_reply_eq_ok, require_ok, HostState.accumulation_ok, HostState.mapCurrent_mapCurrent] at done
  obtain ⟨queue, -, c, found, known, privileged, assigner, -, rfl⟩ := done
  exact served_of_current found rfl
    (.assign _ _ assigner (Nat.not_le.mp known) (Classical.not_not.mp privileged))

theorem designate_served (done : (designate config).perform s = .ok s') : s.Served config .designate s' := by
  simp only [designate, perform_get, perform_lift_eq_ok, perform_guard_eq_ok, perform_updateCurrent,
    perform_reply_eq_ok, HostState.accumulation_ok] at done
  obtain ⟨keys, -, c, found, privileged, rfl⟩ := done
  exact served_of_current found rfl (.designate _ (Classical.not_not.mp privileged))

/-! ## Calls of refinements -/

theorem served_of_refinement {call : HostCall} {c c' : RefinementContext}
    (found : s.context = .refinement c) (after : s'.context = .refinement c') (gas : s'.gas = s.gas)
    (answer : call.Answers config s s'.r7) (memory : s.Wrote config call s'.memory)
    (change : c.Served config call c') : s.Served config call s' :=
  ⟨by rw [found, after]; exact .refinement change, gas, answer, memory⟩

theorem exportSegment_served (done : exportSegment.perform s = .ok s') :
    s.Served config .exportSegment s' := by
  simp only [exportSegment, perform_get, perform_lift_eq_ok, perform_guard_eq_ok, perform_updateRefinement,
    perform_reply_eq_ok, HostState.refinement_ok] at done
  obtain ⟨segment, read, c, found, room, rfl⟩ := done
  have size : segment.size ≤ segmentSize := by
    rw [(HostState.readBytes_ok read).1]
    exact UInt64.le_iff_toNat_le.mp (Std.min_le_right (a := s.r8) (b := UInt64.ofNat segmentSize))
  have free := UInt64.not_le.mp room
  rw [HostState.mapRefinement_eq found]
  refine served_of_refinement found rfl rfl ?_ .nothing (.exportSegment segment size free)
  rw [HostState.r7_reply]
  exact free

theorem machine_served (done : machine.perform s = .ok s') : s.Served config .machine s' := by
  simp only [machine, perform_get, perform_lift_eq_ok] at done
  obtain ⟨blob, read, done⟩ := done
  split at done
  · exact (perform_throw_eq_ok.mp done).elim
  · rename_i program accepted
    simp only [perform_lift_eq_ok, perform_updateRefinement, perform_reply_eq_ok,
      HostState.refinement_ok] at done
    obtain ⟨c, found, rfl⟩ := done
    rw [HostState.mapRefinement_eq found]
    exact served_of_refinement found rfl rfl ⟨c, found, HostState.r7_reply ..⟩ .nothing
      (.machine blob _ (HostState.readBytes_ok read).2 accepted)

theorem poke_ok (done : poke.perform s = .ok s') :
    ∃ data c n, s.readBytes s.r8 s.r10 = .ok data ∧ s.context = .refinement c ∧
      c.machines[s.r7]? = some n ∧ n.memory.isWriteable s.r9.toNat data.size = true ∧
      s' = ({ s with context := .refinement { c with
        machines := c.machines.insert s.r7 { n with memory := n.memory.write s.r9.toNat data } } } :
          HostState).reply replyOk := by
  simp only [poke, perform_get, perform_lift_eq_ok, perform_guard_eq_ok, perform_updateRefinement,
    perform_reply_eq_ok, require_ok, HostState.refinement_ok] at done
  obtain ⟨data, read, c, found, n, named, writeable, rfl⟩ := done
  rw [← (HostState.readBytes_ok read).1] at writeable
  rw [HostState.mapRefinement_eq found]
  exact ⟨data, c, n, read, found, named, by simpa using writeable, rfl⟩

theorem poke_served (done : poke.perform s = .ok s') : s.Served config .poke s' := by
  obtain ⟨data, c, n, -, found, named, writeable, rfl⟩ := poke_ok done
  exact served_of_refinement found rfl rfl (HostState.r7_reply ..) .nothing
    (.poke _ _ data named writeable)

theorem pages_served (done : pages.perform s = .ok s') : s.Served config .pages s' := by
  simp only [pages, perform_get, perform_lift_eq_ok, perform_guard_eq_ok, perform_updateRefinement,
    perform_reply_eq_ok, require_ok, HostState.refinement_ok] at done
  obtain ⟨c, found, n, named, ⟨access, zero⟩, mode, range, accessible, rfl⟩ := done
  obtain ⟨low, high⟩ := not_or.mp range
  rw [HostState.mapRefinement_eq found]
  refine served_of_refinement found rfl rfl (HostState.r7_reply ..) .nothing
    (.pages _ _ _ _ named mode (Nat.not_lt.mp low) (Nat.not_le.mp high) ?_)
  rintro rfl
  simpa using accessible

theorem invoke_served (done : (invoke config).perform s = .ok s') : s.Served config .invoke s' := by
  simp only [invoke, perform_get, perform_guard_eq_ok] at done
  obtain ⟨writeable, done⟩ := done
  split at done
  · exact (perform_throw_eq_ok.mp done).elim
  · simp only [perform_lift_eq_ok, perform_updateRefinement, perform_writeMemory, perform_modify,
      perform_reply_eq_ok, require_ok, HostState.refinement_ok] at done
    obtain ⟨c, found, n, named, rfl⟩ := done
    rw [HostState.mapRefinement_eq found]
    refine served_of_refinement found (HostState.putExtra_context ..) (HostState.putExtra_gas ..)
      ⟨_, HostState.r7_reply ..⟩ ?_ (.invoke _ _ _ named)
    simp only [HostState.reply, HostState.putExtra_memory]
    refine .bytes _ ?_ ?_
    · rw [InvokeBlock.size_encode]
      exact .invoke
    · rw [InvokeBlock.size_encode]
      simpa using writeable

theorem expunge_served (done : expunge.perform s = .ok s') : s.Served config .expunge s' := by
  simp only [expunge, perform_get, perform_lift_eq_ok, perform_updateRefinement, perform_reply_eq_ok,
    require_ok, HostState.refinement_ok] at done
  obtain ⟨c, found, n, named, rfl⟩ := done
  rw [HostState.mapRefinement_eq found]
  exact served_of_refinement found rfl rfl ⟨_, HostState.r7_reply ..⟩ .nothing (.expunge _ named)

/-! ## All calls -/

theorem write_served (permitted : HostCall.write.permittedIn s.context.kind = true)
    (done : write.perform s = .ok s') : s.Served config .write s' := by
  simp only [write, perform_get, perform_lift_eq_ok, perform_guard_eq_ok, perform_modify,
    perform_reply_eq_ok, require_ok] at done
  obtain ⟨key, -, value, -, service, caller, accounts, seen, account, known, covered, rfl⟩ := done
  have enough := UInt64.not_lt.mp covered
  refine ⟨?_, rfl, ?_, .nothing⟩
  · simp only [HostState.reply]
    cases held : s.context with
    | authorization c => simp [held, HostCall.permittedIn, HostContext.kind] at permitted
    | refinement c => simp [held, HostCall.permittedIn, HostContext.kind] at permitted
    | accumulation c =>
      rw [held] at caller seen
      obtain rfl := Option.some.inj caller
      obtain rfl := Option.some.inj seen
      exact .accumulation (.current (.write key value known enough))
    | transfer c =>
      rw [held] at caller seen
      obtain rfl := Option.some.inj caller
      obtain rfl := Option.some.inj seen
      exact .transfer (.write key value rfl known enough)
  · rw [HostState.r7_reply]
    cases stored : account.storage[key]? with
    | none => exact .inl rfl
    | some previous => exact .inr ⟨service, accounts, account, key, previous, seen, known, stored, rfl⟩

/-- A call that a guest may make and that succeeds makes one of the listed changes. -/
theorem served {call : HostCall} (permitted : call.permittedIn s.context.kind = true)
    (done : call.result config s = .ok s') : s.Served config call s' := by
  cases call with
  | write => exact write_served permitted done
  | exportSegment => exact exportSegment_served done
  | machine => exact machine_served done
  | poke => exact poke_served done
  | pages => exact pages_served done
  | invoke => exact invoke_served done
  | expunge => exact expunge_served done
  | bless => exact bless_served done
  | assign => exact assign_served done
  | designate => exact designate_served done
  | checkpoint => exact checkpoint_served done
  | new => exact new_served done
  | upgrade => exact upgrade_served done
  | transfer => exact transfer_served done
  | eject => exact eject_served done
  | solicit => exact solicit_served done
  | forget => exact forget_served done
  | yield => exact yield_served done
  | provide => exact provide_served done
  | _ => exact observed rfl done

end Host

end ServiceVm
