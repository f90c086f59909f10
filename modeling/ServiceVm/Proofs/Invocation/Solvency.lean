import ServiceVm.Proofs.Invocation.CallingService
import ServiceVm.Proofs.Service.Deposit

/-!
# Deposits stay covered

Every call that takes from a balance, or stores more, compares the balance with the deposit of the
account it leaves. So no sequence of calls makes a solvent account insolvent, neither in the outcome
a guest works on nor in its checkpoint.
-/
namespace ServiceVm

namespace Outcome

/-- Every account of the outcome is solvent. -/
def Solvent (x : Outcome) : Prop := x.state.accounts.Solvent

variable {config : Config} {timeslot : TimeSlot} {call : HostCall} {x x' : Outcome}

theorem Solvent.self (solvent : x.Solvent) {account : Account} (self : x.self? = some account) :
    account.Solvent := solvent x.service account self

theorem Solvent.setSelf (solvent : x.Solvent) {account : Account} (covered : account.Solvent) :
    (x.setSelf account).Solvent := Accounts.Solvent.insert solvent covered

theorem Served.solvent (served : x.Served config timeslot call x') (solvent : x.Solvent) :
    x'.Solvent := by
  cases served with
  | write key value self covered => exact solvent.setSelf (.write covered)
  | new codeHash codeLength minItemGas minMemoGas gratis _ self pays =>
    exact (Accounts.Solvent.insert solvent (.payFrom pays)).insert (.freshAccount ..)
  | upgrade codeHash minItemGas minMemoGas self =>
    have covered := solvent.self self
    exact solvent.setSelf covered
  | transfer deferred source known paysGas self pays => exact solvent.setSelf (.payFrom pays)
  | eject target request => exact (Accounts.Solvent.erase solvent target).credit x.service _
  | solicit request self absent covered => exact solvent.setSelf (.request [] absent covered)
  | resolicit request first second self found =>
    exact solvent.setSelf ((solvent.self self).reset _ found)
  | forget request self found => exact solvent.setSelf ((solvent.self self).forget found _)
  | yield => exact solvent
  | provide => exact solvent
  | bless => exact solvent
  | assign => exact solvent
  | designate => exact solvent

end Outcome

theorem TransferContext.Served.solvent {call : HostCall} {c c' : TransferContext}
    (served : c.Served call c') (solvent : c.accounts.Solvent) : c'.accounts.Solvent := by
  obtain ⟨key, value, -, self, covered⟩ := served
  exact solvent.insert (.write covered)

theorem AccumulationInput.reaches_solvent {config : Config} {state : ChainState}
    {input : AccumulationInput} {g g' : Guest} {exit : Exit} (solvent : state.accounts.Solvent)
    (runs : input.guest? state = some g) (reached : Guest.Reaches config g exit g') :
    g'.context.BothOutcomes Outcome.Solvent := by
  have initial : (input.initial state).Solvent := solvent.credit _ _
  refine reached.bothOutcomes (Q := fun _ => True) ?_ (fun served kept _ => served.solvent kept)
    fun _ _ => trivial
  rw [AccumulationInput.guest?_context runs]
  exact .accumulation initial initial

theorem transferGuest?_solvent {config : Config} {accounts : Accounts} {service : ServiceId}
    {timeslot : TimeSlot} {entropy : Hash} {transfers : Array Transfer} {g g' : Guest} {exit : Exit}
    (solvent : accounts.Solvent)
    (runs : transferGuest? accounts service timeslot entropy transfers = some g)
    (reached : Guest.Reaches config g exit g') : g'.context.ReceiptAccounts Accounts.Solvent := by
  refine reached.receiptAccounts ?_ TransferContext.Served.solvent
  rw [transferGuest?_context runs]
  exact .transfer (solvent.credit _ _)

/-- The deposits that calls predict are exact, and no run makes an account insolvent: after any calls of
an accumulation or a receipt of transfers every account is solvent if all were at first, those of
the checkpoint included, and so is every account of the result. -/
theorem deposits_stay_covered (config : Config) :
    (∀ (account : Account) (key : Bytes) (value : Option Bytes),
      account.thresholdAfterWrite key value = (account.write key value).threshold) ∧
    (∀ (account : Account) (request : Request) (slots : History), account.requests[request]? = none →
      account.thresholdAfterRequest request.length =
        ({ account with requests := account.requests.insert request slots } : Account).threshold) ∧
    (∀ (state : ChainState) (input : AccumulationInput), state.accounts.Solvent →
      (∀ g exit g', input.guest? state = some g → Guest.Reaches config g exit g' →
        g'.context.BothOutcomes Outcome.Solvent) ∧
      (accumulate config state input).outcome.Solvent) ∧
    ∀ (accounts : Accounts) (service : ServiceId) (timeslot : TimeSlot) (entropy : Hash)
      (transfers : Array Transfer), accounts.Solvent →
      (∀ g exit g', transferGuest? accounts service timeslot entropy transfers = some g →
        Guest.Reaches config g exit g' → g'.context.ReceiptAccounts Accounts.Solvent) ∧
      (receiveTransfers config accounts service timeslot entropy transfers).1.Solvent := by
  refine ⟨Account.thresholdAfterWrite_eq, ?_, ?_, ?_⟩
  · intro account request slots absent
    exact account.thresholdAfterRequest_eq slots absent
  · intro state input solvent
    refine ⟨fun g exit g' runs reached => AccumulationInput.reaches_solvent solvent runs reached, ?_⟩
    refine accumulate_of_bothOutcomes config (fun x yielded same => same) (solvent.credit _ _) ?_
    intro g runs
    exact AccumulationInput.reaches_solvent solvent runs (g.run_reaches config)
  · intro accounts service timeslot entropy transfers solvent
    refine ⟨fun g exit g' runs reached => transferGuest?_solvent solvent runs reached, ?_⟩
    refine receiveTransfers_of_receiptAccounts config solvent (solvent.credit _ _) ?_
    intro g runs
    exact transferGuest?_solvent solvent runs (g.run_reaches config)

def storingProgram : Program :=
  .ofCode #[0, 0, 0, 0, 0, 0, 0, 0, 0, 0, 100, 121, 100, 138, 51, 8, 10, 4, 50, 0]
    #[true, true, true, true, true, true, true, true, true, true, true, false, true, false, true, false, true,
      false, true, false] #[] 0

def storingImage : Image where
  readOnly := #[]
  readWrite := #[]
  heapPages := 0
  stackSize := 0
  blob := #[0, 0, 20, 0, 0, 0, 0, 0, 0, 0, 0, 0, 0, 100, 121, 100, 138, 51, 8, 10, 4, 50, 0, 255, 87, 5]

/-- A service whose balance does not cover what its code stores. -/
def storingAccount : Account where
  balance := 130
  preimages := (∅ : Std.TreeMap Hash Bytes).insert Hash.zero (#[0] ++ storingImage.encode)

def storingAccounts : Accounts := (∅ : Accounts).insert 7 storingAccount

def coveringTransfers : Array Transfer := #[{ destination := 7, amount := 17, gasLimit := 100 }]

def storingArgument : Bytes := accumulateArgument 3 7 1

/-- The guest that receives the transfer, at a point of its code. -/
def storingGuest (pc : UInt32) (registers : Registers) (gas : UInt64) : Guest where
  machine := ⟨storingProgram, ⟨pc, registers, storingImage.layout storingArgument⟩, gas, {}⟩
  context := .transfer
    ⟨7, storingAccounts.credit 7 (totalAmount coveringTransfers), 3, Hash.zero, coveringTransfers⟩

theorem storingImage_fits : storingImage.Fits := ⟨by decide, by decide, by decide, by decide, by decide⟩

theorem storingImage_built : Program.ofBlob storingImage.blob = .ok storingProgram := by with_unfolding_all rfl

theorem storingGuest_runs : transferGuest? storingAccounts 7 3 Hash.zero coveringTransfers =
    some (storingGuest transferEntry (Image.entryRegisters storingArgument) 100) :=
  transferGuest?_of_image Std.TreeMap.getElem?_insert_self Std.TreeMap.getElem?_insert_self
    storingImage_fits (by decide +kernel) (by decide +kernel) storingImage_built rfl (by decide +kernel)

theorem storingGuest_step {pc : UInt32} {registers changed : Registers} {gas : UInt64} {instr : Instr}
    {skip : Nat} {exit : Exit} (fetched : storingProgram.fetch? pc = some ⟨instr, skip⟩)
    (funded : instructionGas ≤ gas) (goesOn : exit = .continue ∨ exit = .hostCall 4)
    (plain : ∀ m, instr.exec storingProgram registers m = ⟨exit, none, changed, m⟩) :
    (storingGuest pc registers gas).machine.step .perInstruction =
      (exit, (storingGuest (followingPc pc skip) changed (gas - instructionGas)).machine) := by
  refine Machine.step_perInstruction funded ?_
  simp only [storingGuest, Cpu.step, fetched, plain]
  rcases goesOn with rfl | rfl <;> rfl

/-- Registers with an empty key, and the argument as its value. -/
def storingRegisters : Registers :=
  let entry := Image.entryRegisters storingArgument
  let valued := entry.put Reg.r9 (entry.get Reg.r7)
  (valued.put Reg.r10 (valued.get Reg.r8)).put Reg.r8 0

theorem storingGuest_calls :
    (storingGuest transferEntry (Image.entryRegisters storingArgument) 100).machine.run .perInstruction =
      (.hostCall HostCall.write.id, (storingGuest 18 storingRegisters 96).machine) := by
  obtain ⟨value, length, key, call⟩ : storingProgram.fetch? 10 = some ⟨.moveReg Reg.r9 Reg.r7, 1⟩ ∧
      storingProgram.fetch? 12 = some ⟨.moveReg Reg.r10 Reg.r8, 1⟩ ∧
      storingProgram.fetch? 14 = some ⟨.loadImm Reg.r8 0, 1⟩ ∧ storingProgram.fetch? 16 = some ⟨.ecalli 4, 1⟩ := by
    with_unfolding_all exact ⟨rfl, rfl, rfl, rfl⟩
  have wf : (storingGuest transferEntry (Image.entryRegisters storingArgument) 100).machine.WellFormed :=
    imageGuest?_wellFormed (imageGuest?_encode storingImage_fits (by decide +kernel) storingImage_built)
  refine Machine.run_eq wf (.next (storingGuest_step value (by decide) (.inl rfl) fun _ => rfl) ?_)
  refine .next (storingGuest_step length (by decide) (.inl rfl) fun _ => rfl) ?_
  refine .next (storingGuest_step key (by decide) (.inl rfl) fun _ => rfl) ?_
  exact .stop (storingGuest_step call (by decide) (.inr rfl) fun _ => rfl) (by simp)

/-- The state in which the host serves the write. -/
def storingState : HostState := ((storingGuest 18 storingRegisters 96).charged HostCall.write.id).hostState

theorem storingState_reads : storingState.memory.read argumentStart 3 = .ok #[3, 7, 1] := by
  have listed : Image.argumentSegment storingArgument ∈ storingImage.segments storingArgument := by
    simp only [Image.segments, List.mem_cons, true_or]
  have holds := (storingImage_fits.laidOut_layout storingArgument).holds _ listed
  have whole : storingArgument.resize 3 = #[3, 7, 1] := by decide +kernel
  rw [← whole]
  exact holds.read rfl (by decide) (by decide)

def storedAccount : Account := (storingAccount.credit 17).write #[] (some #[3, 7, 1])

theorem storingState_writes : ∃ s, HostCall.write.result {} storingState = .ok s ∧
    s.context = .transfer
      ⟨7, (storingAccounts.credit 7 17).insert 7 storedAccount, 3, Hash.zero, coveringTransfers⟩ := by
  obtain ⟨r7, r8, r9, r10⟩ : storingState.r7.toNat = argumentStart ∧ storingState.r8 = 0 ∧
      storingState.r9.toNat = argumentStart ∧ storingState.r10 = 3 := by decide +kernel
  have key : storingState.readBytes storingState.r7 storingState.r8 = .ok #[] := by
    rw [r8]
    exact HostState.readBytes_of_read rfl
  have bytes : storingState.readBytes storingState.r9 3 = .ok #[3, 7, 1] :=
    HostState.readBytes_of_read (r9 ▸ storingState_reads)
  have value : Host.writtenValue storingState storingState.r9 storingState.r10 = .ok (some #[3, 7, 1]) := by
    rw [r10, Host.writtenValue, if_neg (by decide), bytes]
  have covered : (storingAccount.credit 17).thresholdAfterWrite #[] (some #[3, 7, 1]) ≤
      (storingAccount.credit 17).balance := by decide +kernel
  exact Host.write_ok key value rfl rfl rfl covered

theorem storingGuest_asked :
    (storingGuest transferEntry (Image.entryRegisters storingArgument) 100).asked {} .write = storingState := by
  rw [Guest.asked_of_run storingGuest_calls]
  rfl

theorem storingGuest_nextCall? :
    (storingGuest transferEntry (Image.entryRegisters storingArgument) 100).nextCall? {} = some .write :=
  Guest.nextCall?_of_run storingGuest_calls rfl (show hostCallGas ≤ 96 by decide)

theorem storingGuest_stores :
    ((storingGuest transferEntry (Image.entryRegisters storingArgument) 100).turn {}).2.context = .transfer
      ⟨7, (storingAccounts.credit 7 17).insert 7 storedAccount, 3, Hash.zero, coveringTransfers⟩ := by
  obtain ⟨s, done, left⟩ := storingState_writes
  rw [Guest.turn_of_nextCall? storingGuest_nextCall?, storingGuest_asked, done]
  exact left

/-- A service that creates another one, and a service that stores what it can pay for just so. -/
theorem created_and_stored_stay_covered :
    (∃ g c, (callingInput 5).guest? (callingChain .new Hash.zero creator) = some g ∧
      g.nextCall? {} = some .new ∧ (g.turn {}).2.context = .accumulation c ∧
      c.current.state.accounts.size = 2 ∧ c.current.Solvent ∧ c.checkpoint.Solvent) ∧
    (accumulate {} (callingChain .new Hash.zero creator) (callingInput 5)).outcome.Solvent ∧
    (∃ g c, transferGuest? storingAccounts 7 3 Hash.zero coveringTransfers = some g ∧
      g.nextCall? {} = some .write ∧ (g.turn {}).2.context = .transfer c ∧
      c.accounts[(7 : ServiceId)]? = some storedAccount ∧ storedAccount.balance = storedAccount.threshold ∧
      c.accounts.Solvent) ∧
    (receiveTransfers {} storingAccounts 7 3 Hash.zero coveringTransfers).1.Solvent := by
  have rich : (callingChain .new Hash.zero creator).accounts.Solvent :=
    Accounts.solvent_empty.insert (by decide +kernel)
  have modest : storingAccounts.Solvent := Accounts.solvent_empty.insert (by decide +kernel)
  obtain ⟨-, -, accumulations, receipts⟩ := deposits_stay_covered {}
  obtain ⟨working, committed⟩ := accumulations _ (callingInput 5) rich
  obtain ⟨received, left⟩ := receipts storingAccounts 7 3 Hash.zero coveringTransfers modest
  have created := working _ _ _ (callingGuest_runs .new Hash.zero creator 5) (.turn .start)
  rw [creator_creates] at created
  obtain ⟨current, checkpoint⟩ := created
  have stored := received _ _ _ storingGuest_runs (.turn .start)
  rw [storingGuest_stores] at stored
  obtain ⟨accounts⟩ := stored
  exact ⟨⟨_, _, callingGuest_runs .new Hash.zero creator 5,
      callingGuest_nextCall? .new Hash.zero creator 5 rfl fun _ => rfl, creator_creates, by decide +kernel,
      current, checkpoint⟩, committed,
    ⟨_, _, storingGuest_runs, storingGuest_nextCall?, storingGuest_stores, Std.TreeMap.getElem?_insert_self,
      by decide +kernel, accounts⟩, left⟩

end ServiceVm
