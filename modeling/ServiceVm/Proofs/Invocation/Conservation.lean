import ServiceVm.Proofs.Invocation.CallingService
import ServiceVm.Proofs.Service.FreshId

/-!
# Accumulation conserves value

What the accounts hold together with what is deferred to later transfers does not change while an
accumulation runs. A new service takes its deposit from the caller and replaces no account, because
the next free id is unused; the balance of an ejected service goes to the caller, who is still
there; and the caller has room for it as long as all balances together fit a word.
-/
namespace ServiceVm

namespace Outcome

/-- What the accounts hold and what is deferred. -/
def value (x : Outcome) : Nat := x.state.accounts.total + amountSum x.transfers

/-- The outcome is worth `value`; the service exists, and the id for a new one is unused. -/
structure Conserves (value : Nat) (x : Outcome) : Prop where
  value : x.value = value
  self : ∃ account, x.self? = some account
  fresh : x.state.accounts[x.nextFreeId]? = none

variable {config : Config} {timeslot : TimeSlot} {call : HostCall} {x x' : Outcome} {value : Nat}
  {account : Account}

theorem value_setAccounts (x : Outcome) (accounts : Accounts) :
    (x.setAccounts accounts).value = accounts.total + amountSum x.transfers := rfl

theorem value_setSelf (self : x.self? = some account) (changed : Account) :
    (x.setSelf changed).value + account.balance.toNat = x.value + changed.balance.toNat := by
  have sums := Accounts.total_insert self changed
  rw [setSelf, value_setAccounts, Outcome.value]
  omega

theorem value_push (x : Outcome) (deferred : Transfer) :
    ({ x with transfers := x.transfers.push deferred } : Outcome).value =
      x.value + deferred.amount.toNat := by
  rw [Outcome.value, Outcome.value, amountSum_push, Nat.add_assoc]

namespace Conserves

theorem setSelf (conserved : x.Conserves value) (self : x.self? = some account) {changed : Account}
    (same : changed.balance = account.balance) : (x.setSelf changed).Conserves value := by
  have sums := value_setSelf self changed
  have before := conserved.value
  rw [same] at sums
  exact ⟨by omega, ⟨changed, x.self?_setSelf changed⟩, Fresh.setSelf conserved.fresh self changed⟩

theorem transfer (conserved : x.Conserves value) (self : x.self? = some account) {payer : Account}
    (deferred : Transfer) (pays : Host.payFrom? account deferred.amount = some payer) :
    Conserves value { x.setSelf payer with transfers := x.transfers.push deferred } := by
  have sums := value_setSelf self payer
  have paid := Host.payFrom?_balance pays
  have before := conserved.value
  refine ⟨?_, ⟨payer, x.self?_setSelf payer⟩, Fresh.insert_service conserved.fresh self payer⟩
  have pushed := (x.setSelf payer).value_push deferred
  exact pushed.trans (by omega)

theorem create (conserved : x.Conserves value) (self : x.self? = some account) {payer added : Account}
    (pays : Host.payFrom? account added.balance = some payer)
    (free : (x.create payer added).state.accounts.HasFreeId) : (x.create payer added).Conserves value := by
  have paid := Host.payFrom?_balance pays
  have before := conserved.value
  have sums := Accounts.total_insert self payer
  have added' := Accounts.total_insert_absent (Fresh.insert_service conserved.fresh self payer) added
  refine ⟨?_, ⟨payer, ?_⟩, fresh_create free⟩
  · rw [Outcome.value] at before
    refine (x.value_setAccounts _).trans ?_
    omega
  · have kept : (x.create payer added).self? =
        ((x.state.accounts.insert x.service payer).insert x.nextFreeId added)[x.service]? := rfl
    rw [kept, Std.TreeMap.getElem?_insert, if_neg, Std.TreeMap.getElem?_insert_self]
    intro same
    exact Fresh.ne_service conserved.fresh self (Std.LawfulEqOrd.eq_of_compare same).symm

theorem eject (conserved : x.Conserves value) (bounded : value < UInt64.size) {target : ServiceId}
    (other : target ≠ x.service) (found : x.state.accounts[target]? = some account) :
    (x.setAccounts (Accounts.credit (x.state.accounts.erase target) x.service account.balance)).Conserves
      value := by
  obtain ⟨before, ⟨caller, self⟩, fresh⟩ := conserved
  have erased := Accounts.total_erase found
  have kept : (x.state.accounts.erase target)[x.service]? = some caller := by
    rw [Std.TreeMap.getElem?_erase, if_neg]
    · exact self
    · intro same
      exact other (Std.LawfulEqOrd.eq_of_compare same)
  rw [Outcome.value] at before
  have credited : (Accounts.credit (x.state.accounts.erase target) x.service account.balance).total = _ :=
    Accounts.total_credit kept (by omega)
  refine ⟨?_, ⟨caller.credit account.balance, ?_⟩, Fresh.eject fresh target account.balance⟩
  · rw [value_setAccounts, credited]
    omega
  · refine (Accounts.getElem?_credit (x.state.accounts.erase target) x.service x.service _).trans ?_
    rw [if_pos rfl, kept]
    rfl

end Conserves

theorem Served.conserves (served : x.Served config timeslot call x') (conserved : x.Conserves value)
    (bounded : value < UInt64.size) (free : x'.state.accounts.HasFreeId) : x'.Conserves value := by
  cases served with
  | write key value self => exact conserved.setSelf self rfl
  | new codeHash codeLength minItemGas minMemoGas gratis _ self pays =>
    exact conserved.create self pays free
  | upgrade codeHash minItemGas minMemoGas self => exact conserved.setSelf self rfl
  | transfer deferred source known paysGas self pays => exact conserved.transfer self deferred pays
  | eject target request other found => exact conserved.eject bounded other found
  | solicit request self => exact conserved.setSelf self rfl
  | resolicit request first second self => exact conserved.setSelf self rfl
  | @forget account slots forgotten request self =>
    refine conserved.setSelf self ?_
    cases forgotten <;> rfl
  | yield => exact ⟨conserved.value, conserved.self, conserved.fresh⟩
  | provide => exact ⟨conserved.value, conserved.self, conserved.fresh⟩
  | bless => exact ⟨conserved.value, conserved.self, conserved.fresh⟩
  | assign => exact ⟨conserved.value, conserved.self, conserved.fresh⟩
  | designate => exact ⟨conserved.value, conserved.self, conserved.fresh⟩

end Outcome

namespace AccumulationInput

/-- Transfers addressed to the service. -/
def incoming (input : AccumulationInput) : Array Transfer :=
  input.transfers.filter fun t => t.destination = input.service

variable {input : AccumulationInput} {state : ChainState} {account : Account}

theorem value_initial (present : state.accounts[input.service]? = some account)
    (bounded : state.accounts.total + amountSum input.incoming < UInt64.size) :
    (input.initial state).value = state.accounts.total + amountSum input.incoming := by
  have amount : (totalAmount input.incoming).toNat = amountSum input.incoming :=
    toNat_totalAmount (by omega)
  have credited : (state.accounts.credit input.service (totalAmount input.incoming)).total = _ :=
    Accounts.total_credit present (by omega)
  rw [amount] at credited
  exact credited

theorem initial_conserves (present : state.accounts[input.service]? = some account)
    (bounded : state.accounts.total + amountSum input.incoming < UInt64.size)
    (free : (input.initial state).state.accounts.HasFreeId) :
    (input.initial state).Conserves (state.accounts.total + amountSum input.incoming) := by
  refine ⟨value_initial present bounded, ⟨account.credit (totalAmount input.incoming), ?_⟩,
    initial_fresh free⟩
  refine (Accounts.getElem?_credit state.accounts input.service input.service _).trans ?_
  rw [if_pos rfl, present]
  rfl

end AccumulationInput

/-- However an accumulation ends, the balances it leaves and the amounts it defers add up to the
balances before it and the amounts of the transfers to the service, as long as a public id stays
unused. After any calls on the way, the same is true of the outcome the guest works on and of its
checkpoint. -/
theorem accumulate_conserves_value (config : Config) (state : ChainState) (input : AccumulationInput)
    (present : state.accounts.contains input.service = true)
    (bounded : state.accounts.total + amountSum input.incoming < UInt64.size)
    (free : ∀ g exit g', input.guest? state = some g → Guest.Reaches config g exit g' →
      g'.context.HasFreeId) :
    (accumulate config state input).outcome.state.accounts.total +
        amountSum (accumulate config state input).outcome.transfers =
      state.accounts.total + amountSum input.incoming ∧
    ∀ g exit g', input.guest? state = some g → Guest.Reaches config g exit g' →
      g'.context.BothOutcomes fun x => x.state.accounts.total + amountSum x.transfers =
        state.accounts.total + amountSum input.incoming := by
  rw [Std.TreeMap.contains_eq_isSome_getElem?] at present
  obtain ⟨account, found⟩ := Option.isSome_iff_exists.mp present
  let worth (x : Outcome) : Prop := x.value = state.accounts.total + amountSum input.incoming
  have conserved : ∀ g exit g', input.guest? state = some g → Guest.Reaches config g exit g' →
      g'.context.BothOutcomes worth := by
    intro g exit g' runs reached
    have context := AccumulationInput.guest?_context runs
    have unused := free g .continue g runs .start
    rw [context] at unused
    have initial := AccumulationInput.initial_conserves found bounded unused
    refine (reached.bothOutcomes ?_ (fun served kept => served.conserves kept bounded) ?_).mono
      fun x conserves => conserves.value
    · rw [context]
      exact .accumulation initial initial
    · intro exit last c later held
      have unused := free g exit last runs later
      rw [held] at unused
      exact unused
  have outcome : worth (accumulate config state input).outcome :=
    accumulate_of_bothOutcomes config (fun x yielded same => same)
      (AccumulationInput.value_initial found bounded)
      fun g runs => conserved g _ _ runs (g.run_reaches config)
  exact ⟨outcome, conserved⟩

/-- Transfers to the service that creates another one, and one that is not for it. -/
def creditedInput : AccumulationInput :=
  { callingInput 5 with transfers := #[{ destination := 7, amount := 30 }, { destination := 8, amount := 3 }] }

def uncreditedChain : ChainState := callingChain .new Hash.zero { balance := 970 }

theorem creditedInput_runs :
    creditedInput.guest? uncreditedChain = some (callingGuest .new Hash.zero creator 5) := by
  have credited : creditedInput.context uncreditedChain =
      (callingInput 5).context (callingChain .new Hash.zero creator) := rfl
  rw [← callingGuest_runs, AccumulationInput.guest?, AccumulationInput.guest?, credited]
  rfl

theorem creator_conserves_value :
    ∃ g c, creditedInput.guest? uncreditedChain = some g ∧ g.nextCall? {} = some .new ∧
      (g.turn {}).2.context = .accumulation c ∧ c.current.state.accounts.size = 2 ∧
      c.current.state.accounts.total + amountSum c.current.transfers = 1000 ∧
      (accumulate {} uncreditedChain creditedInput).outcome.state.accounts.total +
        amountSum (accumulate {} uncreditedChain creditedInput).outcome.transfers = 1000 := by
  have worth : uncreditedChain.accounts.total + amountSum creditedInput.incoming = 1000 := by decide +kernel
  obtain ⟨committed, reached⟩ := accumulate_conserves_value {} uncreditedChain creditedInput (by decide +kernel)
    (by decide +kernel) (by
      rintro g exit g' runs reached
      obtain rfl := Option.some.inj (creditedInput_runs.symm.trans runs)
      exact creator_hasFreeId reached)
  have served := reached _ _ _ creditedInput_runs (.turn .start)
  rw [creator_creates, worth] at served
  obtain ⟨current, -⟩ := served
  exact ⟨_, _, creditedInput_runs, callingGuest_nextCall? .new Hash.zero creator 5 rfl fun _ => rfl,
    creator_creates, by decide +kernel, current, committed.trans worth⟩

end ServiceVm
