import ServiceVm.Proofs.Invocation.Guests

/-!
# What an accumulating service may change

A service changes its own account. Accounts of others come and go by `new` and `eject` only, and the
fields that privileged services own change only by the call made for that, as long as the service
holds the privilege at that moment. Privileges are handed over during a run, so each call is judged
by the outcome it starts from.
-/
namespace ServiceVm

/-- An account that was handed over to `service` and holds nothing but one request, which was withdrawn
before `cutoff`. -/
structure Account.Ejectable (account : Account) (service : ServiceId) (cutoff : TimeSlot) : Prop where
  handedOver : account.codeHash.toBytes = Bytes.ofWord service.toUInt64 32
  oneRequest : account.requests.size = 1
  expired : ∃ (request : Request) (first second : TimeSlot),
    account.requests[request]? = some [first, second] ∧ second < cutoff
  noStorage : account.storage.size = 0

theorem Host.isExpired_iff {slots : History} {cutoff : TimeSlot} :
    isExpired slots cutoff = true ↔ ∃ first second, slots = [first, second] ∧ second < cutoff := by
  unfold isExpired
  split
  · simp
  · rename_i short
    constructor
    · intro impossible
      contradiction
    · rintro ⟨first, second, rfl, -⟩
      exact absurd rfl (short first second)

theorem Account.ejectable {account : Account} {service : ServiceId} {cutoff : TimeSlot} {slots : History}
    {request : Request} (handedOver : account.codeHash.toBytes = Bytes.ofWord service.toUInt64 32)
    (requested : account.requests[request]? = some slots) (items : account.items = 2)
    (expired : Host.isExpired slots cutoff = true) : account.Ejectable service cutoff := by
  obtain ⟨first, second, rfl, before⟩ := Host.isExpired_iff.mp expired
  have one : 1 ≤ account.requests.size := by
    rw [size_eq_entrySum]
    exact le_entrySum (fun _ _ => 1) requested
  rw [Account.items] at items
  exact ⟨handedOver, by omega, ⟨request, first, second, requested, before⟩, by omega⟩

theorem Host.getElem?_setQueue {queues : Array (Array Hash)} {core other : Nat} {queue : Array Hash}
    (apart : other ≠ core) :
    (setQueue queues core queue)[other]? = queues[other]? ∨
      (other < core ∧ queues[other]? = none ∧ (setQueue queues core queue)[other]? = some #[]) := by
  have same : (setQueue queues core queue)[other]? =
      if other < queues.size then queues[other]?
      else if other - queues.size < core + 1 - queues.size then some #[] else none := by
    rw [setQueue, Array.getElem?_setIfInBounds_ne apart.symm, Array.getElem?_append,
      Array.getElem?_replicate]
  rw [same]
  by_cases present : other < queues.size
  · simp [present]
  · have absent : queues[other]? = none := Array.getElem?_eq_none (by omega)
    by_cases before : other < core
    · simp [present, before, show other - queues.size < core + 1 - queues.size by omega]
    · simp [present, show ¬other - queues.size < core + 1 - queues.size by omega]

namespace Outcome

variable {config : Config} {timeslot : TimeSlot} {call : HostCall} {called : Option HostCall}
  {x x' : Outcome} {id : ServiceId}

/-- What a call can do to the account of another service. -/
inductive ForeignChange (config : Config) (timeslot : TimeSlot) (called : Option HostCall)
    (x x' : Outcome) (id : ServiceId) : Prop where
  | kept : x'.state.accounts[id]? = x.state.accounts[id]? → ForeignChange config timeslot called x x' id
  | created {account : Account} : called = some .new → id = x.nextFreeId →
      x'.state.accounts[id]? = some account → ForeignChange config timeslot called x x' id
  | ejected {account : Account} : called = some .eject → x.state.accounts[id]? = some account →
      account.Ejectable x.service (Host.cutoffSlot config timeslot) →
      x'.state.accounts[id]? = none → ForeignChange config timeslot called x x' id

def Blesses (called : Option HostCall) (x : Outcome) : Prop :=
  called = some .bless ∧ x.service = x.state.manager

/-- The assigner of a core assigns it. -/
structure Assigns (config : Config) (called : Option HostCall) (x : Outcome) (core : Nat) : Prop where
  call : called = some .assign
  inRange : core < config.params.cores.toNat
  assigner : x.state.assigners[core]? = some x.service

def Designates (called : Option HostCall) (x : Outcome) : Prop :=
  called = some .designate ∧ x.service = x.state.delegator

/-- The outcome `x'` that a call leaves differs from the outcome `x` before it only where the service
may change it. -/
structure MayBecome (config : Config) (timeslot : TimeSlot) (called : Option HostCall)
    (x x' : Outcome) : Prop where
  service : x'.service = x.service
  accounts : ∀ id, id ≠ x.service → ForeignChange config timeslot called x x' id
  manager : x'.state.manager = x.state.manager ∨ x.Blesses called
  delegator : x'.state.delegator = x.state.delegator ∨ x.Blesses called
  alwaysAccumulate : x'.state.alwaysAccumulate = x.state.alwaysAccumulate ∨ x.Blesses called
  assigners : x'.state.assigners = x.state.assigners ∨ x.Blesses called ∨
    ∃ core, x.Assigns config called core ∧
      ∀ other, other ≠ core → x'.state.assigners[other]? = x.state.assigners[other]?
  authQueue : x'.state.authQueue = x.state.authQueue ∨
    ∃ core, x.Assigns config called core ∧ ∀ other, other ≠ core →
      x'.state.authQueue[other]? = x.state.authQueue[other]? ∨
      (other < core ∧ x.state.authQueue[other]? = none ∧ x'.state.authQueue[other]? = some #[])
  stagingSet : x'.state.stagingSet = x.state.stagingSet ∨ x.Designates called

theorem mayBecome_of_accounts (service : x'.service = x.service)
    (state : x'.state = { x.state with accounts := x'.state.accounts })
    (accounts : ∀ id, id ≠ x.service → ForeignChange config timeslot called x x' id) :
    x.MayBecome config timeslot called x' := by
  rw [ChainState.mk.injEq] at state
  obtain ⟨-, stagingSet, authQueue, manager, assigners, delegator, alwaysAccumulate⟩ := state
  exact ⟨service, accounts, .inl manager, .inl delegator, .inl alwaysAccumulate, .inl assigners,
    .inl authQueue, .inl stagingSet⟩

theorem MayBecome.refl (x : Outcome) : x.MayBecome config timeslot called x :=
  mayBecome_of_accounts rfl rfl fun _ _ => .kept rfl

theorem getElem?_insert_service (accounts : Accounts) {service : ServiceId} (account : Account)
    (other : id ≠ service) : (accounts.insert service account)[id]? = accounts[id]? := by
  simp [Std.TreeMap.getElem?_insert, other.symm]

theorem mayBecome_setSelf (x : Outcome) (account : Account) :
    x.MayBecome config timeslot called (x.setSelf account) :=
  mayBecome_of_accounts rfl rfl fun _ other => .kept (getElem?_insert_service _ account other)

theorem mayBecome_create (x : Outcome) (payer added : Account) :
    x.MayBecome config timeslot (some .new) (x.create payer added) := by
  refine mayBecome_of_accounts rfl rfl ?_
  intro id other
  by_cases taken : id = x.nextFreeId
  · have present : (x.create payer added).state.accounts[id]? = some added := by
      simp [create, setAccounts, taken]
    exact .created rfl taken present
  · have kept := getElem?_insert_service x.state.accounts payer other
    exact .kept ((getElem?_insert_service _ added taken).trans kept)

theorem mayBecome_eject {target : ServiceId} {account : Account}
    (found : x.state.accounts[target]? = some account)
    (ejectable : account.Ejectable x.service (Host.cutoffSlot config timeslot)) :
    x.MayBecome config timeslot (some .eject)
      (x.setAccounts (Accounts.credit (x.state.accounts.erase target) x.service account.balance)) := by
  refine mayBecome_of_accounts rfl rfl ?_
  intro id other
  have after : (Accounts.credit (x.state.accounts.erase target) x.service account.balance)[id]? =
      (x.state.accounts.erase target)[id]? := by
    rw [Accounts.getElem?_credit, if_neg other.symm]
  by_cases removed : id = target
  · subst removed
    refine .ejected rfl found ejectable (after.trans ?_)
    simp
  · refine .kept (after.trans ?_)
    simp [Std.TreeMap.getElem?_erase, Ne.symm removed]

/-- Every call changes only what the service may change at that moment. -/
theorem Served.mayBecome (served : x.Served config timeslot call x') :
    x.MayBecome config timeslot (some call) x' := by
  cases served with
  | write => exact x.mayBecome_setSelf _
  | new => exact x.mayBecome_create _ _
  | upgrade => exact x.mayBecome_setSelf _
  | transfer =>
    exact mayBecome_of_accounts rfl rfl fun _ other => .kept (getElem?_insert_service _ _ other)
  | eject target request other found handedOver octets requested items expired =>
    exact mayBecome_eject found (Account.ejectable handedOver requested items expired)
  | solicit => exact x.mayBecome_setSelf _
  | resolicit => exact x.mayBecome_setSelf _
  | forget => exact x.mayBecome_setSelf _
  | yield => exact mayBecome_of_accounts rfl rfl fun _ _ => .kept rfl
  | provide => exact mayBecome_of_accounts rfl rfl fun _ _ => .kept rfl
  | bless manager delegator assigners always privileged =>
    have blesses : x.Blesses (some .bless) := ⟨rfl, privileged⟩
    exact ⟨rfl, fun _ _ => .kept rfl, .inr blesses, .inr blesses, .inr blesses, .inr (.inl blesses),
      .inl rfl, .inl rfl⟩
  | assign core queue assigner known privileged =>
    have assigns : x.Assigns config (some .assign) core := ⟨rfl, known, privileged⟩
    refine ⟨rfl, fun _ _ => .kept rfl, .inl rfl, .inl rfl, .inl rfl, .inr (.inr ⟨core, assigns, ?_⟩),
      .inr ⟨core, assigns, fun other apart => Host.getElem?_setQueue apart⟩, .inl rfl⟩
    intro other apart
    exact Array.getElem?_setIfInBounds_ne apart.symm
  | designate stagingSet privileged =>
    exact ⟨rfl, fun _ _ => .kept rfl, .inl rfl, .inl rfl, .inl rfl, .inl rfl, .inl rfl,
      .inr ⟨rfl, privileged⟩⟩

end Outcome

/-- The data of an accumulation of a service in a time slot. -/
def HostContext.Accumulates (service : ServiceId) (timeslot : TimeSlot) (context : HostContext) : Prop :=
  ∃ c, context = .accumulation c ∧ c.current.service = service ∧ c.timeslot = timeslot

namespace AccumulationInput

variable {config : Config} {state : ChainState} {input : AccumulationInput} {g last : Guest} {exit : Exit}

theorem reaches_accumulates (runs : input.guest? state = some g)
    (reached : Guest.Reaches config g exit last) :
    last.context.Accumulates input.service input.timeslot := by
  refine reached.invariant ⟨_, guest?_context runs, rfl, rfl⟩ ?_
  rintro call _ exit next - ⟨c, rfl, service, timeslot⟩ served
  obtain ⟨c', after, slot, -, same | change⟩ := served.of_accumulation
  · exact ⟨c', after, by rw [same, service], slot.trans timeslot⟩
  · exact ⟨c', after, change.mayBecome.service.trans service, slot.trans timeslot⟩

/-- As long as public ids have not run out on the way, the id for the next new service is unused. -/
theorem reaches_fresh (runs : input.guest? state = some g) (reached : Guest.Reaches config g exit last)
    (goesOn : exit = .continue)
    (free : ∀ exit mid, Guest.Reaches config g exit mid → Guest.Reaches config mid .continue last →
      mid.context.HasFreeId) :
    ∃ c, last.context = .accumulation c ∧ c.current.Fresh := by
  induction reached with
  | start =>
    have held := guest?_context runs
    have unused := free .continue g .start .start
    rw [held] at unused
    exact ⟨_, held, initial_fresh unused⟩
  | @turn last before ih =>
    -- Every state before this turn leads to the state after it.
    obtain ⟨c, held, fresh⟩ := ih rfl fun exit mid reached later =>
      free exit mid reached (goesOn ▸ later.turn)
    have here : Guest.Reaches config (last.turn config).2 .continue (last.turn config).2 := .start
    have unused := free _ _ before.turn here
    rcases last.turn_context config with same | ⟨call, -, served⟩
    · exact ⟨c, same.trans held, fresh⟩
    · rw [held] at served
      obtain ⟨c', after, -, -, same | change⟩ := served.of_accumulation
      · rw [← same] at fresh
        exact ⟨c', after, fresh⟩
      · rw [after] at unused
        exact ⟨c', after, change.fresh fresh fun _ => unused⟩

end AccumulationInput

/-- In whatever state an accumulation is, its next turn changes only what the service may change there:
its own account, an account it creates or ejects, and the fields of the privileges it holds. The id
of a created account was unused unless public ids have run out before. -/
theorem calls_respect_privileges (config : Config) (state : ChainState) (input : AccumulationInput)
    {g last : Guest} (runs : input.guest? state = some g)
    (reached : Guest.Reaches config g .continue last) :
    ∃ c c' : AccumulationContext, last.context = .accumulation c ∧
      (last.turn config).2.context = .accumulation c' ∧ c.current.service = input.service ∧
      c.current.MayBecome config input.timeslot (last.nextCall? config) c'.current ∧
      ((∀ exit mid, Guest.Reaches config g exit mid → Guest.Reaches config mid .continue last →
        mid.context.HasFreeId) → c.current.state.accounts[c.current.nextFreeId]? = none) := by
  obtain ⟨c, held, service, timeslot⟩ := AccumulationInput.reaches_accumulates runs reached
  have fresh : (∀ exit mid, Guest.Reaches config g exit mid → Guest.Reaches config mid .continue last →
      mid.context.HasFreeId) → c.current.Fresh := by
    intro free
    obtain ⟨same, again, fresh⟩ := AccumulationInput.reaches_fresh runs reached rfl free
    obtain rfl := HostContext.accumulation.inj (held.symm.trans again)
    exact fresh
  rcases last.turn_context config with same | ⟨call, next, served⟩
  · exact ⟨c, c, held, same.trans held, service, .refl _, fresh⟩
  · rw [held] at served
    obtain ⟨c', after, -, -, same | change⟩ := served.of_accumulation
    · refine ⟨c, c', held, after, service, ?_, fresh⟩
      rw [same]
      exact .refl _
    · have permitted := change.mayBecome
      rw [timeslot, ← next] at permitted
      exact ⟨c, c', held, after, service, permitted, fresh⟩

theorem blessing_respects_privileges :
    ∃ g c c', blessingInput.guest? blessingService = some g ∧ g.context = .accumulation c ∧
      (g.turn coreless).2.context = .accumulation c' ∧
      c'.current.state.manager = UInt32.ofNat argumentStart ∧
      c.current.MayBecome coreless 0 (some .bless) c'.current := by
  have found : (blessingInput.guest? blessingService).isSome = true := by decide +kernel
  obtain ⟨g, runs⟩ := Option.isSome_iff_exists.mp found
  have blesses : (blessingInput.guest? blessingService).all
      (fun g => g.nextCall? coreless = some .bless) = true := by decide +kernel
  have manages : (blessingInput.guest? blessingService).all (fun g =>
      ((g.turn coreless).2.context.commit (.ok #[])).state.manager = UInt32.ofNat argumentStart) = true := by
    decide +kernel
  obtain ⟨c, c', held, after, -, change, -⟩ :=
    calls_respect_privileges coreless blessingService blessingInput runs .start
  rw [runs, Option.all_some, decide_eq_true_eq] at blesses
  rw [runs, Option.all_some, decide_eq_true_eq, after] at manages
  rw [blesses] at change
  exact ⟨g, c, c', runs, held, after, manages, change⟩

end ServiceVm
