import ServiceVm.Proofs.Invocation.NewIds

/-!
# Requests and preimages of accounts

What a call can make of the requests and the preimages of an account is listed once, as
`Outcome.AccountChange`; `HistoryChange` is what this means for the history of a single request. A
preimage is removed only when its service forgets a request for its hash.
-/
namespace ServiceVm

/-- The history of a request of a service, if the service has made it. -/
def Accounts.history? (accounts : Accounts) (service : ServiceId) (request : Request) : Option History :=
  (accounts[service]?).bind fun account => account.requests[request]?

theorem Accounts.history?_credit (accounts : Accounts) (id service : ServiceId) (amount : UInt64)
    (request : Request) :
    (accounts.credit id amount).history? service request = accounts.history? service request := by
  rw [history?, history?, getElem?_credit]
  split
  · cases accounts[service]? <;> rfl
  · rfl

theorem Outcome.history?_self {x : Outcome} {account : Account} (self : x.self? = some account)
    (request : Request) : x.state.accounts.history? x.service request = account.requests[request]? := by
  rw [Accounts.history?, show x.state.accounts[x.service]? = some account from self, Option.bind_some]

/-- What a call made at `t` can make of the history of a request. -/
inductive HistoryChange (t cutoff : TimeSlot) : Option History → Option History → Prop where
  | kept {history : Option History} : HistoryChange t cutoff history history
  | requested : HistoryChange t cutoff none (some [])
  | requestedAgain (first second : TimeSlot) :
      HistoryChange t cutoff (some [first, second]) (some [first, second, t])
  | withdrawn {slots later : History} : Host.forgetSlots? slots t cutoff = some (.kept later) →
      HistoryChange t cutoff (some slots) (some later)
  | dropped {slots : History} : Host.forgetSlots? slots t cutoff = some .removed →
      HistoryChange t cutoff (some slots) none

theorem Host.forgetSlots?_removed {slots : History} {t cutoff : TimeSlot} :
    forgetSlots? slots t cutoff = some .removed ↔ slots = [] ∨ isExpired slots cutoff = true := by
  match slots with
  | [] => simp [forgetSlots?]
  | [_] => simp [forgetSlots?, isExpired]
  | [_, y] => simp [forgetSlots?, isExpired]
  | [_, y, _] => simp [forgetSlots?, isExpired]
  | _ :: _ :: _ :: _ :: _ => simp [forgetSlots?, isExpired]

theorem getElem?_insert_request (requests : Std.TreeMap Request History) (request other : Request)
    (slots : History) :
    (requests.insert request slots)[other]? = if request = other then some slots else requests[other]? := by
  simp [Std.TreeMap.getElem?_insert]

theorem getElem?_erase_request (requests : Std.TreeMap Request History) (request other : Request) :
    (requests.erase request)[other]? = if request = other then none else requests[other]? := by
  simp [Std.TreeMap.getElem?_erase]

theorem Account.Ejectable.isExpired {account : Account} {service : ServiceId} {cutoff : TimeSlot}
    (ejectable : account.Ejectable service cutoff) {request : Request} {slots : History}
    (listed : account.requests[request]? = some slots) : Host.isExpired slots cutoff = true := by
  obtain ⟨only, first, second, found, before⟩ := ejectable.expired
  by_cases same : only = request
  · subst same
    obtain rfl := Option.some.inj (listed.symm.trans found)
    exact Host.isExpired_iff.mpr ⟨first, second, rfl, before⟩
  · -- Without its one request the account would have none left.
    have rest := entrySum_erase (fun _ _ => 1) account.requests only
    have kept : (account.requests.erase only)[request]? = some slots := by
      rw [getElem?_erase_request, if_neg same, listed]
    have counted := le_entrySum (fun _ _ => 1) kept
    rw [← size_eq_entrySum account.requests, ejectable.oneRequest, found, Option.elim_some] at rest
    omega

namespace Outcome

variable {config : Config} {timeslot : TimeSlot} {call : HostCall} {x x' : Outcome} {id : ServiceId}
  {account : Account} {before after : Option Account}

/-- What a call can make of the requests and preimages of the account with the given id. -/
inductive AccountChange (config : Config) (timeslot : TimeSlot) (x : Outcome) (call : HostCall)
    (id : ServiceId) : Option Account → Option Account → Prop where
  | kept {before after : Option Account} : after.map Account.requests = before.map Account.requests →
      after.map Account.preimages = before.map Account.preimages →
      AccountChange config timeslot x call id before after
  | requested {account : Account} (request : Request) : account.requests[request]? = none →
      AccountChange config timeslot x call id (some account)
        (some { account with requests := account.requests.insert request [] })
  | requestedAgain {account : Account} (request : Request) (first second : TimeSlot) :
      account.requests[request]? = some [first, second] →
      AccountChange config timeslot x call id (some account)
        (some { account with requests := account.requests.insert request [first, second, timeslot] })
  | forgotten {account : Account} {slots : History} {forgotten : Host.Forgotten} (request : Request) :
      call = .forget → id = x.service → account.requests[request]? = some slots →
      Host.forgetSlots? slots timeslot (Host.cutoffSlot config timeslot) = some forgotten →
      AccountChange config timeslot x call id (some account) (some (account.forget request forgotten))
  | created {before : Option Account} (codeHash : Hash) (codeLength : UInt32)
      (minItemGas minMemoGas gratis : UInt64) : id = x.nextFreeId →
      AccountChange config timeslot x call id before
        (some (Host.freshAccount codeHash codeLength minItemGas minMemoGas gratis timeslot x.service))
  | ejected {account : Account} : account.Ejectable x.service (Host.cutoffSlot config timeslot) →
      AccountChange config timeslot x call id (some account) none

theorem AccountChange.setSelf {account' : Account} (self : x.self? = some account)
    (change : x.AccountChange config timeslot call x.service (some account) (some account'))
    (id : ServiceId) : x.AccountChange config timeslot call id x.state.accounts[id]?
      (x.setSelf account').state.accounts[id]? := by
  by_cases own : id = x.service
  · subst own
    have after : (x.setSelf account').state.accounts[x.service]? = some account' := x.self?_setSelf account'
    rw [after, show x.state.accounts[x.service]? = some account from self]
    exact change
  · have same : (x.setSelf account').state.accounts[id]? = x.state.accounts[id]? :=
      getElem?_insert_service _ account' own
    rw [same]
    exact .kept rfl rfl

theorem AccountChange.setSelf_kept {account' : Account} (self : x.self? = some account)
    (requests : account'.requests = account.requests) (preimages : account'.preimages = account.preimages)
    (id : ServiceId) : x.AccountChange config timeslot call id x.state.accounts[id]?
      (x.setSelf account').state.accounts[id]? :=
  .setSelf self (.kept (congrArg some requests) (congrArg some preimages)) id

theorem accountChange_create {payer caller added : Account} (self : x.self? = some caller)
    (requests : payer.requests = caller.requests) (preimages : payer.preimages = caller.preimages)
    (fresh : x.AccountChange config timeslot call x.nextFreeId x.state.accounts[x.nextFreeId]? (some added))
    (id : ServiceId) : x.AccountChange config timeslot call id x.state.accounts[id]?
      (x.create payer added).state.accounts[id]? := by
  by_cases taken : id = x.nextFreeId
  · subst taken
    have present : (x.create payer added).state.accounts[x.nextFreeId]? = some added := by
      simp [create, setAccounts]
    rw [present]
    exact fresh
  · have same : (x.create payer added).state.accounts[id]? = (x.setSelf payer).state.accounts[id]? :=
      getElem?_insert_service _ added taken
    rw [same]
    exact .setSelf_kept self requests preimages id

theorem accountChange_eject {target : ServiceId} (found : x.state.accounts[target]? = some account)
    (other : target ≠ x.service)
    (ejectable : account.Ejectable x.service (Host.cutoffSlot config timeslot)) (id : ServiceId) :
    x.AccountChange config timeslot call id x.state.accounts[id]?
      (Accounts.credit (x.state.accounts.erase target) x.service account.balance)[id]? := by
  rw [Accounts.getElem?_credit]
  by_cases removed : id = target
  · subst removed
    rw [if_neg other.symm, Std.TreeMap.getElem?_erase_self, found]
    exact .ejected ejectable
  · have same : (x.state.accounts.erase target)[id]? = x.state.accounts[id]? := by
      simp [Std.TreeMap.getElem?_erase, Ne.symm removed]
    rw [same]
    split
    · exact .kept (by cases x.state.accounts[id]? <;> rfl) (by cases x.state.accounts[id]? <;> rfl)
    · exact .kept rfl rfl

theorem Served.accountChange (served : x.Served config timeslot call x') (id : ServiceId) :
    x.AccountChange config timeslot call id x.state.accounts[id]? x'.state.accounts[id]? := by
  cases served with
  | @write account key value self =>
    have same : (account.write key value).requests = account.requests := rfl
    exact .setSelf_kept self same rfl id
  | new codeHash codeLength minItemGas minMemoGas gratis _ self pays =>
    have payer := Host.payFrom?_eq pays
    exact accountChange_create self (by rw [payer]) (by rw [payer])
      (.created codeHash codeLength minItemGas minMemoGas gratis rfl) id
  | @upgrade account codeHash minItemGas minMemoGas self =>
    have same : ({ account with codeHash, minItemGas, minMemoGas } : Account).requests = account.requests := rfl
    exact .setSelf_kept self same rfl id
  | transfer deferred _ _ _ self pays =>
    have payer := Host.payFrom?_eq pays
    exact AccountChange.setSelf_kept self (by rw [payer]) (by rw [payer]) id
  | eject target request other found handedOver _ requested items expired =>
    exact accountChange_eject found other (Account.ejectable handedOver requested items expired) id
  | solicit request self absent => exact .setSelf self (.requested request absent) id
  | resolicit request first second self listed =>
    exact .setSelf self (.requestedAgain request first second listed) id
  | forget request self listed forgets => exact .setSelf self (.forgotten request rfl rfl listed forgets) id
  | _ => exact .kept rfl rfl

/-! ## Histories -/

theorem requests_freshAccount (codeHash : Hash) (codeLength : UInt32) (minItemGas minMemoGas gratis : UInt64)
    (created : TimeSlot) (parent : ServiceId) (request : Request) :
    (Host.freshAccount codeHash codeLength minItemGas minMemoGas gratis created parent).requests[request]? =
      if (⟨codeHash, codeLength⟩ : Request) = request then some [] else none := by
  refine (getElem?_insert_request _ _ _ _).trans ?_
  simp

theorem AccountChange.history (change : x.AccountChange config timeslot call id before after)
    (request : Request) :
    HistoryChange timeslot (Host.cutoffSlot config timeslot) (before.bind fun a => a.requests[request]?)
        (after.bind fun a => a.requests[request]?) ∨
      (id = x.nextFreeId ∧ ((after.bind fun a => a.requests[request]?) = none ∨
        (after.bind fun a => a.requests[request]?) = some [])) := by
  cases change with
  | kept requests =>
    left
    have same := congrArg (Option.bind · fun r => r[request]?) requests
    simp only [Option.bind_map, Function.comp_def] at same
    rw [same]
    exact .kept
  | @requested account changed absent =>
    left
    simp only [Option.bind_some, getElem?_insert_request]
    split
    · rename_i same
      rw [← same, absent]
      exact .requested
    · exact .kept
  | @requestedAgain account changed first second listed =>
    left
    simp only [Option.bind_some, getElem?_insert_request]
    split
    · rename_i same
      rw [← same, listed]
      exact .requestedAgain first second
    · exact .kept
  | @forgotten account slots forgotten changed _ _ listed forgets =>
    left
    cases forgotten with
    | removed =>
      simp only [Option.bind_some, Account.forget, getElem?_erase_request]
      split
      · rename_i same
        rw [← same, listed]
        exact .dropped forgets
      · exact .kept
    | kept later =>
      simp only [Option.bind_some, Account.forget, getElem?_insert_request]
      split
      · rename_i same
        rw [← same, listed]
        exact .withdrawn forgets
      · exact .kept
  | created codeHash codeLength minItemGas minMemoGas gratis taken =>
    -- The only account that was not there before has at most the request for its code, which is new.
    right
    refine ⟨taken, ?_⟩
    rw [Option.bind_some, requests_freshAccount]
    split
    · exact .inr rfl
    · exact .inl rfl
  | @ejected account ejectable =>
    left
    rw [Option.bind_some, Option.bind_none]
    cases listed : account.requests[request]? with
    | none => exact .kept
    | some slots => exact .dropped (Host.forgetSlots?_removed.mpr (.inr (ejectable.isExpired listed)))

/-- While the id for the next new service is unused, histories change as listed. -/
theorem Served.history (served : x.Served config timeslot call x') (fresh : x.Fresh) (id : ServiceId)
    (request : Request) :
    HistoryChange timeslot (Host.cutoffSlot config timeslot) (x.state.accounts.history? id request)
      (x'.state.accounts.history? id request) := by
  rcases (served.accountChange id).history request with change | ⟨rfl, created⟩
  · exact change
  · have absent : x.state.accounts.history? x.nextFreeId request = none := by
      rw [Accounts.history?, fresh, Option.bind_none]
    rw [absent]
    rcases created with unlisted | listed
    · rw [show x'.state.accounts.history? x.nextFreeId request = none from unlisted]
      exact .kept
    · rw [show x'.state.accounts.history? x.nextFreeId request = some [] from listed]
      exact .requested

end Outcome

/-! ## Preimages -/

/-- The account has dropped a request that was never answered, or withdrawn before `cutoff`, and with it
what it held for the hash of the request. -/
structure Account.Dropped (account : Account) (request : Request) (cutoff : TimeSlot) (left : Account) :
    Prop where
  droppable : account.requests[request]? = some [] ∨
    ∃ first second, account.requests[request]? = some [first, second] ∧ second < cutoff
  unlisted : left.requests[request]? = none
  requests : ∀ other, other ≠ request → left.requests[other]? = account.requests[other]?
  unstored : left.preimages[request.hash]? = none
  preimages : ∀ other, other ≠ request.hash → left.preimages[other]? = account.preimages[other]?

theorem Account.dropped_forget {account : Account} {request : Request} {slots : History} {t cutoff : TimeSlot}
    (listed : account.requests[request]? = some slots)
    (forgets : Host.forgetSlots? slots t cutoff = some .removed) :
    account.Dropped request cutoff (account.forget request .removed) where
  droppable := by
    rw [listed]
    rcases Host.forgetSlots?_removed.mp forgets with rfl | expired
    · exact .inl rfl
    · obtain ⟨first, second, rfl, before⟩ := Host.isExpired_iff.mp expired
      exact .inr ⟨first, second, rfl, before⟩
  unlisted := Std.TreeMap.getElem?_erase_self
  requests other apart := (getElem?_erase_request _ _ _).trans (if_neg apart.symm)
  unstored := Std.TreeMap.getElem?_erase_self
  preimages other apart := by
    simp [forget, Std.TreeMap.getElem?_erase, apart.symm]

theorem Outcome.AccountChange.dropped {config : Config} {timeslot : TimeSlot} {x : Outcome} {call : HostCall}
    {id : ServiceId} {account left : Account} {hash : Hash} {preimage : Bytes}
    (change : x.AccountChange config timeslot call id (some account) (some left)) (old : id ≠ x.nextFreeId)
    (stored : account.preimages[hash]? = some preimage) (lost : left.preimages[hash]? ≠ some preimage) :
    call = .forget ∧ id = x.service ∧
      ∃ length, account.Dropped ⟨hash, length⟩ (Host.cutoffSlot config timeslot) left := by
  cases change with
  | kept _ preimages =>
    rw [Option.some.inj preimages] at lost
    contradiction
  | requested => contradiction
  | requestedAgain => contradiction
  | @forgotten account slots forgotten request calls own listed forgets =>
    cases forgotten with
    | kept => contradiction
    | removed =>
      have dropped := Account.dropped_forget listed forgets
      -- Preimages are found by hash alone, so the lengths of the two need not agree.
      have named : hash = request.hash := by
        refine Classical.byContradiction fun apart => lost ?_
        rw [dropped.preimages hash apart, stored]
      subst named
      exact ⟨calls, own, request.length, dropped⟩
  | created _ _ _ _ _ taken => contradiction

/-- Whenever an accumulation removes a preimage from an account that stays, the service of the account
has forgotten a request of its own for the hash of the preimage, which was never answered or withdrawn
before the cutoff. That request is gone, all others stay; so the account has no request of the length of
the preimage left if that is the length of the forgotten one. -/
theorem preimages_go_with_requests (config : Config) (state : ChainState) (input : AccumulationInput)
    (g last : Guest) (runs : input.guest? state = some g) (arrives : Guest.Arrives config g .continue last) :
    ∃ c c', last.context = .accumulation c ∧ (last.turn config).2.context = .accumulation c' ∧
      ∀ (id : ServiceId) (account left : Account) (hash : Hash) (preimage : Bytes),
        c.current.state.accounts[id]? = some account → c'.current.state.accounts[id]? = some left →
        account.preimages[hash]? = some preimage → left.preimages[hash]? ≠ some preimage →
        last.nextCall? config = some .forget ∧ id = c.current.service ∧
          ∃ length, account.Dropped ⟨hash, length⟩ (Host.cutoffSlot config input.timeslot) left ∧
            (length.toNat = preimage.size → ∀ own : UInt32, own.toNat = preimage.size →
              left.requests[(⟨hash, own⟩ : Request)]? = none) := by
  obtain ⟨c, c', held, after, reserves, changed⟩ := AccumulationInput.arrives_turn runs arrives
  refine ⟨c, c', held, after, ?_⟩
  intro id account left hash preimage present stays stored lost
  rcases changed with same | ⟨call, next, served⟩
  · rw [same, present] at stays
    obtain rfl := Option.some.inj stays
    contradiction
  · -- The account was there before, so it is not a new one in the place of another.
    have old : id ≠ c.current.nextFreeId := by
      rintro rfl
      rw [reserves.unused] at present
      contradiction
    have change := served.accountChange id
    rw [present, stays] at change
    obtain ⟨rfl, own, length, dropped⟩ := change.dropped old stored lost
    refine ⟨next, own, length, dropped, ?_⟩
    intro whole own same
    obtain rfl := UInt32.toNat_inj.mp (same.trans whole.symm)
    exact dropped.unlisted

def keptPreimage : Bytes := #[1, 2, 3, 4, 5]

def keptHash : Hash := Blake2b.digest keptPreimage

/-- An account with a preimage of five bytes, `slots` being the history of its request. It also has a
request for three bytes with the same hash, which has no answer. -/
def keeper (slots : History) : Account where
  balance := 1000
  preimages := (∅ : Std.TreeMap Hash Bytes).insert keptHash keptPreimage
  requests := ((∅ : Std.TreeMap Request History).insert ⟨keptHash, 5⟩ slots).insert ⟨keptHash, 3⟩ []

theorem keeper_stores (slots : History) :
    (callingAccount .forget keptHash (keeper slots)).preimages[keptHash]? = some keptPreimage := by
  have apart : compare (keeper slots).codeHash keptHash ≠ .eq :=
    show compare Hash.zero keptHash ≠ .eq by decide +kernel
  refine Std.TreeMap.getElem?_insert.trans ?_
  rw [if_neg apart]
  exact Std.TreeMap.getElem?_insert_self

theorem keptRequests_apart : (⟨keptHash, 3⟩ : Request) ≠ ⟨keptHash, 5⟩ :=
  fun same => absurd (congrArg Request.length same) (by decide)

theorem keeper_requests (slots : History) : (keeper slots).requests[(⟨keptHash, 5⟩ : Request)]? = some slots := by
  refine (getElem?_insert_request _ _ _ _).trans ?_
  rw [if_neg keptRequests_apart]
  exact Std.TreeMap.getElem?_insert_self

/-- A request withdrawn long ago goes with its preimage. -/
theorem keeper_drops_preimage :
    ∃ g c c' account left length,
      (callingInput 50000).guest? (callingChain .forget keptHash (keeper [1, 2])) = some g ∧
      g.context = .accumulation c ∧ (g.turn {}).2.context = .accumulation c' ∧
      c.current.state.accounts[(7 : ServiceId)]? = some account ∧
      c'.current.state.accounts[(7 : ServiceId)]? = some left ∧
      account.preimages[keptHash]? = some keptPreimage ∧ left.preimages[keptHash]? = none ∧
      g.nextCall? {} = some .forget ∧ account.Dropped ⟨keptHash, length⟩ (Host.cutoffSlot {} 50000) left := by
  have runs := callingGuest_runs .forget keptHash (keeper [1, 2]) 50000
  have start := callingGuest_arrives .forget keptHash (keeper [1, 2]) 50000
  have forgets := callingGuest_forgets keptHash (keeper [1, 2]) 50000 5 .removed (by decide +kernel)
    (keeper_requests [1, 2]) (by decide)
  obtain ⟨c, c', held, after, facts⟩ := preimages_go_with_requests {} _ _ _ _ runs start
  obtain rfl := HostContext.accumulation.inj (after.symm.trans forgets)
  obtain rfl := HostContext.accumulation.inj (held.symm.trans (AccumulationInput.guest?_context runs))
  have present := callingGuest_self? .forget keptHash (keeper [1, 2]) 50000
  have stored := keeper_stores [1, 2]
  have lost : ((callingAccount .forget keptHash (keeper [1, 2])).forget ⟨keptHash, 5⟩
      .removed).preimages[keptHash]? = none := Std.TreeMap.getElem?_erase_self
  obtain ⟨next, -, length, dropped, -⟩ := facts 7 _ _ keptHash keptPreimage present
    (Outcome.self?_setSelf _ _) stored (by rw [lost]; nofun)
  exact ⟨_, _, _, _, _, length, runs, held, after, present, Outcome.self?_setSelf _ _, stored, lost, next, dropped⟩

/-- A request for a hash that was never answered takes away the preimage of another request for it. -/
theorem keeper_loses_available_preimage :
    ∃ g c c' account left, (callingInput 5).guest? (callingChain .forget keptHash (keeper [1])) = some g ∧
      g.nextCall? {} = some .forget ∧ g.context = .accumulation c ∧
      (g.turn {}).2.context = .accumulation c' ∧
      c.current.state.accounts[(7 : ServiceId)]? = some account ∧
      c'.current.state.accounts[(7 : ServiceId)]? = some left ∧
      account.preimages[keptHash]? = some keptPreimage ∧ left.preimages[keptHash]? = none ∧
      keptPreimage.size = 5 ∧ left.requests[(⟨keptHash, 5⟩ : Request)]? = some [1] := by
  have forgets := callingGuest_forgets keptHash (keeper [1]) 5 3 .removed (by decide +kernel)
    Std.TreeMap.getElem?_insert_self rfl
  refine ⟨_, _, _, _, _, callingGuest_runs .forget keptHash (keeper [1]) 5,
    callingGuest_nextCall? .forget keptHash (keeper [1]) 5 rfl fun _ => rfl, rfl, forgets,
    callingGuest_self? .forget keptHash (keeper [1]) 5, Outcome.self?_setSelf _ _, keeper_stores [1],
    Std.TreeMap.getElem?_erase_self, rfl, ?_⟩
  refine (getElem?_erase_request _ _ _).trans ?_
  rw [if_neg keptRequests_apart]
  exact keeper_requests [1]

end ServiceVm
