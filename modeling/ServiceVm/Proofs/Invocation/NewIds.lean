import ServiceVm.Proofs.Invocation.AccessControl
import ServiceVm.Proofs.Invocation.CallingService
import ServiceVm.Proofs.Service.IdOrder

/-!
# Ids kept for new services

An accumulation keeps an id for the service it may create next. The id is found before the code runs,
and again after every new service, by a search that does not end once all public ids are taken.
`Guest.Arrives` are the states that a guest gets to past such searches: in all of them the id is
public and unused, in the outcome the guest works on and in its checkpoint, so a new service takes
the place of no account.
-/
namespace ServiceVm

namespace Guest

variable {config : Config} {g last : Guest} {exit : Exit}

/-- States of a guest between its turns, each search for an id on the way having ended: the one before
the start and the one that follows each new service. -/
inductive Arrives (config : Config) (g : Guest) : Exit → Guest → Prop where
  | start : g.context.HasFreeId → Arrives config g .continue g
  | turn {last : Guest} : Arrives config g .continue last →
      (last.nextCall? config = some .new → (last.turn config).2.context.HasFreeId) →
      Arrives config g (last.turn config).1 (last.turn config).2

theorem Arrives.reaches (arrives : Arrives config g exit last) : Reaches config g exit last := by
  induction arrives with
  | start => exact .start
  | turn _ _ ih => exact ih.turn

end Guest

namespace Outcome

variable {config : Config} {timeslot : TimeSlot} {call : HostCall} {x x' : Outcome}

/-- The id kept for the next new service is public and unused. -/
structure Reserves (x : Outcome) : Prop where
  isPublic : x.nextFreeId.IsPublic
  unused : x.Fresh

theorem Served.isPublic (served : x.Served config timeslot call x') (isPublic : x.nextFreeId.IsPublic) :
    x'.nextFreeId.IsPublic := by
  cases served with
  | new => exact Accounts.isPublic_freeId (ServiceId.isPublic_advance x.nextFreeId 42)
  | _ => exact isPublic

theorem Served.reserves (served : x.Served config timeslot call x') (reserves : x.Reserves)
    (free : call = .new → x'.state.accounts.HasFreeId) : x'.Reserves :=
  ⟨served.isPublic reserves.isPublic, served.fresh reserves.unused free⟩

/-- A new service leaves every account, up to what the service that creates it pays. -/
theorem Served.new_keeps (served : x.Served config timeslot .new x') (fresh : x.Fresh) {id : ServiceId}
    {account : Account} (found : x.state.accounts[id]? = some account) :
    ∃ balance, x'.state.accounts[id]? = some { account with balance } ∧
      (id ≠ x.service → balance = account.balance) := by
  cases served with
  | @new caller payer codeHash codeLength minItemGas minMemoGas gratis _ self pays =>
    have apart : id ≠ x.nextFreeId := by
      rintro rfl
      rw [fresh] at found
      contradiction
    refine (?_ : ∃ balance, ((x.state.accounts.insert x.service payer).insert x.nextFreeId _)[id]? = _ ∧ _)
    rw [getElem?_insert_service _ _ apart]
    by_cases own : id = x.service
    · subst own
      obtain rfl := Option.some.inj (self.symm.trans found)
      exact ⟨payer.balance, by rw [Std.TreeMap.getElem?_insert_self, Host.payFrom?_eq pays], absurd rfl⟩
    · rw [getElem?_insert_service _ payer own]
      exact ⟨account.balance, found, fun _ => rfl⟩

end Outcome

theorem HostContext.Served.bothOutcomes {config : Config} {call : HostCall} {c : AccumulationContext}
    {next : HostContext} {P : Outcome → Prop} (served : (HostContext.accumulation c).Served config call next)
    (current : P c.current) (checkpoint : P c.checkpoint)
    (kept : ∀ c', next = .accumulation c' → c.current.Served config c.timeslot call c'.current →
      P c'.current) : next.BothOutcomes P := by
  cases served with
  | observed => exact .accumulation current checkpoint
  | accumulation change =>
    cases change with
    | checkpoint => exact .accumulation current current
    | current change => exact .accumulation (kept _ rfl change) checkpoint

namespace AccumulationInput

variable {config : Config} {state : ChainState} {input : AccumulationInput} {g last : Guest} {exit : Exit}

theorem turn_bothOutcomes {P : Outcome → Prop} (runs : input.guest? state = some g)
    (reached : Guest.Reaches config g .continue last) (both : last.context.BothOutcomes P)
    (kept : ∀ {call c c'}, last.context = .accumulation c → last.nextCall? config = some call →
      (last.turn config).2.context = .accumulation c' →
      c.current.Served config input.timeslot call c'.current → P c.current → P c'.current) :
    (last.turn config).2.context.BothOutcomes P := by
  obtain ⟨c, held, -, timeslot⟩ := reaches_accumulates runs reached
  rcases last.turn_context config with same | ⟨call, next, served⟩
  · rw [same]
    exact both
  · rw [held] at both served
    obtain ⟨current, checkpoint⟩ := both
    refine served.bothOutcomes current checkpoint ?_
    intro c' after change
    rw [timeslot] at change
    exact kept held next after change current

theorem reaches_bothOutcomes {P : Outcome → Prop} (runs : input.guest? state = some g)
    (reached : Guest.Reaches config g exit last) (start : P (input.initial state))
    (kept : ∀ {call x x'}, x.Served config input.timeslot call x' → P x → P x') :
    last.context.BothOutcomes P := by
  induction reached with
  | start =>
    rw [guest?_context runs]
    exact .accumulation start start
  | turn before ih => exact turn_bothOutcomes runs before ih fun _ _ _ served current => kept served current

/-- Where an accumulation arrives, calls may rely on an id for the next new service. -/
theorem arrives_bothOutcomes {P : Outcome → Prop} (runs : input.guest? state = some g)
    (arrives : Guest.Arrives config g exit last) (start : P (input.initial state))
    (kept : ∀ {call x x'}, x.Served config input.timeslot call x' → P x →
      (call = .new → x'.state.accounts.HasFreeId) → P x') :
    last.context.BothOutcomes P := by
  induction arrives with
  | start =>
    rw [guest?_context runs]
    exact .accumulation start start
  | @turn last before free ih =>
    refine turn_bothOutcomes runs before.reaches ih ?_
    intro call c c' _ next after served current
    refine kept served current ?_
    rintro rfl
    have unused := free next
    rw [after] at unused
    exact unused

theorem initial_reserves (free : (input.initial state).state.accounts.HasFreeId) :
    (input.initial state).Reserves :=
  ⟨Accounts.isPublic_freeId (ServiceId.isPublic_ofOffset _), initial_fresh free⟩

theorem arrives_free (runs : input.guest? state = some g) (arrives : Guest.Arrives config g exit last) :
    (input.initial state).state.accounts.HasFreeId := by
  induction arrives with
  | start free =>
    rw [guest?_context runs] at free
    exact free
  | turn _ _ ih => exact ih

theorem arrives_reserves (runs : input.guest? state = some g) (arrives : Guest.Arrives config g exit last) :
    last.context.BothOutcomes Outcome.Reserves :=
  arrives_bothOutcomes runs arrives (initial_reserves (arrives_free runs arrives)) Outcome.Served.reserves

/-- A turn from a state that an accumulation arrives at changes the outcome as a call does, or not at
all. -/
theorem arrives_turn (runs : input.guest? state = some g) (arrives : Guest.Arrives config g .continue last) :
    ∃ c c', last.context = .accumulation c ∧ (last.turn config).2.context = .accumulation c' ∧
      c.current.Reserves ∧ (c'.current = c.current ∨ ∃ call, last.nextCall? config = some call ∧
        c.current.Served config input.timeslot call c'.current) := by
  have reserves := arrives_reserves runs arrives
  obtain ⟨c, held, -, timeslot⟩ := reaches_accumulates runs arrives.reaches
  rw [held] at reserves
  obtain ⟨current, -⟩ := reserves
  rcases last.turn_context config with same | ⟨call, called, served⟩
  · exact ⟨c, c, held, same.trans held, current, .inl rfl⟩
  · rw [held] at served
    obtain ⟨c', after, -, -, same | change⟩ := served.of_accumulation
    · exact ⟨c, c', held, after, current, .inl same⟩
    · rw [timeslot] at change
      exact ⟨c, c', held, after, current, .inr ⟨call, called, change⟩⟩

end AccumulationInput

/-- The id that an accumulation keeps for a new service is public and unused from the start on and
wherever the guest arrives, in both outcomes; so a new service leaves every account, up to what it
takes from its creator. The search for such an id ends if and only if a public id is unused, and
then finds the first unused one in cyclic order. -/
theorem new_ids_stay_unused (config : Config) (state : ChainState) (input : AccumulationInput) :
    ((input.initial state).state.accounts.HasFreeId → (input.initial state).Reserves) ∧
    (∀ g exit last, input.guest? state = some g → Guest.Arrives config g exit last →
      last.context.BothOutcomes Outcome.Reserves) ∧
    (∀ g last, input.guest? state = some g → Guest.Arrives config g .continue last →
      last.nextCall? config = some .new →
      ∃ c c', last.context = .accumulation c ∧ (last.turn config).2.context = .accumulation c' ∧
        ∀ (id : ServiceId) (account : Account), c.current.state.accounts[id]? = some account →
          ∃ balance, c'.current.state.accounts[id]? = some { account with balance } ∧
            (id ≠ c.current.service → balance = account.balance)) ∧
    ∀ (accounts : Accounts) (id : ServiceId), id.IsPublic →
      ((∃ last, accounts.Search id last) ↔ accounts.HasFreeId) ∧
      (accounts.HasFreeId → accounts.Search id (accounts.freeId id) ∧
        id.cycle.find? (fun other => !accounts.contains other) = some (accounts.freeId id)) := by
  refine ⟨AccumulationInput.initial_reserves,
    fun g exit last runs arrives => AccumulationInput.arrives_reserves runs arrives, ?_, ?_⟩
  · intro g last runs arrives next
    obtain ⟨c, c', held, after, reserves, same | ⟨call, called, change⟩⟩ :=
      AccumulationInput.arrives_turn runs arrives
    · refine ⟨c, c', held, after, fun id account found => ⟨account.balance, ?_, fun _ => rfl⟩⟩
      rw [same]
      exact found
    · obtain rfl := Option.some.inj (next.symm.trans called)
      exact ⟨c, c', held, after, fun id account found => change.new_keeps reserves.unused found⟩
  · intro accounts id isPublic
    exact ⟨Accounts.exists_search_iff isPublic,
      fun free => ⟨Accounts.freeId_search free isPublic, Accounts.find?_cycle free isPublic⟩⟩

theorem callingGuest_arrives (call : HostCall) (hash : Hash) (account : Account) (timeslot : TimeSlot) :
    Guest.Arrives {} (callingGuest call hash account timeslot) .continue
      (callingGuest call hash account timeslot) := by
  have absent : ((callingChain call hash account).accounts.credit 7 (totalAmount #[]))[(65536 : ServiceId)]? =
      none := by
    rw [Accounts.getElem?_credit, if_neg (by decide)]
    exact (Outcome.getElem?_insert_service _ _ (by decide)).trans Std.TreeMap.getElem?_emptyc
  refine .start ⟨65536, by decide, ?_⟩
  rw [Std.TreeMap.contains_eq_isSome_getElem?]
  exact congrArg Option.isSome absent

theorem creator_id_unused :
    ∃ g c, (callingInput 5).guest? (callingChain .new Hash.zero creator) = some g ∧
      g.nextCall? {} = some .new ∧ (g.turn {}).2.context = .accumulation c ∧
      c.current.state.accounts.size = 2 ∧ c.current.Reserves ∧ c.checkpoint.Reserves := by
  have runs := callingGuest_runs .new Hash.zero creator 5
  have arrives : Guest.Arrives {} (callingGuest .new Hash.zero creator 5)
      ((callingGuest .new Hash.zero creator 5).turn {}).1 ((callingGuest .new Hash.zero creator 5).turn {}).2 := by
    refine (callingGuest_arrives .new Hash.zero creator 5).turn fun _ => ?_
    rw [creator_creates]
    exact ⟨65536, by decide, by decide +kernel⟩
  have reserves := (new_ids_stay_unused {} (callingChain .new Hash.zero creator) (callingInput 5)).2.1
    _ _ _ runs arrives
  rw [creator_creates] at reserves
  obtain ⟨current, checkpoint⟩ := reserves
  exact ⟨_, _, runs, callingGuest_nextCall? .new Hash.zero creator 5 rfl fun _ => rfl, creator_creates,
    by decide +kernel, current, checkpoint⟩

end ServiceVm
