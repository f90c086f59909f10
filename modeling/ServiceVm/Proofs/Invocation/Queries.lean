import ServiceVm.Proofs.Host.Atomicity
import ServiceVm.Proofs.Invocation.Requests

/-!
# What queries tell

The history of a request never has more than three slots: it grows only when the preimage is
requested, withdrawn, and requested again, and then it is cut. Such histories fit into the two words that
a query replies, and can be read back from them.
-/
namespace ServiceVm

/-! ## Orderly histories -/

/-- A history as it comes about up to slot `t`. -/
structure History.Orderly (slots : History) (t : TimeSlot) : Prop where
  short : slots.length ≤ 3
  sorted : slots.Pairwise (· ≤ ·)
  past : ∀ slot ∈ slots, slot ≤ t

theorem History.Orderly.nil (t : TimeSlot) : History.Orderly [] t := ⟨by simp, .nil, nofun⟩

theorem History.Orderly.push {slots : History} {t : TimeSlot} (orderly : slots.Orderly t)
    (room : slots.length ≤ 2) : History.Orderly (slots ++ [t]) t := by
  obtain ⟨-, sorted, past⟩ := orderly
  refine ⟨by simp; omega, ?_, ?_⟩
  · rw [List.pairwise_append]
    exact ⟨sorted, List.pairwise_singleton _ _, fun a known b last => List.mem_singleton.mp last ▸ past a known⟩
  · intro slot known
    rcases List.mem_append.mp known with old | last
    · exact past slot old
    · exact List.mem_singleton.mp last ▸ UInt32.le_refl _

theorem History.Orderly.of_suffix {slots later : History} {t : TimeSlot} (orderly : slots.Orderly t)
    (cut : later <:+ slots) : later.Orderly t :=
  ⟨Nat.le_trans cut.length_le orderly.short, orderly.sorted.sublist cut.sublist,
    fun slot known => orderly.past slot (cut.subset known)⟩

theorem History.Orderly.of_kept {slots later : History} {t cutoff : TimeSlot} (orderly : slots.Orderly t)
    (forgets : Host.forgetSlots? slots t cutoff = some (.kept later)) : later.Orderly t := by
  match slots with
  | [] => simp [Host.forgetSlots?] at forgets
  | [x] =>
    obtain rfl : [x, t] = later := by simpa [Host.forgetSlots?] using forgets
    exact orderly.push (by simp)
  | [x, y] => simp [Host.forgetSlots?] at forgets
  | [x, y, w] =>
    obtain ⟨-, rfl⟩ : y < cutoff ∧ [w, t] = later := by simpa [Host.forgetSlots?] using forgets
    -- Only the slot at which the preimage became available again is kept.
    have last : History.Orderly [w] t := orderly.of_suffix ⟨[x, y], rfl⟩
    exact last.push (by simp)
  | _ :: _ :: _ :: _ :: _ => simp [Host.forgetSlots?] at forgets

theorem HistoryChange.orderly {t cutoff : TimeSlot} {before after : Option History}
    (change : HistoryChange t cutoff before after) (orderly : ∀ slots, before = some slots → slots.Orderly t) :
    ∀ slots, after = some slots → slots.Orderly t := by
  cases change with
  | kept => exact orderly
  | requested =>
    rintro _ ⟨rfl⟩
    exact .nil t
  | requestedAgain first second =>
    rintro _ ⟨rfl⟩
    exact (orderly _ rfl).push (by simp)
  | withdrawn forgets =>
    rintro _ ⟨rfl⟩
    exact (orderly _ rfl).of_kept forgets
  | dropped => nofun

/-- All histories of all requests are orderly. -/
def Accounts.Orderly (accounts : Accounts) (t : TimeSlot) : Prop :=
  ∀ (service : ServiceId) (request : Request) (slots : History),
    accounts.history? service request = some slots → slots.Orderly t

theorem Outcome.Served.orderly {config : Config} {timeslot : TimeSlot} {call : HostCall} {x x' : Outcome}
    (served : x.Served config timeslot call x') (orderly : x.state.accounts.Orderly timeslot) :
    x'.state.accounts.Orderly timeslot := by
  intro service request
  rcases (served.accountChange service).history request with change | ⟨-, unlisted | listed⟩
  · exact change.orderly (orderly service request)
  · rw [Accounts.history?, unlisted]
    simp
  · rw [Accounts.history?, listed]
    rintro _ ⟨rfl⟩
    exact .nil timeslot

theorem AccumulationInput.initial_orderly {state : ChainState} {input : AccumulationInput}
    (orderly : state.accounts.Orderly input.timeslot) :
    (input.initial state).state.accounts.Orderly input.timeslot := by
  intro service request
  rw [show (input.initial state).state.accounts.history? service request = state.accounts.history? service request
    from state.accounts.history?_credit input.service service _ request]
  exact orderly service request

/-! ## Histories in two words -/

namespace Host

/-- The history that two words stand for. -/
def unpackHistory? (first second : UInt64) : Option History :=
  let slot := UInt32.ofNat (first.toNat / UInt32.size)
  match first.toNat % UInt32.size with
  | 0 => some []
  | 1 => some [slot]
  | 2 => some [slot, second.toUInt32]
  | 3 => some [slot, second.toUInt32, UInt32.ofNat (second.toNat / UInt32.size)]
  | _ => none

theorem unpackHistory?_none : unpackHistory? Refusal.none.code 0 = none := by decide

theorem add_wide_parts (count : UInt64) (slot : TimeSlot) (small : count.toNat < UInt32.size) :
    (count + wide slot).toNat % UInt32.size = count.toNat ∧
      UInt32.ofNat ((count + wide slot).toNat / UInt32.size) = slot := by
  rw [toNat_add_wide slot small, Nat.add_mul_mod_self_right, Nat.mod_eq_of_lt small,
    Nat.add_mul_div_right _ _ (by decide), Nat.div_eq_of_lt small, Nat.zero_add, UInt32.ofNat_toNat]
  exact ⟨rfl, rfl⟩

theorem unpackHistory?_packHistory? {slots : History} {first second : UInt64}
    (packs : packHistory? slots = some (first, second)) : unpackHistory? first second = some slots := by
  match slots, packs with
  | [], rfl => rfl
  | [x], rfl =>
    obtain ⟨count, slot⟩ := add_wide_parts 1 x (by decide)
    simp only [unpackHistory?, count, slot, UInt64.reduceToNat]
  | [x, y], rfl =>
    obtain ⟨count, slot⟩ := add_wide_parts 2 x (by decide)
    simp only [unpackHistory?, count, slot, UInt64.reduceToNat, UInt32.toUInt32_toUInt64]
  | [x, y, w], rfl =>
    obtain ⟨count, slot⟩ := add_wide_parts 3 x (by decide)
    obtain ⟨low, high⟩ := add_wide_parts y.toUInt64 w y.toNat_lt
    have middle : (y.toUInt64 + wide w).toUInt32 = y := by
      rw [UInt32.toNat_toUInt64] at low
      rw [← UInt32.toNat_inj, UInt64.toNat_toUInt32, ← low]
    simp only [unpackHistory?, count, slot, UInt64.reduceToNat, middle, high]

theorem exists_packHistory? {slots : History} (short : slots.length ≤ 3) :
    ∃ first second, packHistory? slots = some (first, second) := by
  match slots with
  | [] | [_] | [_, _] | [_, _, _] => exact ⟨_, _, rfl⟩
  | _ :: _ :: _ :: _ :: _ =>
    simp only [List.length_cons] at short
    omega

/-- Two words tell a history, or that there is none, and nothing else. -/
structure Tells (first second : UInt64) (history : Option History) : Prop where
  missing : history = none → first = Refusal.none.code ∧ second = 0
  found : ∀ slots, history = some slots →
    first ≠ Refusal.none.code ∧ packHistory? slots = some (first, second)
  unpacks : unpackHistory? first second = history

theorem tells_packed {history : Option History} (short : ∀ slots, history = some slots → slots.length ≤ 3) :
    Tells ((history.bind packHistory?).getD (Refusal.none.code, 0)).1
      ((history.bind packHistory?).getD (Refusal.none.code, 0)).2 history := by
  cases history with
  | none => exact ⟨fun _ => ⟨rfl, rfl⟩, nofun, unpackHistory?_none⟩
  | some slots =>
    obtain ⟨first, second, packs⟩ := exists_packHistory? (short slots rfl)
    rw [Option.bind_some, packs, Option.getD_some]
    refine ⟨nofun, ?_, unpackHistory?_packHistory? packs⟩
    rintro _ ⟨rfl⟩
    exact ⟨(isAnswer_packHistory? packs).ne_code .none, packs⟩

theorem query_ok {s : HostState} {c : AccumulationContext} {hash : Hash} (named : s.readHash s.r7 = .ok hash)
    (context : s.context = .accumulation c)
    (short : ∀ slots, requestHistory? c.current hash s.r8 = some slots → slots.length ≤ 3) :
    ∃ s', query.perform s = .ok s' ∧ Tells s'.r7 s'.r8 (requestHistory? c.current hash s.r8) := by
  have tells := tells_packed short
  have apart : Reg.r7 ≠ Reg.r8 := by decide
  simp only [query, HostAction.perform_get, named, HostState.accumulation, context, HostAction.perform_ok,
    HostAction.perform_modify, HostAction.perform_reply]
  refine ⟨_, rfl, ?_⟩
  simpa only [HostState.reply, HostState.r7, HostState.r8, RegFile.get_put, if_neg apart,
    if_true] using tells

theorem requestHistory?_eq_some {x : Outcome} {hash : Hash} {length : UInt64} {slots : History}
    (listed : requestHistory? x hash length = some slots) :
    ∃ short, toUInt32? length = some short ∧
      x.state.accounts.history? x.service ⟨hash, short⟩ = some slots := by
  simp only [requestHistory?, Option.bind_eq_bind, Option.bind_eq_some_iff] at listed
  obtain ⟨short, fits, account, self, found⟩ := listed
  exact ⟨short, fits, (Outcome.history?_self self _).trans found⟩

end Host

/-- An accumulation that starts with orderly histories has only such in both outcomes, in every state it
reaches. So a query for a hash that can be read tells the history of the request of the caller, or that
there is none. -/
theorem queries_tell_histories (config : Config) (state : ChainState) (input : AccumulationInput) (g : Guest)
    (runs : input.guest? state = some g) (orderly : state.accounts.Orderly input.timeslot) :
    (∀ exit last, Guest.Reaches config g exit last →
      last.context.BothOutcomes fun x => x.state.accounts.Orderly input.timeslot) ∧
    ∀ last hash, Guest.Reaches config g .continue last → last.nextCall? config = some .query →
      (last.asked config .query).readHash (last.asked config .query).r7 = .ok hash →
      ∃ c, last.context = .accumulation c ∧ (last.turn config).1 = .continue ∧
        Host.Tells (last.turn config).2.hostState.r7 (last.turn config).2.hostState.r8
          (Host.requestHistory? c.current hash (last.asked config .query).r8) := by
  have always : ∀ {exit last}, Guest.Reaches config g exit last →
      last.context.BothOutcomes fun x => x.state.accounts.Orderly input.timeslot := fun reached =>
    AccumulationInput.reaches_bothOutcomes runs reached (AccumulationInput.initial_orderly orderly)
      Outcome.Served.orderly
  refine ⟨fun _ _ reached => always reached, ?_⟩
  intro last hash reached next named
  obtain ⟨c, held, -⟩ := AccumulationInput.reaches_accumulates runs reached
  have both := always reached
  rw [held] at both
  obtain ⟨current, -⟩ := both
  obtain ⟨s, answered, tells⟩ := Host.query_ok named (c := c) held fun slots listed => by
    obtain ⟨short, -, known⟩ := Host.requestHistory?_eq_some listed
    exact (current _ _ slots known).short
  have served : HostCall.query.result config (last.asked config .query) = .ok s := answered
  rw [Guest.turn_of_nextCall? next, served]
  exact ⟨c, held, rfl, tells⟩

theorem keeper_orderly : (callingChain .query keptHash (keeper [1, 2])).accounts.Orderly 50000 := by
  have orderly : ∀ slots : History, slots = [] ∨ slots = [1, 2] → slots.Orderly 50000 := by
    rintro slots (rfl | rfl)
    · exact .nil _
    · refine ⟨by decide, by decide, ?_⟩
      simp only [List.forall_mem_cons, List.not_mem_nil, false_implies, implies_true, and_true]
      decide
  intro service request slots listed
  obtain ⟨account, present, listed⟩ := Option.bind_eq_some_iff.mp listed
  obtain rfl : callingAccount .query keptHash (keeper [1, 2]) = account := by
    have entry := Std.TreeMap.getElem?_insert.symm.trans present
    split at entry
    · exact Option.some.inj entry
    · simp at entry
  have listed : (keeper [1, 2]).requests[request]? = some slots := listed
  simp only [keeper, getElem?_insert_request] at listed
  refine orderly slots ?_
  split at listed
  · exact .inl (Option.some.inj listed).symm
  · split at listed
    · exact .inr (Option.some.inj listed).symm
    · simp at listed

/-- A query for a request that was withdrawn at slot 2. -/
theorem keeper_tells_history :
    ∃ g, (callingInput 50000).guest? (callingChain .query keptHash (keeper [1, 2])) = some g ∧
      g.nextCall? {} = some .query ∧ (g.turn {}).1 = .continue ∧
      Host.Tells (g.turn {}).2.hostState.r7 (g.turn {}).2.hostState.r8 (some [1, 2]) ∧
      (g.turn {}).2.hostState.r7 = 0x100000002 ∧ (g.turn {}).2.hostState.r8 = 2 := by
  have runs := callingGuest_runs .query keptHash (keeper [1, 2]) 50000
  have next := callingGuest_nextCall? .query keptHash (keeper [1, 2]) 50000 rfl fun _ => rfl
  have asked := callingGuest_asked .query keptHash (keeper [1, 2]) 50000
  have named := callingState_readHash .query keptHash (keeper [1, 2]) 50000
  rw [← asked] at named
  obtain ⟨c, held, goesOn, tells⟩ := (queries_tell_histories {} _ _ _ runs keeper_orderly).2 _ _ .start next named
  have history : Host.requestHistory? c.current keptHash
      ((callingGuest .query keptHash (keeper [1, 2]) 50000).asked {} .query).r8 = some [1, 2] := by
    have short : toUInt32? (UInt64.ofNat (callingInput 50000).argument.size) = some 5 := by decide +kernel
    obtain rfl := HostContext.accumulation.inj (held.symm.trans (AccumulationInput.guest?_context runs))
    rw [asked, callingState_r8]
    simp only [Host.requestHistory?, short, callingGuest_self?, Option.bind_eq_bind, Option.bind_some]
    exact keeper_requests [1, 2]
  rw [history] at tells
  obtain ⟨-, packs⟩ := tells.found _ rfl
  have words := Option.some.inj packs
  exact ⟨_, runs, next, goesOn, tells, (congrArg Prod.fst words).symm, (congrArg Prod.snd words).symm⟩

end ServiceVm
