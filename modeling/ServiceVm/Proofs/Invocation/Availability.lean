import ServiceVm.Proofs.Invocation.Requests

/-!
# When preimages were available

Preimages that are withdrawn stay for a while, so that others can still look up what was available a
short time ago. Between the slot before which withdrawn preimages may be dropped and the slot of the
accumulation lies a window of slots for which no call changes whether a preimage was available.
-/
namespace ServiceVm

/-- Whether the preimage that a service requested was available at `slot`; a preimage that it did not
request was not. -/
def Accounts.availableAt (accounts : Accounts) (service : ServiceId) (request : Request) (slot : TimeSlot) :
    Bool :=
  (accounts.history? service request).any (·.availableAt slot)

/-- The accounts agree on what was available at the slots of the window. -/
def Accounts.SameWindow (config : Config) (timeslot : TimeSlot) (before after : Accounts) : Prop :=
  ∀ (service : ServiceId) (request : Request) (slot : TimeSlot),
    timeslot.toNat - config.params.expungePeriod.toNat ≤ slot.toNat → slot < timeslot →
    after.availableAt service request slot = before.availableAt service request slot

theorem History.availableAt_of_removed {slots : History} {t cutoff slot : TimeSlot}
    (forgets : Host.forgetSlots? slots t cutoff = some .removed) (low : cutoff ≤ slot) :
    slots.availableAt slot = false := by
  rcases Host.forgetSlots?_removed.mp forgets with rfl | expired
  · rfl
  · obtain ⟨first, second, rfl, before⟩ := Host.isExpired_iff.mp expired
    have late : ¬slot < second := by
      rw [UInt32.lt_iff_toNat_lt] at before ⊢
      rw [UInt32.le_iff_toNat_le] at low
      omega
    simp [availableAt, late]

theorem History.availableAt_of_kept {slots later : History} {t cutoff slot : TimeSlot}
    (forgets : Host.forgetSlots? slots t cutoff = some (.kept later)) (low : cutoff ≤ slot) (high : slot < t) :
    later.availableAt slot = slots.availableAt slot := by
  match slots with
  | [] => simp [Host.forgetSlots?] at forgets
  | [x] =>
    obtain rfl : [x, t] = later := by simpa [Host.forgetSlots?] using forgets
    simp [availableAt, high]
  | [x, y] => simp [Host.forgetSlots?] at forgets
  | [x, y, w] =>
    obtain ⟨before, rfl⟩ : y < cutoff ∧ [w, t] = later := by simpa [Host.forgetSlots?] using forgets
    have late : ¬slot < y := by
      rw [UInt32.lt_iff_toNat_lt] at before ⊢
      rw [UInt32.le_iff_toNat_le] at low
      omega
    simp [availableAt, high, late]
  | _ :: _ :: _ :: _ :: _ => simp [Host.forgetSlots?] at forgets

theorem HistoryChange.availableAt {t cutoff slot : TimeSlot} {before after : Option History}
    (change : HistoryChange t cutoff before after) (low : cutoff ≤ slot) (high : slot < t) :
    after.any (·.availableAt slot) = before.any (·.availableAt slot) := by
  cases change with
  | kept => rfl
  | requested => rfl
  | requestedAgain first second =>
    have notYet : ¬t ≤ slot := UInt32.not_le.mpr high
    simp [History.availableAt, notYet]
  | withdrawn forgets => exact History.availableAt_of_kept forgets low high
  | dropped forgets => exact (History.availableAt_of_removed forgets low).symm

namespace Accounts.SameWindow

variable {config : Config} {timeslot : TimeSlot} {first second third : Accounts}

theorem trans (before : first.SameWindow config timeslot second)
    (after : second.SameWindow config timeslot third) : first.SameWindow config timeslot third :=
  fun service request slot low high =>
    (after service request slot low high).trans (before service request slot low high)

theorem symm (same : first.SameWindow config timeslot second) : second.SameWindow config timeslot first :=
  fun service request slot low high => (same service request slot low high).symm

theorem of_history? (same : ∀ service request, second.history? service request = first.history? service request) :
    first.SameWindow config timeslot second := by
  intro service request slot low high
  rw [availableAt, availableAt, same]

end Accounts.SameWindow

theorem Outcome.Served.sameWindow {config : Config} {timeslot : TimeSlot} {call : HostCall} {x x' : Outcome}
    (served : x.Served config timeslot call x') (fresh : x.Fresh) :
    x.state.accounts.SameWindow config timeslot x'.state.accounts := by
  intro service request slot low high
  refine (served.history fresh service request).availableAt ?_ high
  -- Early in the chain there is no slot to cut off at, and the difference is zero.
  have small := Nat.lt_of_le_of_lt low slot.toNat_lt
  rw [UInt32.le_iff_toNat_le, Host.cutoffSlot, UInt32.toNat_ofNat_of_lt' small]
  exact low

namespace AccumulationInput

variable {config : Config} {state : ChainState} {input : AccumulationInput} {g last : Guest} {exit : Exit}

theorem initial_sameWindow (config : Config) (state : ChainState) (input : AccumulationInput) :
    state.accounts.SameWindow config input.timeslot (input.initial state).state.accounts :=
  .of_history? fun service request => state.accounts.history?_credit input.service service _ request

/-- A turn from a state that the guest arrives at keeps the window in both outcomes. -/
theorem turn_sameWindow (runs : input.guest? state = some g) (arrives : Guest.Arrives config g .continue last)
    (both : last.context.BothOutcomes fun x =>
      state.accounts.SameWindow config input.timeslot x.state.accounts) :
    (last.turn config).2.context.BothOutcomes fun x =>
      state.accounts.SameWindow config input.timeslot x.state.accounts := by
  refine turn_bothOutcomes runs arrives.reaches both ?_
  intro call c c' held _ _ served window
  have reserves := arrives_reserves runs arrives
  rw [held] at reserves
  obtain ⟨⟨-, fresh⟩, -⟩ := reserves
  exact window.trans (served.sameWindow fresh)

theorem arrives_sameWindow (runs : input.guest? state = some g) (arrives : Guest.Arrives config g exit last) :
    last.context.BothOutcomes fun x =>
      state.accounts.SameWindow config input.timeslot x.state.accounts := by
  induction arrives with
  | start =>
    rw [guest?_context runs]
    exact .accumulation (initial_sameWindow config state input) (initial_sameWindow config state input)
  | turn before _ ih => exact turn_sameWindow runs before ih

end AccumulationInput

/-- No call of an accumulation changes whether a preimage was available at a slot of the window, neither
in the outcome it works on nor in its checkpoint, and wherever the guest arrives both outcomes agree on
that with the accounts before the accumulation. -/
theorem availability_windows_settled (config : Config) (state : ChainState) (input : AccumulationInput)
    (g : Guest) (runs : input.guest? state = some g) :
    (∀ last, Guest.Arrives config g .continue last →
      ∃ c c', last.context = .accumulation c ∧ (last.turn config).2.context = .accumulation c' ∧
        c.current.state.accounts.SameWindow config input.timeslot c'.current.state.accounts ∧
        c.checkpoint.state.accounts.SameWindow config input.timeslot c'.checkpoint.state.accounts) ∧
    ∀ exit last, Guest.Arrives config g exit last →
      last.context.BothOutcomes fun x =>
        state.accounts.SameWindow config input.timeslot x.state.accounts := by
  refine ⟨?_, fun exit last arrives => AccumulationInput.arrives_sameWindow runs arrives⟩
  intro last arrives
  have before := AccumulationInput.arrives_sameWindow runs arrives
  have after := AccumulationInput.turn_sameWindow runs arrives before
  generalize last.context = context at before ⊢
  generalize (last.turn config).2.context = context' at after ⊢
  obtain @⟨c, current, checkpoint⟩ := before
  obtain @⟨c', current', checkpoint'⟩ := after
  exact ⟨c, c', rfl, rfl, current.symm.trans current', checkpoint.symm.trans checkpoint'⟩

theorem keeper_was_available :
    ∃ g c c', (callingInput 50000).guest? (callingChain .forget keptHash (keeper [1])) = some g ∧
      g.context = .accumulation c ∧ (g.turn {}).2.context = .accumulation c' ∧
      c'.current.state.accounts.history? 7 ⟨keptHash, 5⟩ = some [1, 50000] ∧
      c.current.state.accounts.availableAt 7 ⟨keptHash, 5⟩ 40000 = true ∧
      c'.current.state.accounts.availableAt 7 ⟨keptHash, 5⟩ 40000 = true := by
  have runs := callingGuest_runs .forget keptHash (keeper [1]) 50000
  have start := callingGuest_arrives .forget keptHash (keeper [1]) 50000
  have forgets := callingGuest_forgets keptHash (keeper [1]) 50000 5 (.kept [1, 50000])
    (by decide +kernel) (keeper_requests [1]) (by decide)
  obtain ⟨c, c', held, after, window, -⟩ := (availability_windows_settled {} _ _ _ runs).1 _ start
  obtain rfl := HostContext.accumulation.inj (after.symm.trans forgets)
  obtain rfl := HostContext.accumulation.inj (held.symm.trans (AccumulationInput.guest?_context runs))
  have before : ((callingInput 50000).context
      (callingChain .forget keptHash (keeper [1]))).current.state.accounts.history? 7 ⟨keptHash, 5⟩ = some [1] :=
    (Outcome.history?_self (callingGuest_self? .forget keptHash (keeper [1]) 50000) _).trans (keeper_requests [1])
  have available : ((callingInput 50000).context
      (callingChain .forget keptHash (keeper [1]))).current.state.accounts.availableAt 7 ⟨keptHash, 5⟩ 40000 =
        true := by
    rw [Accounts.availableAt, before]
    rfl
  refine ⟨_, _, _, runs, held, after, ?_, available, ?_⟩
  · exact (Outcome.history?_self (Outcome.self?_setSelf _ _) _).trans Std.TreeMap.getElem?_insert_self
  · rw [window 7 ⟨keptHash, 5⟩ 40000 (by decide) (by decide)]
    exact available

end ServiceVm
