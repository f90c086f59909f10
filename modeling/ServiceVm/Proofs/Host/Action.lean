import ServiceVm.Host.Dispatch
import ServiceVm.Proofs.Result

/-!
# Steps of host calls

A call that succeeds has gone through every step of it, and leaves what its steps have made of the state
one after the other. A call that is refused leaves what they had made of it until then. `CleanAt` says
that this is nothing; it is lost by a step that changes the state before one that may refuse.
-/
namespace ServiceVm

namespace HostAction

variable {α : Type} {s s' : HostState} {step : Except Refusal α} {a : α} {refusal : Refusal}
  {rest : α → HostAction Unit} {action : HostAction Unit}

/-! ## Results -/

-- The proofs are not plain `rfl`: `simp` would leave such steps to the kernel, which then compares whole
-- calls.

theorem perform_get {rest : HostState → HostAction Unit} :
    perform (get >>= rest) s = (rest s).perform s := (rfl)

theorem perform_modify {change : HostState → HostState} {rest : PUnit → HostAction Unit} :
    perform (modify change >>= rest) s = (rest ⟨⟩).perform (change s) := (rfl)

theorem perform_updateCurrent {change : Outcome → Outcome} {rest : PUnit → HostAction Unit} :
    perform (Host.updateCurrent change >>= rest) s = (rest ⟨⟩).perform (s.mapCurrent change) := (rfl)

theorem perform_updateSelf {account : Account} {rest : PUnit → HostAction Unit} :
    perform (Host.updateSelf account >>= rest) s = (rest ⟨⟩).perform (s.mapCurrent (·.setSelf account)) := (rfl)

theorem perform_updateRefinement {change : RefinementContext → RefinementContext}
    {rest : PUnit → HostAction Unit} :
    perform (Host.updateRefinement change >>= rest) s = (rest ⟨⟩).perform (s.mapRefinement change) := (rfl)

theorem perform_writeMemory {start : Nat} {data : Bytes} {rest : PUnit → HostAction Unit} :
    perform (Host.writeMemory start data >>= rest) s =
      (rest ⟨⟩).perform { s with memory := s.memory.write start data } := (rfl)

theorem perform_reply {value : UInt64} : (Host.reply value).perform s = .ok (s.reply value) := (rfl)

theorem perform_ite {p : Prop} [Decidable p] {other : HostAction Unit} :
    perform (if p then action else other) s = if p then action.perform s else other.perform s :=
  apply_ite (perform · s) p action other

theorem perform_throw : perform (throw refusal) s = .error refusal s := (rfl)

theorem perform_ok : perform (liftM (.ok a : Except Refusal α) >>= rest) s = (rest a).perform s := (rfl)

theorem perform_error :
    perform (liftM (.error refusal : Except Refusal α) >>= rest) s = .error refusal s := (rfl)

theorem perform_guard {refused : Prop} [Decidable refused] {rest : PUnit → HostAction Unit} :
    perform (if refused then throw refusal >>= rest else action) s =
      if refused then .error refusal s else action.perform s := by
  split <;> rfl

/-! ## Success -/

theorem perform_reply_eq_ok {value : UInt64} : (Host.reply value).perform s = .ok s' ↔ s.reply value = s' := by
  rw [perform_reply, HostResult.ok.injEq]

theorem perform_throw_eq_ok : perform (throw refusal) s = .ok s' ↔ False := by
  simp [perform_throw]

theorem perform_lift_eq_ok :
    perform (liftM step >>= rest) s = .ok s' ↔ ∃ a, step = .ok a ∧ (rest a).perform s = .ok s' := by
  cases step with
  | ok a => simp [perform_ok]
  | error refusal => simp [perform_error]

theorem perform_guard_eq_ok {refused : Prop} [Decidable refused] {rest : PUnit → HostAction Unit} :
    perform (if refused then throw refusal >>= rest else action) s = .ok s' ↔
      ¬refused ∧ action.perform s = .ok s' := by
  rw [perform_guard]
  by_cases h : refused <;> simp [h]

/-! ## Refusals -/

/-- The action is refused, if at all, before it has changed the state. -/
def CleanAt (action : HostAction Unit) (s : HostState) : Prop :=
  ∀ refusal s', action.perform s = .error refusal s' → s' = s

theorem cleanAt_of_ok (done : action.perform s = .ok s') : action.CleanAt s := by
  intro refusal s' refused
  simp [done] at refused

theorem cleanAt_throw : CleanAt (throw refusal) s := by
  rintro _ _ ⟨⟩
  rfl

theorem cleanAt_get {rest : HostState → HostAction Unit} :
    CleanAt (get >>= rest) s ↔ (rest s).CleanAt s := Iff.rfl

theorem cleanAt_lift : CleanAt (liftM step >>= rest) s ↔ ∀ a, step = .ok a → (rest a).CleanAt s := by
  cases step with
  | ok a => simp [CleanAt, perform_ok]
  | error refusal => simp [CleanAt, perform_error]

theorem cleanAt_guard {refused : Prop} [Decidable refused] {rest : PUnit → HostAction Unit} :
    CleanAt (if refused then throw refusal >>= rest else action) s ↔ (¬refused → action.CleanAt s) := by
  simp only [CleanAt, perform_guard]
  by_cases h : refused <;> simp [h]

end HostAction

/-! ## What the steps change -/

namespace HostState

variable {s : HostState}

theorem mapCurrent_eq {c : AccumulationContext} (found : s.context = .accumulation c)
    (change : Outcome → Outcome) :
    s.mapCurrent change = { s with context := .accumulation { c with current := change c.current } } := by
  simp only [mapCurrent, found]

theorem mapRefinement_eq {c : RefinementContext} (found : s.context = .refinement c)
    (change : RefinementContext → RefinementContext) :
    s.mapRefinement change = { s with context := .refinement (change c) } := by
  simp only [mapRefinement, found]

@[simp]
theorem putExtra_context (s : HostState) (extra : Option UInt64) : (s.putExtra extra).context = s.context := by
  cases extra <;> rfl

@[simp]
theorem putExtra_gas (s : HostState) (extra : Option UInt64) : (s.putExtra extra).gas = s.gas := by
  cases extra <;> rfl

@[simp]
theorem putExtra_memory (s : HostState) (extra : Option UInt64) : (s.putExtra extra).memory = s.memory := by
  cases extra <;> rfl

theorem mapCurrent_mapCurrent (s : HostState) (first second : Outcome → Outcome) :
    (s.mapCurrent first).mapCurrent second = s.mapCurrent fun x => second (first x) := by
  cases held : s.context <;> simp [mapCurrent, held]

end HostState

end ServiceVm
