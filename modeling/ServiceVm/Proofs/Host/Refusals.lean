import ServiceVm.Proofs.Host.Served

/-!
# Refused calls leave the state alone

A call checks what it was given before it changes anything, with one exception: `provide` finds out that
a preimage is provided already when it adds it to the others. Adding it a second time changes nothing.
-/
namespace ServiceVm

theorem treeSet_insert_of_contains {α : Type} {cmp : α → α → Ordering} {t : Std.TreeSet α cmp} {a : α}
    (member : t.contains a = true) : t.insert a = t := by
  obtain ⟨⟨⟨tree, balanced⟩⟩⟩ := t
  simp only [Std.TreeSet.contains, Std.TreeMap.contains, Std.DTreeMap.contains] at member
  simp [Std.TreeSet.insert, Std.TreeMap.insertIfNew, Std.DTreeMap.insertIfNew,
    Std.DTreeMap.Internal.Impl.insertIfNew, member]

theorem Outcome.insert_provision {x : Outcome} {provision : Provision}
    (present : x.provisions.contains provision = true) :
    { x with provisions := x.provisions.insert provision } = x := by
  rw [treeSet_insert_of_contains present]

namespace Host

open HostAction

variable {s : HostState}

theorem writeSlice_cleanAt (value : Bytes) (output offset len : UInt64) :
    (writeSlice value output offset len).CleanAt s := by
  intro refusal s' refused
  rw [HostState.perform_writeSlice s ⟨value, output, offset, len⟩] at refused
  split at refused
  · contradiction
  · split at refused
    · contradiction
    · exact (HostResult.error.inj refused).2.symm

theorem writeSlice?_cleanAt (value : Option Bytes) (output offset len : UInt64) :
    (writeSlice? value output offset len).CleanAt s := by
  cases value with
  | some value => exact writeSlice_cleanAt value output offset len
  | none => exact cleanAt_throw

theorem provide_cleanAt : provide.CleanAt s := by
  simp only [provide, cleanAt_get, cleanAt_lift, cleanAt_guard, HostState.accumulation_ok]
  rintro preimage - c found service - account - - refusal s' refused
  -- The one call that is refused after a change: the preimage was there, and the change is none.
  simp only [perform_updateCurrent, perform_guard, perform_reply] at refused
  split at refused
  · rename_i present
    obtain ⟨-, rfl⟩ := HostResult.error.inj refused
    rw [HostState.mapCurrent_eq found, Outcome.insert_provision present, ← found]
  · contradiction

end Host

namespace HostCall

open HostAction

/-- Whatever a call is refused for, it is refused before it has changed the state. -/
theorem action_cleanAt (call : HostCall) (config : Config) (s : HostState) :
    (call.action config).CleanAt s := by
  cases call
  case provide => exact Host.provide_cleanAt
  case fetch | lookup | read | info | historicalLookup =>
    simp only [action, Host.fetch, Host.lookup, Host.read, Host.info, Host.historicalLookup, cleanAt_get,
      cleanAt_lift]
    intros
    exact Host.writeSlice?_cleanAt _ _ _ _
  case solicit =>
    simp only [action, Host.solicit, cleanAt_get, cleanAt_lift]
    intros
    split
    · simp only [cleanAt_guard]
      intros
      exact cleanAt_of_ok rfl
    · simp only [cleanAt_guard]
      intros
      exact cleanAt_of_ok rfl
    · exact cleanAt_throw
  case machine =>
    simp only [action, Host.machine, cleanAt_get, cleanAt_lift]
    intros
    split
    · exact cleanAt_throw
    · simp only [cleanAt_lift]
      intros
      exact cleanAt_of_ok rfl
  case peek =>
    simp only [action, Host.peek, cleanAt_get, cleanAt_lift, cleanAt_guard]
    intros
    split
    · exact cleanAt_throw
    · exact cleanAt_of_ok rfl
  case invoke =>
    simp only [action, Host.invoke, cleanAt_get, cleanAt_guard]
    intros
    split
    · exact cleanAt_throw
    · simp only [cleanAt_lift]
      intros
      exact cleanAt_of_ok rfl
  all_goals
    simp only [action, Host.gas, Host.write, Host.exportSegment, Host.poke, Host.pages, Host.expunge, Host.bless,
      Host.assign, Host.designate, Host.checkpoint, Host.new, Host.upgrade, Host.transfer, Host.eject,
      Host.query, Host.forget, Host.yield, Host.log, cleanAt_get, cleanAt_lift, cleanAt_guard]
    intros
    exact cleanAt_of_ok rfl

theorem state_of_result_error {call : HostCall} {config : Config} {s s' : HostState} {refusal : Refusal}
    (refused : call.result config s = .error refusal s') : s' = s :=
  call.action_cleanAt config s refusal s' refused

end HostCall

end ServiceVm
