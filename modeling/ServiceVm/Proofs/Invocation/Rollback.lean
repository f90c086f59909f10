import ServiceVm.Proofs.Invocation.Guests

/-!
# Failed accumulations fall back to their checkpoint

An accumulation works on one outcome and keeps another to fall back to. `Turns` is a history of a
guest with the calls it made and paid for; along such a history the second outcome is the first one as
it stood after the last checkpoint, whatever was called since.
-/
namespace ServiceVm

theorem HostContext.keeps_checkpoint {config : Config} {c : AccumulationContext} {next : HostContext}
    {made : HostCall → Prop} (change : next = .accumulation c ∨
      ∃ call, made call ∧ (HostContext.accumulation c).Served config call next)
    (other : ¬made .checkpoint) : ∃ c', next = .accumulation c' ∧ c'.checkpoint = c.checkpoint := by
  rcases change with same | ⟨call, called, served⟩
  · exact ⟨c, same, rfl⟩
  · obtain ⟨c', after, -, kept, -⟩ := served.of_accumulation
    refine ⟨c', after, kept ?_⟩
    rintro rfl
    exact other called

theorem Host.checkpoint_eq_ok {s : HostState} {c : AccumulationContext} (config : Config)
    (held : s.context = .accumulation c) :
    HostCall.checkpoint.result config s =
      .ok (({ s with context := .accumulation { c with checkpoint := c.current } } : HostState).reply s.gas) := by
  simp only [HostCall.result, HostCall.action, checkpoint, HostAction.perform_get,
    HostState.accumulation_ok.mpr held, HostAction.perform_ok, HostAction.perform_modify,
    HostAction.perform_reply]

namespace Guest

variable {config : Config} {g g' last : Guest} {exit : Exit} {c : AccumulationContext} {id : UInt32}

theorem Dispatch.keeps_checkpoint (dispatch : Dispatch config g id exit g')
    (held : g.context = .accumulation c) (other : HostCall.ofId? id ≠ some .checkpoint) :
    ∃ c', g'.context = .accumulation c' ∧ c'.checkpoint = c.checkpoint := by
  have change := dispatch.context
  rw [held] at change
  refine HostContext.keeps_checkpoint change ?_
  intro granted
  exact other (permitted?_eq_some (granted?_eq_some granted).2).1

theorem Dispatch.checkpoint (dispatch : Dispatch config g id exit g')
    (held : g.context = .accumulation c) (granted : g.granted? id = some .checkpoint) :
    exit = .continue ∧ g'.context = .accumulation { c with checkpoint := c.current } := by
  have paid := granted?_eq_some granted
  have done := Host.checkpoint_eq_ok (s := (g.charged id).hostState) config held
  cases dispatch with
  | unpaid short => exact absurd paid.1 (UInt64.not_le.mpr short)
  | unknown unknown => simp [paid.2] at unknown
  | refused permitted _ refused =>
    obtain rfl := Option.some.inj (paid.2.symm.trans permitted)
    rw [done] at refused
    contradiction
  | served permitted _ served =>
    obtain rfl := Option.some.inj (paid.2.symm.trans permitted)
    obtain rfl := HostResult.ok.inj (done.symm.trans served)
    exact ⟨rfl, rfl⟩

theorem turn_keeps_checkpoint (held : g.context = .accumulation c)
    (other : g.nextCall? config ≠ some .checkpoint) :
    ∃ c', (g.turn config).2.context = .accumulation c' ∧ c'.checkpoint = c.checkpoint := by
  have change := g.turn_context config
  rw [held] at change
  exact HostContext.keeps_checkpoint change other

theorem turn_checkpoint (held : g.context = .accumulation c)
    (next : g.nextCall? config = some .checkpoint) :
    (g.turn config).1 = .continue ∧
      (g.turn config).2.context = .accumulation { c with checkpoint := c.current } := by
  rcases g.turn_cases config with ⟨id, -, granted, dispatch⟩ | ⟨idle, -⟩
  · rw [granted] at next
    exact dispatch.checkpoint held next
  · simp [idle] at next

/-- Turns of a guest, each with the call that was made and paid for in it, if any. -/
inductive Turns (config : Config) (g : Guest) : List (Option HostCall) → Exit → Guest → Prop where
  | start : Turns config g [] .continue g
  | turn {calls : List (Option HostCall)} {last : Guest} : Turns config g calls .continue last →
      Turns config g (calls ++ [last.nextCall? config]) (last.turn config).1 (last.turn config).2

theorem Reaches.turns (reached : Reaches config g exit last) : ∃ calls, Turns config g calls exit last := by
  induction reached with
  | start => exact ⟨[], .start⟩
  | turn _ ih =>
    obtain ⟨calls, turns⟩ := ih
    exact ⟨_, turns.turn⟩

/-- The outcome that turns with the given calls leave to fall back to: the one the guest worked on right
after the last checkpoint among them, or the initial one if there was no checkpoint. -/
inductive Fallback (config : Config) (g : Guest) (initial : Outcome) :
    List (Option HostCall) → Exit → Guest → Outcome → Prop where
  | initial {calls : List (Option HostCall)} {exit : Exit} {last : Guest} : some .checkpoint ∉ calls →
      Fallback config g initial calls exit last initial
  | checkpoint {before after : List (Option HostCall)} {exit : Exit} {mid last : Guest}
      {c : AccumulationContext} : Turns config g (before ++ [some .checkpoint]) .continue mid →
      mid.context = .accumulation c → Turns config mid after exit last → some .checkpoint ∉ after →
      Fallback config g initial (before ++ some .checkpoint :: after) exit last c.current

theorem Fallback.turn {initial x : Outcome} {calls : List (Option HostCall)}
    (fallback : Fallback config g initial calls .continue last x)
    (other : last.nextCall? config ≠ some .checkpoint) :
    Fallback config g initial (calls ++ [last.nextCall? config]) (last.turn config).1
      (last.turn config).2 x := by
  cases fallback with
  | initial none => exact .initial (by simp [none, other.symm])
  | checkpoint reached held turns none =>
    rw [List.append_assoc, List.cons_append]
    exact .checkpoint reached held turns.turn (by simp [none, other.symm])

/-- The checkpoint of an accumulation is the outcome that its history leaves to fall back to. -/
theorem Turns.fallback {calls : List (Option HostCall)} (turns : Turns config g calls exit last)
    (held : g.context = .accumulation c) :
    ∃ c', last.context = .accumulation c' ∧
      Fallback config g c.checkpoint calls exit last c'.checkpoint := by
  induction turns with
  | start => exact ⟨c, held, .initial List.not_mem_nil⟩
  | @turn calls last before ih =>
    obtain ⟨c', held', fallback⟩ := ih
    by_cases next : last.nextCall? config = some .checkpoint
    · obtain ⟨goesOn, after⟩ := turn_checkpoint held' next
      have turned := before.turn
      rw [next, goesOn] at turned ⊢
      exact ⟨_, after, .checkpoint (c := { c' with checkpoint := c'.current }) turned after .start
        List.not_mem_nil⟩
    · obtain ⟨c'', after, kept⟩ := turn_keeps_checkpoint held' next
      rw [← kept] at fallback
      exact ⟨c'', after, fallback.turn next⟩

end Guest

/-- An output of 32 bytes replaces the yielded hash of the outcome that stands, any other output does
not. -/
theorem AccumulationContext.commit_ok (c : AccumulationContext) (output : Bytes) :
    (∀ size : output.size = 32, c.commit (.ok output) = { c.current with yielded := some ⟨output, size⟩ }) ∧
      (output.size ≠ 32 → c.commit (.ok output) = c.current) := by
  constructor
  · intro size
    simp only [commit, Hash.ofBytes?, dif_pos size]
  · intro size
    simp only [commit, Hash.ofBytes?, dif_neg size]

/-- An accumulation whose code runs comes to an end. If it fails, the outcome it leaves is the one that
stood right after the last checkpoint it had paid for, or the initial one without a checkpoint; if
it halts, it is the outcome the guest has reached, which an output of 32 bytes makes yield that
output. No other call than a checkpoint changes the outcome to fall back to. -/
theorem accumulate_rolls_back (config : Config) (state : ChainState) (input : AccumulationInput)
    {g : Guest} (runs : input.guest? state = some g) :
    (g.run config).1 ≠ .continue ∧
    (∃ calls, Guest.Turns config g calls (g.run config).1 (g.run config).2) ∧
    ((accumulate config state input).result ∈ [.panic, .outOfGas] →
      ∀ calls, Guest.Turns config g calls (g.run config).1 (g.run config).2 →
        Guest.Fallback config g (input.initial state) calls (g.run config).1 (g.run config).2
          (accumulate config state input).outcome) ∧
    (∀ output, (accumulate config state input).result = .ok output →
      ∃ c, (g.run config).2.context = .accumulation c ∧
        (∀ size : output.size = 32, (accumulate config state input).outcome =
          { c.current with yielded := some ⟨output, size⟩ }) ∧
        (output.size ≠ 32 → (accumulate config state input).outcome = c.current)) ∧
    ∀ (caller : Guest) (c : AccumulationContext) (id : UInt32), caller.context = .accumulation c →
      HostCall.ofId? id ≠ some .checkpoint →
      ∃ c', (caller.dispatch config id).2.context = .accumulation c' ∧ c'.checkpoint = c.checkpoint := by
  have held := AccumulationInput.guest?_context runs
  obtain ⟨-, outcome⟩ := accumulate_some config runs
  refine ⟨Guest.run_stops (AccumulationInput.guest?_wellFormed runs) config, (g.run_reaches config).turns,
    ?_, ?_, ?_⟩
  · intro failed calls turns
    obtain ⟨c, left, fallback⟩ := turns.fallback held
    have stands : (accumulate config state input).outcome = c.checkpoint := by
      rw [outcome, left]
      rcases List.mem_pair.mp failed with panics | exhausted
      · rw [panics]
        rfl
      · rw [exhausted]
        rfl
    rw [stands]
    exact fallback
  · intro output halted
    obtain ⟨calls, turns⟩ := (g.run_reaches config).turns
    obtain ⟨c, left, -⟩ := turns.fallback held
    rw [outcome, halted, left]
    exact ⟨c, rfl, c.commit_ok output⟩
  · intro caller c id accumulates other
    exact (caller.dispatch_spec config id).keeps_checkpoint accumulates other

theorem blessingService_rolls_back :
    (accumulate coreless blessingService blessingInput).outcome.state.manager =
        UInt32.ofNat argumentStart ∧
      ∃ g calls, blessingInput.guest? blessingService = some g ∧
        Guest.Turns coreless g calls (g.run coreless).1 (g.run coreless).2 ∧
        Guest.Fallback coreless g (blessingInput.initial blessingService) calls (g.run coreless).1
          (g.run coreless).2 (accumulate coreless blessingService blessingInput).outcome := by
  have found : (blessingInput.guest? blessingService).isSome = true := by decide +kernel
  obtain ⟨g, runs⟩ := Option.isSome_iff_exists.mp found
  obtain ⟨-, ⟨calls, turns⟩, failed, -⟩ := accumulate_rolls_back coreless blessingService blessingInput runs
  have panics : (accumulate coreless blessingService blessingInput).result = .panic := by decide +kernel
  exact ⟨by decide +kernel, g, calls, runs, turns, failed (by simp [panics]) calls turns⟩

end ServiceVm
