import ServiceVm.Proofs.Machine.Charge

/-!
# Runs of a machine end

Every step that goes on either pays, or moves the program counter up within the code, or lands on a
block start, where the next step pays. `stepsLeft` bounds the steps that can follow.
-/
namespace ServiceVm.Machine

/-- A run without a bound on its length: steps until one of them stops the machine. -/
inductive Runs (mode : GasMode) : Machine → Exit → Machine → Prop where
  | stop {m next : Machine} {exit : Exit} : m.step mode = (exit, next) → exit ≠ .continue →
      Runs mode m exit next
  | next {m next last : Machine} {exit : Exit} : m.step mode = (.continue, next) →
      Runs mode next exit last → Runs mode m exit last

/-- Programs a machine can run: built ones whose places fit the program counter, with a meter that
remembers true costs. -/
structure WellFormed (m : Machine) : Prop where
  built : m.program.Built
  short : m.program.code.size < UInt32.size
  honest : m.meter.Honest m.program

/-- Gas buys a way through the whole code; while the block is paid for, what is left of the code
can be stepped through for free. -/
def stepsLeft (m : Machine) (mode : GasMode) : Nat :=
  m.gas.toNat * (m.program.code.size + 2) +
    if m.isDue mode then 0 else m.program.code.size + 1 - m.cpu.pc.toNat

theorem stepsLeft_lt_stepBound (m : Machine) (mode : GasMode) : m.stepsLeft mode < m.stepBound := by
  have expand := Nat.add_one_mul m.gas.toNat (m.program.code.size + 2)
  rw [stepsLeft, stepBound]
  split <;> omega

theorem stepsLeft_le (m : Machine) (mode : GasMode) :
    m.stepsLeft mode ≤ m.gas.toNat * (m.program.code.size + 2) + (m.program.code.size + 1) := by
  rw [stepsLeft]
  split <;> omega

theorem one_le_price {m : Machine} (wf : m.WellFormed) (mode : GasMode) : 1 ≤ (m.price mode).toNat := by
  cases mode with
  | perInstruction => exact Nat.le_refl 1
  | perBlock =>
    rw [price, Pipeline.blockCost_toNat wf.built wf.short]
    exact Nat.le_max_right _ _

theorem step_wellFormed {m : Machine} (wf : m.WellFormed) (mode : GasMode) : (m.step mode).2.WellFormed := by
  obtain ⟨program, kept⟩ := (step_spec wf.honest mode).frame wf.honest
  exact ⟨by rw [program]; exact wf.built, by rw [program]; exact wf.short, by rw [program]; exact kept⟩

/-- A step that does not stop the machine for good uses up some of the steps that are left. -/
theorem stepsLeft_step {m : Machine} (wf : m.WellFormed) (mode : GasMode)
    (goesOn : (m.step mode).1.isTerminal = false) :
    (m.step mode).2.stepsLeft mode < m.stepsLeft mode := by
  have stepped := step_spec wf.honest mode
  generalize (m.step mode).1 = exit at stepped goesOn
  generalize (m.step mode).2 = next at stepped
  cases stepped with
  | unpaid => contradiction
  | ran charged flow =>
    rename_i ready cpu stepEq
    cases charged with
    | paid meter due enough =>
      -- A unit of gas is worth more than a way through the whole code, however far the next place is back.
      have price := one_le_price wf mode
      have left : (m.gas - m.price mode).toNat + (m.price mode).toNat = m.gas.toNat := by
        rw [UInt64.toNat_sub_of_le _ _ enough]
        have := UInt64.le_iff_toNat_le.mp enough
        omega
      refine Nat.lt_of_le_of_lt (stepsLeft_le _ mode) ?_
      have spent : ((m.gas - m.price mode).toNat + 1) * (m.program.code.size + 2) ≤
          m.gas.toNat * (m.program.code.size + 2) := Nat.mul_le_mul_right _ (by omega)
      have expand := Nat.add_one_mul (m.gas - m.price mode).toNat (m.program.code.size + 2)
      simp only [stepsLeft, due, if_true]
      omega
    | free settled =>
      -- Nothing is taken within a block, but there the next place lies further up in the code.
      obtain rfl : mode = .perBlock := by cases mode <;> simp_all [isDue]
      simp only [stepsLeft, settled, Bool.false_eq_true, if_false]
      generalize there : cpu.pc = place at flow
      cases flow with
      | unknown => contradiction
      | stops _ stops => simp [stops] at goesOn
      | passes fetched =>
        obtain ⟨following, inside⟩ := wf.built.followingPc_toNat wf.short fetched
        split <;> omega
      | jumps target fetched _ lands =>
        obtain ⟨-, inside⟩ := wf.built.followingPc_toNat wf.short fetched
        simp only [isDue, there, lands, Bool.not_true, Bool.and_false, Bool.not_false, if_true]
        omega

theorem runFor_runs {mode : GasMode} (fuel : Nat) {m : Machine} (wf : m.WellFormed)
    (enough : m.stepsLeft mode < fuel) : Runs mode m (runFor mode fuel m).1 (runFor mode fuel m).2 := by
  induction fuel generalizing m with
  | zero => omega
  | succ fuel ih =>
    rw [runFor_succ]
    by_cases goesOn : (m.step mode).1 = .continue
    · have used := stepsLeft_step wf mode (by rw [goesOn]; rfl)
      have later := ih (step_wellFormed wf mode) (by omega)
      rw [if_pos goesOn]
      exact .next (Prod.ext goesOn rfl) later
    · rw [if_neg goesOn]
      exact .stop rfl goesOn

theorem run_runs {m : Machine} (wf : m.WellFormed) (mode : GasMode) :
    Runs mode m (m.run mode).1 (m.run mode).2 :=
  runFor_runs m.stepBound wf (m.stepsLeft_lt_stepBound mode)

namespace Runs

variable {mode : GasMode} {m last : Machine} {exit : Exit}

theorem ne_continue (runs : Runs mode m exit last) : exit ≠ .continue := by
  induction runs with
  | stop _ stops => exact stops
  | next _ _ ih => exact ih

theorem wellFormed (runs : Runs mode m exit last) (wf : m.WellFormed) : last.WellFormed := by
  induction runs with
  | stop step _ =>
    have kept := step_wellFormed wf mode
    rw [step] at kept
    exact kept
  | next step _ ih =>
    have kept := step_wellFormed wf mode
    rw [step] at kept
    exact ih kept

theorem stepsLeft_lt (runs : Runs mode m exit last) (wf : m.WellFormed)
    (goesOn : exit.isTerminal = false) : last.stepsLeft mode < m.stepsLeft mode := by
  induction runs with
  | @stop m next exit step _ =>
    have used := stepsLeft_step wf mode (by rw [step]; exact goesOn)
    rw [step] at used
    exact used
  | @next m next last exit step _ ih =>
    have used := stepsLeft_step wf mode (by rw [step]; rfl)
    have kept := step_wellFormed wf mode
    rw [step] at used kept
    exact Nat.lt_trans (ih kept goesOn) used

end Runs

end ServiceVm.Machine
