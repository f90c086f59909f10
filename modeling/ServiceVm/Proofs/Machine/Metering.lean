import ServiceVm.Proofs.Machine.Termination

/-!
# What gas decides

Gas decides how far a machine gets, and nothing else. A charge looks at the gas only to compare it with
the toll, and it changes neither registers nor memory nor the program counter. So a run is a run of
the unmetered processor up to the first toll that cannot be paid, in both gas modes; and a machine that
ran out of gas can be given more and goes on as if it had had that gas from the start.
-/
namespace ServiceVm

/-- `n` steps without billing, all of which go on. -/
inductive Cpu.Continues (p : Program) : Nat → Cpu → Cpu → Prop where
  | start {c : Cpu} : Continues p 0 c c
  | next {n : Nat} {c next last : Cpu} : c.step p = (.continue, next) → Continues p n next last →
      Continues p (n + 1) c last

namespace Machine

variable {m next last last' : Machine} {mode : GasMode} {exit exit' : Exit} {k : UInt64}

/-! ## Steps -/

theorem charge_frame (m : Machine) (mode : GasMode) :
    (m.charge mode).2.program = m.program ∧ (m.charge mode).2.cpu = m.cpu ∧
      (m.charge mode).2.gas ≤ m.gas := by
  rcases m.charge_cases mode with ⟨-, charge⟩ | ⟨-, enough, charge⟩ | ⟨-, -, charge⟩
  · rw [charge]
    exact ⟨rfl, rfl, UInt64.le_refl _⟩
  · rw [charge]
    refine ⟨rfl, rfl, ?_⟩
    rw [UInt64.le_iff_toNat_le, UInt64.toNat_sub_of_le _ _ enough]
    exact Nat.sub_le _ _
  · rw [charge]
    exact ⟨rfl, rfl, UInt64.le_refl _⟩

/-- A step that cannot be paid for leaves the processor alone, and one that is paid for is a step of
it. -/
theorem step_eq (m : Machine) (mode : GasMode) :
    m.step mode =
      if (m.charge mode).1 then
        ((m.cpu.step m.program).1, { (m.charge mode).2 with cpu := (m.cpu.step m.program).2 })
      else (.outOfGas, (m.charge mode).2) := by
  obtain ⟨program, cpu, -⟩ := m.charge_frame mode
  simp only [step, program, cpu]

theorem step_perInstruction {cpu : Cpu} (funded : instructionGas ≤ m.gas)
    (stepped : m.cpu.step m.program = (exit, cpu)) :
    m.step .perInstruction = (exit, { m with cpu, gas := m.gas - instructionGas }) := by
  have paid : m.charge .perInstruction = (true, { m with gas := m.gas - instructionGas }) := by
    simp only [charge, deduct?, if_pos funded]
  rw [step_eq, paid, stepped]
  rfl

/-- The processor by itself does not run out of gas. -/
theorem step_cases (m : Machine) (mode : GasMode) :
    ((m.charge mode).1 = false ∧ m.step mode = (.outOfGas, (m.charge mode).2)) ∨
    ((m.charge mode).1 = true ∧ (m.cpu.step m.program).1 ≠ .outOfGas ∧
      m.step mode = ((m.cpu.step m.program).1,
        { (m.charge mode).2 with cpu := (m.cpu.step m.program).2 })) := by
  rw [step_eq]
  cases (m.charge mode).1 with
  | false => exact .inl ⟨rfl, rfl⟩
  | true => exact .inr ⟨rfl, (m.cpu.step_flow m.program).ne_outOfGas, rfl⟩

theorem step_gas_le (m : Machine) (mode : GasMode) : (m.step mode).2.gas ≤ m.gas := by
  obtain ⟨-, -, gas⟩ := m.charge_frame mode
  rcases m.step_cases mode with ⟨-, step⟩ | ⟨-, -, step⟩
  · rw [step]
    exact gas
  · rw [step]
    exact gas

theorem gas_le_of_step (stepped : m.step mode = (exit, next)) : next.gas.toNat ≤ m.gas.toNat := by
  have less := m.step_gas_le mode
  rw [stepped] at less
  exact UInt64.le_iff_toNat_le.mp less

theorem step_funded (stepped : m.step mode = (exit, next)) (funded : exit ≠ .outOfGas) :
    m.cpu.step m.program = (exit, next.cpu) ∧ next.program = m.program := by
  rcases m.step_cases mode with ⟨-, step⟩ | ⟨-, -, step⟩
  · exact absurd (Prod.mk.inj (stepped.symm.trans step)).1 funded
  · obtain ⟨rfl, rfl⟩ := Prod.mk.inj (stepped.symm.trans step)
    exact ⟨rfl, (m.charge_frame mode).1⟩

theorem step_short (stepped : m.step mode = (.outOfGas, next)) :
    m.isDue mode = true ∧ m.gas < m.toll mode ∧ next = { m with meter := m.settled false mode } := by
  rcases m.step_cases mode with ⟨unpaid, step⟩ | ⟨-, funded, step⟩
  · obtain ⟨-, rfl⟩ := Prod.mk.inj (stepped.symm.trans step)
    rcases m.charge_cases mode with ⟨-, charge⟩ | ⟨-, -, charge⟩ | ⟨due, short, charge⟩
    · simp [charge] at unpaid
    · simp [charge] at unpaid
    · exact ⟨due, short, by rw [charge]⟩
  · exact absurd (Prod.mk.inj (stepped.symm.trans step)).1.symm funded

theorem gas_perInstruction (stepped : m.step .perInstruction = (exit, next)) (funded : exit ≠ .outOfGas) :
    next.gas.toNat + 1 = m.gas.toNat := by
  rcases m.step_cases .perInstruction with ⟨-, step⟩ | ⟨paid, -, step⟩
  · exact absurd (Prod.mk.inj (stepped.symm.trans step)).1 funded
  · obtain ⟨-, rfl⟩ := Prod.mk.inj (stepped.symm.trans step)
    rcases m.charge_cases .perInstruction with ⟨settled, -⟩ | ⟨-, enough, charge⟩ | ⟨-, -, charge⟩
    · contradiction
    · have left := UInt64.toNat_sub_of_le _ _ enough
      have bound := UInt64.le_iff_toNat_le.mp enough
      have one : (m.toll .perInstruction).toNat = 1 := rfl
      rw [charge]
      dsimp only
      omega
    · simp [charge] at paid

/-! ## More gas -/

def addGas (m : Machine) (amount : UInt64) : Machine := { m with gas := m.gas + amount }

theorem gas_addGas (fits : m.gas.toNat + k.toNat < UInt64.size) :
    (m.addGas k).gas.toNat = m.gas.toNat + k.toNat := by
  rw [addGas, UInt64.toNat_add, Nat.mod_eq_of_lt fits]

/-- What a charge asks for does not depend on the gas. -/
theorem charge_addGas_eq (m : Machine) (k : UInt64) (mode : GasMode) :
    (m.addGas k).charge mode =
      if m.isDue mode then
        if m.toll mode ≤ m.gas + k then
          (true, { m with gas := m.gas + k - m.toll mode, meter := m.settled true mode })
        else (false, { m with gas := m.gas + k, meter := m.settled false mode })
      else (true, m.addGas k) := by
  rw [charge_eq]
  cases mode <;> rfl

theorem charge_addGas (paid : (m.charge mode).1 = true) (fits : m.gas.toNat + k.toNat < UInt64.size) :
    (m.addGas k).charge mode = (true, (m.charge mode).2.addGas k) := by
  rw [charge_addGas_eq]
  rcases m.charge_cases mode with ⟨settled, charge⟩ | ⟨due, enough, charge⟩ | ⟨-, -, charge⟩
  · rw [charge, settled]
    rfl
  · have more : m.toll mode ≤ m.gas + k := by
      have sum : (m.gas + k).toNat = m.gas.toNat + k.toNat := gas_addGas fits
      rw [UInt64.le_iff_toNat_le] at enough ⊢
      omega
    have rest : m.gas + k - m.toll mode = m.gas - m.toll mode + k := by grind
    rw [charge, due, if_pos rfl, if_pos more, rest]
    rfl
  · simp [charge] at paid

/-- The block a machine could not pay for costs the same when it is asked for again. -/
theorem blockCost_again (m : Machine) :
    blockCost { m with meter := m.settled false .perBlock } = (m.blockCost.1, m.settled false .perBlock) := by
  cases known : m.meter.costs[m.cpu.pc]? with
  | some cost => simp only [blockCost, settled, known]
  | none => simp only [blockCost, settled, known, Std.TreeMap.getElem?_insert_self]

theorem toll_again (m : Machine) (mode : GasMode) :
    toll { m with meter := m.settled false mode } mode = m.toll mode := by
  cases mode with
  | perInstruction => rfl
  | perBlock => rw [toll, blockCost_again, toll]

theorem settled_again (m : Machine) (paid : Bool) (mode : GasMode) :
    settled { m with meter := m.settled false mode } paid mode = m.settled paid mode := by
  cases mode with
  | perInstruction => rfl
  | perBlock =>
    rw [settled, blockCost_again]
    rfl

theorem charge_resume (due : m.isDue mode = true) (k : UInt64) :
    (addGas { m with meter := m.settled false mode } k).charge mode = (m.addGas k).charge mode := by
  have still : isDue { m with meter := m.settled false mode } mode = true := by cases mode <;> rfl
  rw [charge_addGas_eq, charge_addGas_eq, due, still, if_pos rfl, if_pos rfl, toll_again, settled_again,
    settled_again]

theorem step_addGas (stepped : m.step mode = (exit, next)) (funded : exit ≠ .outOfGas)
    (fits : m.gas.toNat + k.toNat < UInt64.size) : (m.addGas k).step mode = (exit, next.addGas k) := by
  rcases m.step_cases mode with ⟨-, step⟩ | ⟨paid, -, step⟩
  · exact absurd (Prod.mk.inj (stepped.symm.trans step)).1 funded
  · obtain ⟨rfl, rfl⟩ := Prod.mk.inj (stepped.symm.trans step)
    rw [step_eq, charge_addGas paid fits]
    rfl

theorem step_resume (stepped : m.step mode = (.outOfGas, next)) (k : UInt64) :
    (next.addGas k).step mode = (m.addGas k).step mode := by
  obtain ⟨due, -, rfl⟩ := step_short stepped
  rw [step_eq, step_eq, charge_resume due]
  rfl

/-! ## Runs -/

namespace Runs

theorem unique (runs : Runs mode m exit last) (runs' : Runs mode m exit' last') :
    exit = exit' ∧ last = last' := by
  induction runs with
  | stop step stops =>
    cases runs' with
    | stop step' _ => exact Prod.mk.inj (step.symm.trans step')
    | next step' _ => exact absurd (Prod.mk.inj (step.symm.trans step')).1 stops
  | next step _ ih =>
    cases runs' with
    | stop step' stops => exact absurd (Prod.mk.inj (step'.symm.trans step)).1 stops
    | next step' rest =>
      obtain ⟨-, rfl⟩ := Prod.mk.inj (step.symm.trans step')
      exact ih rest

theorem congr {m' : Machine} (same : m.step mode = m'.step mode) :
    Runs mode m exit last ↔ Runs mode m' exit last := by
  constructor
  · intro runs
    cases runs with
    | stop step stops => exact .stop (same.symm.trans step) stops
    | next step rest => exact .next (same.symm.trans step) rest
  · intro runs
    cases runs with
    | stop step stops => exact .stop (same.trans step) stops
    | next step rest => exact .next (same.trans step) rest

theorem next_iff (step : m.step mode = (.continue, next)) :
    Runs mode m exit last ↔ Runs mode next exit last := by
  constructor
  · intro runs
    cases runs with
    | stop step' stops => exact absurd (Prod.mk.inj (step'.symm.trans step)).1 stops
    | next step' rest =>
      obtain ⟨-, rfl⟩ := Prod.mk.inj (step.symm.trans step')
      exact rest
  · exact .next step

theorem gas_le (runs : Runs mode m exit last) : last.gas.toNat ≤ m.gas.toNat := by
  induction runs with
  | stop step _ => exact gas_le_of_step step
  | next step _ ih => exact Nat.le_trans ih (gas_le_of_step step)

theorem addGas (runs : Runs mode m exit last) (funded : exit ≠ .outOfGas)
    (fits : m.gas.toNat + k.toNat < UInt64.size) : Runs mode (m.addGas k) exit (last.addGas k) := by
  induction runs with
  | stop step stops => exact .stop (step_addGas step funded fits) stops
  | @next m next last exit step _ ih =>
    have less := gas_le_of_step step
    exact .next (step_addGas step nofun fits) (ih funded (by omega))

/-- A run that ran out of gas goes on, with more gas, as the run that had it from the start. -/
theorem resume {short : Machine} (runs : Runs mode m .outOfGas short)
    (fits : m.gas.toNat + k.toNat < UInt64.size) :
    Runs mode (short.addGas k) exit last ↔ Runs mode (m.addGas k) exit last := by
  generalize exhausted : Exit.outOfGas = stopped at runs
  induction runs with
  | stop step _ =>
    subst exhausted
    exact congr (step_resume step k)
  | @next m next short stopped step _ ih =>
    have less := gas_le_of_step step
    rw [next_iff (step_addGas step nofun fits)]
    exact ih (by omega) exhausted

theorem continues (runs : Runs mode m .outOfGas last) : ∃ n, Cpu.Continues m.program n m.cpu last.cpu := by
  generalize exhausted : Exit.outOfGas = stopped at runs
  induction runs with
  | stop step _ =>
    subst exhausted
    obtain ⟨-, -, rfl⟩ := step_short step
    exact ⟨0, .start⟩
  | next step _ ih =>
    obtain ⟨stepped, program⟩ := step_funded step nofun
    obtain ⟨n, rest⟩ := ih exhausted
    rw [program] at rest
    exact ⟨n + 1, .next stepped rest⟩

/-- Runs from the same state that have enough gas end in the same state, however they are billed. -/
theorem agree {mode' : GasMode} {m' : Machine} (runs : Runs mode m exit last) (funded : exit ≠ .outOfGas)
    (runs' : Runs mode' m' exit' last') (funded' : exit' ≠ .outOfGas) (program : m'.program = m.program)
    (cpu : m'.cpu = m.cpu) : exit = exit' ∧ last.cpu = last'.cpu := by
  induction runs generalizing m' with
  | @stop m next exit step stops =>
    obtain ⟨stepped, -⟩ := step_funded step funded
    cases runs' with
    | stop step' _ =>
      obtain ⟨stepped', -⟩ := step_funded step' funded'
      rw [program, cpu] at stepped'
      exact Prod.mk.inj (stepped.symm.trans stepped')
    | next step' _ =>
      obtain ⟨stepped', -⟩ := step_funded step' nofun
      rw [program, cpu] at stepped'
      exact absurd (Prod.mk.inj (stepped.symm.trans stepped')).1 stops
  | @next m next last exit step _ ih =>
    obtain ⟨stepped, same⟩ := step_funded step nofun
    cases runs' with
    | stop step' stops =>
      obtain ⟨stepped', -⟩ := step_funded step' funded'
      rw [program, cpu] at stepped'
      exact absurd (Prod.mk.inj (stepped'.symm.trans stepped)).1 stops
    | next step' rest =>
      obtain ⟨stepped', same'⟩ := step_funded step' nofun
      rw [program, cpu] at stepped'
      obtain ⟨-, there⟩ := Prod.mk.inj (stepped'.symm.trans stepped)
      exact ih funded rest (by rw [same', same, program]) there

end Runs

theorem runs_of_runFor (fuel : Nat) (stops : (runFor mode fuel m).1 ≠ .continue) :
    Runs mode m (runFor mode fuel m).1 (runFor mode fuel m).2 := by
  induction fuel generalizing m with
  | zero => contradiction
  | succ fuel ih =>
    rw [runFor_succ] at stops ⊢
    by_cases goesOn : (m.step mode).1 = .continue
    · rw [if_pos goesOn] at stops ⊢
      exact .next (Prod.ext goesOn rfl) (ih stops)
    · rw [if_neg goesOn]
      exact .stop rfl goesOn

theorem runs_of_run (ran : m.run mode = (exit, last)) (exits : exit ≠ .continue) :
    Runs mode m exit last := by
  have runs := runs_of_runFor (m := m) m.stepBound (by rw [← run, ran]; exact exits)
  rw [← run, ran] at runs
  exact runs

theorem runFor_perInstruction_stops (fuel : Nat) (enough : m.gas.toNat < fuel) :
    (runFor .perInstruction fuel m).1 ≠ .continue := by
  induction fuel generalizing m with
  | zero => omega
  | succ fuel ih =>
    rw [runFor_succ]
    by_cases goesOn : (m.step .perInstruction).1 = .continue
    · have step : m.step .perInstruction = (.continue, (m.step .perInstruction).2) := Prod.ext goesOn rfl
      have paid := gas_perInstruction step nofun
      rw [if_pos goesOn]
      exact ih (by omega)
    · rw [if_neg goesOn]
      exact goesOn

theorem run_perInstruction_stops (m : Machine) : (m.run .perInstruction).1 ≠ .continue := by
  refine runFor_perInstruction_stops m.stepBound ?_
  have gas : (m.gas.toNat + 1) * 1 ≤ m.stepBound := Nat.mul_le_mul_left _ (by omega)
  omega

theorem WellFormed.addGas (wf : m.WellFormed) (k : UInt64) : (m.addGas k).WellFormed :=
  ⟨wf.built, wf.short, wf.honest⟩

theorem run_eq (wf : m.WellFormed) (runs : Runs mode m exit last) : m.run mode = (exit, last) := by
  obtain ⟨exits, ends⟩ := (run_runs wf mode).unique runs
  exact Prod.ext exits ends

/-! ## Main results -/

/-- Gas can be topped up. In both modes, a machine that ran out of gas and gets `k` more goes on exactly
as the machine that had `k` more from the start, and a run that ended otherwise ends the same with `k`
more gas, all of which is left over. This holds of runs of every machine, and of what `run` gives
for the machines whose runs are known to end. -/
theorem gas_top_up_composes (m : Machine) (mode : GasMode) (k : UInt64)
    (fits : m.gas.toNat + k.toNat < UInt64.size) :
    (∀ short, Runs mode m .outOfGas short → (short.addGas k).gas.toNat = short.gas.toNat + k.toNat ∧
      ∀ exit last, Runs mode (short.addGas k) exit last ↔ Runs mode (m.addGas k) exit last) ∧
    (∀ exit last, Runs mode m exit last → exit ≠ .outOfGas →
      Runs mode (m.addGas k) exit (last.addGas k) ∧
        (last.addGas k).gas.toNat = last.gas.toNat + k.toNat) ∧
    (m.WellFormed →
      ((m.run mode).1 = .outOfGas →
        ((m.run mode).2.addGas k).run mode = (m.addGas k).run mode) ∧
      ((m.run mode).1 ≠ .outOfGas →
        ((m.addGas k).run mode).1 = (m.run mode).1 ∧
        ((m.addGas k).run mode).2.cpu = (m.run mode).2.cpu ∧
        ((m.addGas k).run mode).2.gas.toNat = (m.run mode).2.gas.toNat + k.toNat)) := by
  have total {exit : Exit} {last : Machine} (runs : Runs mode m exit last) :
      (last.addGas k).gas.toNat = last.gas.toNat + k.toNat := by
    have less := runs.gas_le
    exact gas_addGas (by omega)
  refine ⟨?_, ?_, ?_⟩
  · intro short runs
    exact ⟨total runs, fun exit last => runs.resume fits⟩
  · intro exit last runs funded
    exact ⟨runs.addGas funded fits, total runs⟩
  · intro wf
    have runs := run_runs wf mode
    constructor
    · intro exhausted
      rw [exhausted] at runs
      have whole := run_runs (wf.addGas k) mode
      exact run_eq ((runs.wellFormed wf).addGas k) ((runs.resume fits).mpr whole)
    · intro funded
      rw [run_eq (wf.addGas k) (runs.addGas funded fits)]
      exact ⟨rfl, rfl, total runs⟩

def twoBlocks (gas : UInt64) : Machine where
  program := Program.ofCode #[1, 51, 0, 7, 0] #[true, true, false, false, true] #[] 0
  cpu := ⟨0, Registers.zero, {}⟩
  gas

/-- With 1 gas a machine of two blocks runs out of gas between them. -/
theorem twoBlocks_top_up :
    ((twoBlocks 1).run .perBlock).1 = .outOfGas ∧ ((twoBlocks 1).run .perBlock).2.cpu.pc = 1 ∧
      (((twoBlocks 1).run .perBlock).2.addGas 4).run .perBlock = ((twoBlocks 1).addGas 4).run .perBlock := by
  have exhausted : ((twoBlocks 1).run .perBlock).1 = .outOfGas := by decide +kernel
  have wf : (twoBlocks 1).WellFormed := ⟨.ofCode _ _ _ _, by decide, Meter.honest_fresh _⟩
  exact ⟨exhausted, by decide +kernel,
    ((gas_top_up_composes (twoBlocks 1) .perBlock 4 (by decide)).2.2 wf).1 exhausted⟩

/-- The gas mode does not change what a program computes. Whatever the gas, a run that is billed by
instructions and a run that is billed by blocks have the same exit and leave the same registers,
memory and place, if neither runs out of gas. One that does has got as far as the processor gets
by some number of steps that go on. Billed by instructions every run exits; billed by blocks, the
runs do that are known to end. -/
theorem gas_mode_keeps_results (p : Program) (cpu : Cpu) (gas₁ gas₂ : UInt64) (meter₁ meter₂ : Meter)
    {exit₁ exit₂ : Exit} {last₁ last₂ : Machine}
    (single : run ⟨p, cpu, gas₁, meter₁⟩ .perInstruction = (exit₁, last₁))
    (block : run ⟨p, cpu, gas₂, meter₂⟩ .perBlock = (exit₂, last₂)) :
    exit₁ ≠ .continue ∧ (WellFormed ⟨p, cpu, gas₂, meter₂⟩ → exit₂ ≠ .continue) ∧
    (exit₁ ≠ .outOfGas → exit₂ ≠ .outOfGas → exit₂ ≠ .continue →
      exit₁ = exit₂ ∧ last₁.cpu = last₂.cpu) ∧
    (exit₁ = .outOfGas → ∃ n, Cpu.Continues p n cpu last₁.cpu) ∧
    (exit₂ = .outOfGas → ∃ n, Cpu.Continues p n cpu last₂.cpu) := by
  have stops : exit₁ ≠ .continue := by
    have exits := run_perInstruction_stops ⟨p, cpu, gas₁, meter₁⟩
    rw [single] at exits
    exact exits
  refine ⟨stops, ?_, ?_, ?_, ?_⟩
  · intro wf
    have runs := run_runs wf .perBlock
    rw [block] at runs
    exact runs.ne_continue
  · intro funded₁ funded₂ exits
    exact (runs_of_run single stops).agree funded₁ (runs_of_run block exits) funded₂ rfl rfl
  · rintro rfl
    exact (runs_of_run single nofun).continues
  · rintro rfl
    exact (runs_of_run block nofun).continues

/-- Both modes take two blocks to the same end; with 1 gas they stop on the way there. -/
theorem twoBlocks_mode_keeps_results :
    ((twoBlocks 5).run .perInstruction).1 = .panic ∧ ((twoBlocks 5).run .perBlock).1 = .panic ∧
      ((twoBlocks 5).run .perInstruction).2.cpu = ((twoBlocks 5).run .perBlock).2.cpu ∧
      ∃ n, Cpu.Continues (twoBlocks 1).program n (twoBlocks 1).cpu ((twoBlocks 1).run .perBlock).2.cpu := by
  have single : (twoBlocks 5).run .perInstruction = (.panic, ((twoBlocks 5).run .perInstruction).2) :=
    Prod.ext (by decide +kernel) rfl
  have block : (twoBlocks 5).run .perBlock = (.panic, ((twoBlocks 5).run .perBlock).2) :=
    Prod.ext (by decide +kernel) rfl
  have short : (twoBlocks 1).run .perBlock = (.outOfGas, ((twoBlocks 1).run .perBlock).2) :=
    Prod.ext (by decide +kernel) rfl
  have funded := gas_mode_keeps_results _ _ 5 5 {} {} single block
  have exhausted := gas_mode_keeps_results _ _ 5 1 {} {} single short
  exact ⟨congrArg Prod.fst single, congrArg Prod.fst block, (funded.2.2.1 nofun nofun nofun).2,
    exhausted.2.2.2.2 rfl⟩

end Machine

end ServiceVm
