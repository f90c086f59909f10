import ServiceVm.Machine
import ServiceVm.Proofs.Pipeline.Progress

/-!
# What a step charges

A step is free while the block of the program counter is paid for, and otherwise costs the price of
the instruction or of the block. `charge_spec` lists the three outcomes; the remembered prices never
differ from the ones the pipeline gives.
-/
namespace ServiceVm

/-- The remembered costs are those of the program's blocks. -/
def Meter.Honest (p : Program) (meter : Meter) : Prop :=
  ∀ pc cost, meter.costs[pc]? = some cost → cost = Pipeline.blockCost p CostTable.baseline pc

/-- Meters of a machine that runs `p`: a fresh one, or what runs of the machine have left. Between
runs the machine may have got other registers, memory and gas, and go on elsewhere. -/
inductive Meter.LeftBy (p : Program) : Meter → Prop where
  | fresh : LeftBy p {}
  | run (m : Machine) (mode : GasMode) : m.program = p → LeftBy p m.meter →
      LeftBy p (m.run mode).2.meter

theorem Meter.honest_fresh (p : Program) : ({} : Meter).Honest p := by
  intro pc cost found
  simp at found

theorem Meter.Honest.insert {p : Program} {meter : Meter} (honest : meter.Honest p) (pc : UInt32)
    (paid : Bool) :
    ({ costs := meter.costs.insert pc (Pipeline.blockCost p CostTable.baseline pc), paid } :
      Meter).Honest p := by
  intro other cost found
  rw [Std.TreeMap.getElem?_insert] at found
  split at found
  · rename_i same
    rw [← Std.LawfulEqOrd.eq_of_compare same]
    exact (Option.some.inj found).symm
  · exact honest other cost found

namespace Machine

def price (m : Machine) : GasMode → UInt64
  | .perInstruction => instructionGas
  | .perBlock => Pipeline.blockCost m.program CostTable.baseline m.cpu.pc

/-- Whether the next step has to be paid for. -/
def isDue (m : Machine) : GasMode → Bool
  | .perInstruction => true
  | .perBlock => !(m.meter.paid && !m.program.isBlockStart m.cpu.pc.toNat)

/-- What the meter asks for the next step. -/
def toll (m : Machine) : GasMode → UInt64
  | .perInstruction => instructionGas
  | .perBlock => m.blockCost.1

def settled (m : Machine) (paid : Bool) : GasMode → Meter
  | .perInstruction => m.meter
  | .perBlock => { m.blockCost.2 with paid }

theorem charge_eq (m : Machine) (mode : GasMode) :
    m.charge mode =
      if m.isDue mode then
        if m.toll mode ≤ m.gas then
          (true, { m with gas := m.gas - m.toll mode, meter := m.settled true mode })
        else (false, { m with meter := m.settled false mode })
      else (true, m) := by
  cases mode with
  | perInstruction =>
    rw [charge, isDue, if_pos rfl]
    by_cases enough : instructionGas ≤ m.gas
    · simp only [deduct?, if_pos enough]
      exact (if_pos enough).symm
    · simp only [deduct?, if_neg enough]
      exact (if_neg enough).symm
  | perBlock =>
    rw [charge, isDue]
    cases free : m.meter.paid && !m.program.isBlockStart m.cpu.pc.toNat with
    | true => rfl
    | false =>
      by_cases enough : m.blockCost.1 ≤ m.gas
      · simp only [deduct?, if_pos enough]
        exact (if_pos enough).symm
      · simp only [deduct?, if_neg enough]
        exact (if_neg enough).symm

theorem charge_cases (m : Machine) (mode : GasMode) :
    (m.isDue mode = false ∧ m.charge mode = (true, m)) ∨
    (m.isDue mode = true ∧ m.toll mode ≤ m.gas ∧
      m.charge mode = (true, { m with gas := m.gas - m.toll mode, meter := m.settled true mode })) ∨
    (m.isDue mode = true ∧ m.gas < m.toll mode ∧
      m.charge mode = (false, { m with meter := m.settled false mode })) := by
  rw [charge_eq]
  cases m.isDue mode with
  | false => exact .inl ⟨rfl, rfl⟩
  | true =>
    by_cases enough : m.toll mode ≤ m.gas
    · exact .inr (.inl ⟨rfl, enough, if_pos enough⟩)
    · exact .inr (.inr ⟨rfl, UInt64.not_le.mp enough, if_neg enough⟩)

/-- Outcomes of a charge: whether the step may run, and the machine that runs it. -/
inductive Charge (m : Machine) (mode : GasMode) : Bool → Machine → Prop where
  | free : m.isDue mode = false → Charge m mode true m
  | paid (meter : Meter) : m.isDue mode = true → m.price mode ≤ m.gas → meter.Honest m.program →
      (mode = .perBlock → meter.paid = true) →
      Charge m mode true { m with gas := m.gas - m.price mode, meter }
  | short (meter : Meter) : m.isDue mode = true → m.gas < m.price mode → meter.Honest m.program →
      (mode = .perBlock → meter.paid = false) → Charge m mode false { m with meter }

theorem toll_spec {m : Machine} (honest : m.meter.Honest m.program) (mode : GasMode) :
    m.toll mode = m.price mode ∧ ∀ paid, (m.settled paid mode).Honest m.program := by
  cases mode with
  | perInstruction => exact ⟨rfl, fun paid => honest⟩
  | perBlock =>
    simp only [toll, settled, blockCost]
    split
    · rename_i cost found
      exact ⟨honest _ _ found, fun paid => honest⟩
    · exact ⟨rfl, fun paid => honest.insert _ _⟩

theorem settled_paid {m : Machine} {mode : GasMode} (paid : Bool) (block : mode = .perBlock) :
    (m.settled paid mode).paid = paid := by
  subst block
  rfl

theorem charge_spec {m : Machine} (honest : m.meter.Honest m.program) (mode : GasMode) :
    m.Charge mode (m.charge mode).1 (m.charge mode).2 := by
  obtain ⟨asked, kept⟩ := toll_spec honest mode
  rcases m.charge_cases mode with ⟨settled, charge⟩ | ⟨due, enough, charge⟩ | ⟨due, short, charge⟩
  · rw [charge]
    exact .free settled
  · rw [asked] at enough charge
    rw [charge]
    exact .paid _ due enough (kept true) (settled_paid true)
  · rw [asked] at short
    rw [charge]
    exact .short _ due short (kept false) (settled_paid false)

/-- Outcomes of a step. -/
inductive Stepped (m : Machine) (mode : GasMode) : Exit → Machine → Prop where
  | unpaid {next : Machine} : m.Charge mode false next → Stepped m mode .outOfGas next
  | ran {ready : Machine} {exit : Exit} {cpu : Cpu} : m.Charge mode true ready →
      Cpu.Flow m.program m.cpu.pc exit cpu.pc → m.cpu.step m.program = (exit, cpu) →
      Stepped m mode exit { ready with cpu }

theorem step_spec {m : Machine} (honest : m.meter.Honest m.program) (mode : GasMode) :
    m.Stepped mode (m.step mode).1 (m.step mode).2 := by
  have charged := charge_spec honest mode
  rw [step]
  generalize m.charge mode = outcome at charged
  obtain ⟨funded, ready⟩ := outcome
  cases funded with
  | false => exact .unpaid charged
  | true =>
    have same : ready.cpu = m.cpu ∧ ready.program = m.program := by
      cases charged <;> exact ⟨rfl, rfl⟩
    have ran := Stepped.ran charged (m.cpu.step_flow m.program) rfl
    rw [← same.1, ← same.2] at ran
    exact ran

theorem Charge.frame {m next : Machine} {mode : GasMode} {funded : Bool}
    (charged : m.Charge mode funded next) (honest : m.meter.Honest m.program) :
    next.program = m.program ∧ next.cpu = m.cpu ∧ next.meter.Honest m.program := by
  cases charged with
  | free => exact ⟨rfl, rfl, honest⟩
  | paid meter _ _ kept => exact ⟨rfl, rfl, kept⟩
  | short meter _ _ kept => exact ⟨rfl, rfl, kept⟩

theorem Stepped.frame {m next : Machine} {mode : GasMode} {exit : Exit}
    (stepped : m.Stepped mode exit next) (honest : m.meter.Honest m.program) :
    next.program = m.program ∧ next.meter.Honest m.program := by
  cases stepped with
  | unpaid charged =>
    obtain ⟨program, -, kept⟩ := charged.frame honest
    exact ⟨program, kept⟩
  | ran charged =>
    obtain ⟨program, -, kept⟩ := charged.frame honest
    exact ⟨program, kept⟩

theorem runFor_succ (mode : GasMode) (fuel : Nat) (m : Machine) :
    runFor mode (fuel + 1) m =
      if (m.step mode).1 = .continue then runFor mode fuel (m.step mode).2 else m.step mode := rfl

theorem runFor_frame (mode : GasMode) (fuel : Nat) {m : Machine} (honest : m.meter.Honest m.program) :
    (runFor mode fuel m).2.program = m.program ∧ (runFor mode fuel m).2.meter.Honest m.program := by
  induction fuel generalizing m with
  | zero => exact ⟨rfl, honest⟩
  | succ fuel ih =>
    obtain ⟨program, kept⟩ := (step_spec honest mode).frame honest
    rw [runFor_succ]
    split
    · obtain ⟨same, later⟩ := ih (m := (m.step mode).2) (by rw [program]; exact kept)
      rw [program] at same later
      exact ⟨same, later⟩
    · exact ⟨program, kept⟩

end Machine

theorem Meter.LeftBy.honest {p : Program} {meter : Meter} (left : meter.LeftBy p) : meter.Honest p := by
  induction left with
  | fresh => exact honest_fresh p
  | run m mode same _ ih =>
    subst same
    exact (m.runFor_frame mode m.stepBound ih).2

end ServiceVm
