import Mathlib.Data.List.Induction
import ServiceVm.Proofs.Machine.Termination

/-!
# Billing by blocks

A `Session` is the history of a machine that is billed by blocks: it starts with a fresh meter, runs,
and is resumed with what its host has made of registers, memory and gas. The ledger of a history
notes where gas was taken and what has been executed since. Three notions of a block meet here: the
tags of the program, the places the simulation decodes, and the way the machine takes.
-/
namespace ServiceVm.Machine

def steps (mode : GasMode) : (fuel : Nat) → Machine → List Machine
  | 0, _ => []
  | fuel + 1, m => m :: if (m.step mode).1 = .continue then steps mode fuel (m.step mode).2 else []

/-- Steps taken so far by a machine that runs `p`, and the machine as it is now. -/
inductive Session (p : Program) : List Machine → Machine → Prop where
  | start (cpu : Cpu) (gas : UInt64) : Session p [] ⟨p, cpu, gas, {}⟩
  | run {history : List Machine} {m : Machine} : Session p history m →
      Session p (history ++ m.steps .perBlock m.stepBound) (m.run .perBlock).2
  | resume {history : List Machine} {m : Machine} (registers : Registers) (memory : Memory)
      (gas : UInt64) : Session p history m →
      Session p history { m with cpu := { m.cpu with registers, memory }, gas }

/-- Where gas was taken, the latest place last, and the places executed to their end since. -/
structure Ledger where
  charges : List UInt32 := []
  completed : List UInt32 := []

namespace Ledger

/-- Notes the gas taken by the next step. -/
def charge (l : Ledger) (m : Machine) : Ledger :=
  if (m.step .perBlock).2.gas = m.gas then l else ⟨l.charges ++ [m.cpu.pc], []⟩

/-- Notes the next step. An instruction that stops the machine for good is not completed: if the
machine is run again, it is executed again. -/
def record (l : Ledger) (m : Machine) : Ledger :=
  let l := l.charge m
  if (m.step .perBlock).1.isTerminal then l else { l with completed := l.completed ++ [m.cpu.pc] }

end Ledger

def ledger (history : List Machine) : Ledger := history.foldl Ledger.record {}

theorem ledger_append (history : List Machine) (m : Machine) :
    ledger (history ++ [m]) = (ledger history).record m := by
  simp [ledger]

theorem charges_record (l : Ledger) (m : Machine) : (l.record m).charges = (l.charge m).charges := by
  rw [Ledger.record]
  split <;> rfl

/-- What ties a machine to the ledger of its history: while its block is paid for, the next place
starts another block, holds no instruction, or is the next one of the block charged last. -/
structure Billed (p : Program) (l : Ledger) (m : Machine) : Prop where
  program : m.program = p
  honest : m.meter.Honest p
  paid : m.meter.paid = true → ∃ start, l.charges.getLast? = some start ∧
    (p.isBlockStart m.cpu.pc.toNat = true ∨ p.fetch? m.cpu.pc = none ∨
      l.completed ++ [m.cpu.pc] <+: Pipeline.blockPlaces p start)

namespace Billed

variable {p : Program} {l : Ledger} {m : Machine}

theorem wellFormed (billed : Billed p l m) (built : p.Built) (short : p.code.size < UInt32.size) :
    m.WellFormed := by
  obtain ⟨rfl, honest, -⟩ := billed
  exact ⟨built, short, honest⟩

theorem gas_paid (wf : m.WellFormed) (enough : m.price .perBlock ≤ m.gas) :
    (m.gas - m.price .perBlock).toNat + (m.price .perBlock).toNat = m.gas.toNat ∧
      m.gas - m.price .perBlock ≠ m.gas := by
  have price := one_le_price wf .perBlock
  have left := UInt64.toNat_sub_of_le _ _ enough
  have covered := UInt64.le_iff_toNat_le.mp enough
  refine ⟨by omega, ?_⟩
  intro same
  rw [same] at left
  omega

theorem gas_step (billed : Billed p l m) (built : p.Built) (short : p.code.size < UInt32.size) :
    (m.step .perBlock).2.gas ≤ m.gas ∧
      m.gas.toNat - (m.step .perBlock).2.gas.toNat =
        if (m.step .perBlock).2.gas = m.gas then 0
        else (Pipeline.blockCost p CostTable.baseline m.cpu.pc).toNat := by
  have wf := billed.wellFormed built short
  have stepped := step_spec wf.honest .perBlock
  generalize (m.step .perBlock).1 = exit at stepped
  generalize (m.step .perBlock).2 = next at stepped ⊢
  have untouched : m.gas ≤ m.gas ∧ m.gas.toNat - m.gas.toNat =
      if m.gas = m.gas then 0 else (Pipeline.blockCost p CostTable.baseline m.cpu.pc).toNat := by simp
  cases stepped with
  | unpaid charged =>
    cases charged
    exact untouched
  | ran charged =>
    cases charged with
    | free => exact untouched
    | paid meter due enough =>
      obtain ⟨left, differs⟩ := gas_paid wf enough
      have cost : m.price .perBlock = Pipeline.blockCost p CostTable.baseline m.cpu.pc := by
        rw [price, billed.program]
      refine ⟨UInt64.le_iff_toNat_le.mpr (by dsimp only; omega), ?_⟩
      rw [if_neg differs, ← cost]
      dsimp only
      omega

theorem executed (billed : Billed p l m) (built : p.Built) (short : p.code.size < UInt32.size)
    (funded : (m.step .perBlock).1 ≠ .outOfGas) :
    ∃ start, (l.charge m).charges.getLast? = some start ∧
      (p.fetch? m.cpu.pc = none ∨
        (l.charge m).completed ++ [m.cpu.pc] <+: Pipeline.blockPlaces p start) := by
  have wf := billed.wellFormed built short
  have stepped := step_spec wf.honest .perBlock
  rw [Ledger.charge]
  generalize (m.step .perBlock).1 = exit at stepped funded
  generalize (m.step .perBlock).2 = next at stepped ⊢
  cases stepped with
  | unpaid => contradiction
  | ran charged =>
    cases charged with
    | free settled =>
      rw [if_pos rfl]
      simp only [isDue, Bool.not_eq_false', Bool.and_eq_true, Bool.not_eq_true', billed.program] at settled
      obtain ⟨start, last, starts | rest⟩ := billed.paid settled.1
      · rw [settled.2] at starts
        contradiction
      · exact ⟨start, last, rest⟩
    | paid meter due enough =>
      rw [if_neg (gas_paid wf enough).2]
      obtain ⟨rest, places⟩ := Pipeline.head_blockPlaces built short m.cpu.pc
      exact ⟨m.cpu.pc, by simp, .inr (by simp [places])⟩

theorem next_place (built : p.Built) (short : p.code.size < UInt32.size) {pc next start : UInt32}
    {exit : Exit} {done : List UInt32} (flow : Cpu.Flow p pc exit next)
    (here : p.fetch? pc = none ∨ done ++ [pc] <+: Pipeline.blockPlaces p start) :
    p.isBlockStart next.toNat = true ∨ p.fetch? next = none ∨
      (if exit.isTerminal then done else done ++ [pc]) ++ [next] <+: Pipeline.blockPlaces p start := by
  cases flow with
  | unknown missing => exact .inr (.inl missing)
  | stops fetched stops =>
    rcases here with missing | inBlock
    · exact .inr (.inl missing)
    · rw [if_pos stops]
      exact .inr (.inr inBlock)
  | jumps target fetched terminator lands => exact .inl lands
  | @passes f exit fetched goesOn =>
    simp only [goesOn, Bool.false_eq_true, if_false]
    rcases here with missing | inBlock
    · rw [fetched] at missing
      contradiction
    · cases ends : (Pipeline.decodeAt p pc).last with
      | true =>
        rcases Pipeline.blockStart_following built short fetched ends with starts | missing
        · exact .inl starts
        · exact .inr (.inl missing)
      | false =>
        have next := Pipeline.prefix_following built short ends start done inBlock
        have following : (Pipeline.decodeAt p pc).following = followingPc pc f.skip := by
          simp [Pipeline.decodeAt, fetched]
        rw [following] at next
        exact .inr (.inr next)

theorem record (billed : Billed p l m) (built : p.Built) (short : p.code.size < UInt32.size) :
    Billed p (l.record m) (m.step .perBlock).2 := by
  have wf := billed.wellFormed built short
  have stepped := step_spec wf.honest .perBlock
  obtain ⟨program, honest⟩ := stepped.frame wf.honest
  rw [billed.program] at program honest
  refine ⟨program, honest, ?_⟩
  intro paid
  have executes := billed.executed built short
  rw [Ledger.record]
  generalize l.charge m = charged at executes ⊢
  generalize (m.step .perBlock).1 = exit at stepped executes ⊢
  generalize (m.step .perBlock).2 = next at stepped paid ⊢
  cases stepped with
  | unpaid refused =>
    cases refused with
    | short meter due less kept unmarked =>
      rw [unmarked rfl] at paid
      contradiction
  | ran ready flow =>
    obtain ⟨start, last, here⟩ := executes flow.ne_outOfGas
    rw [billed.program] at flow
    have place := next_place built short flow here
    refine ⟨start, ?_, ?_⟩
    · split <;> exact last
    -- An instruction that stops the machine for good is not noted; its place is the next one again.
    · cases stops : exit.isTerminal with
      | true =>
        rw [stops] at place
        exact place
      | false =>
        rw [stops] at place
        exact place

theorem resume (billed : Billed p l m) (registers : Registers) (memory : Memory) (gas : UInt64) :
    Billed p l { m with cpu := { m.cpu with registers, memory }, gas } :=
  ⟨billed.program, billed.honest, billed.paid⟩

end Billed

section History

variable {p : Program} {history : List Machine} {m : Machine}

/-- Every machine of a history is tied to the ledger of what came before it. -/
def AllBilled (p : Program) (history : List Machine) : Prop :=
  ∀ before now after, history = before ++ now :: after → Billed p (ledger before) now

theorem AllBilled.append (all : AllBilled p history) (billed : Billed p (ledger history) m) :
    AllBilled p (history ++ [m]) := by
  intro before now after split
  rcases List.append_eq_append_iff.mp split with ⟨rest, rfl, last⟩ | ⟨rest, rfl, last⟩
  · cases rest with
    | nil =>
      obtain ⟨rfl, -⟩ := List.cons.inj last
      rw [List.append_nil]
      exact billed
    | cons other rest => simp at last
  · cases rest with
    | nil =>
      obtain ⟨rfl, -⟩ := List.cons.inj last
      rw [List.append_nil] at billed
      exact billed
    | cons other rest =>
      obtain ⟨rfl, -⟩ := List.cons.inj last
      exact all before now rest rfl

theorem runFor_billed (built : p.Built) (short : p.code.size < UInt32.size) (fuel : Nat)
    {history : List Machine} {m : Machine} (all : AllBilled p history)
    (billed : Billed p (ledger history) m) :
    AllBilled p (history ++ m.steps .perBlock fuel) ∧
      Billed p (ledger (history ++ m.steps .perBlock fuel)) (runFor .perBlock fuel m).2 := by
  induction fuel generalizing history m with
  | zero =>
    rw [steps, List.append_nil]
    exact ⟨all, billed⟩
  | succ fuel ih =>
    have recorded := billed.record built short
    rw [← ledger_append] at recorded
    have extended := all.append billed
    rw [steps, runFor_succ]
    split
    · rw [List.append_cons]
      exact ih extended recorded
    · exact ⟨extended, recorded⟩

theorem Session.billed (session : Session p history m) (built : p.Built)
    (short : p.code.size < UInt32.size) : AllBilled p history ∧ Billed p (ledger history) m := by
  induction session with
  | start cpu gas =>
    refine ⟨?_, rfl, Meter.honest_fresh p, nofun⟩
    intro before now after split
    simp at split
  | @run history m _ ih => exact runFor_billed built short m.stepBound ih.1 ih.2
  | resume registers memory gas _ ih => exact ⟨ih.1, ih.2.resume registers memory gas⟩

theorem AllBilled.sum_gas (all : AllBilled p history) (built : p.Built)
    (short : p.code.size < UInt32.size) :
    (history.map fun m => m.gas.toNat - (m.step .perBlock).2.gas.toNat).sum =
      ((ledger history).charges.map fun pc => (Pipeline.blockCost p CostTable.baseline pc).toNat).sum := by
  induction history using List.reverseRecOn with
  | nil => rfl
  | append_singleton history m ih =>
    have earlier : AllBilled p history := by
      rintro before now after rfl
      exact all before now (after ++ [m]) (by simp)
    have taken := ((all history m [] rfl).gas_step built short).2
    rw [List.map_append, List.sum_append, ih earlier, ledger_append, charges_record, Ledger.charge,
      List.map_singleton, List.sum_singleton, taken]
    split
    · rfl
    · simp

/-- Three notions of a block agree. In every history of a machine that is billed by blocks, whatever
is executed between two charges follows, from its first place on, the places that the simulation
decoded for the block charged last, of which only the first starts a block. The gas taken over the
history is the sum of the costs of the blocks at the places of the charges. -/
theorem Session.follows_blocks (built : p.Built) (short : p.code.size < UInt32.size)
    (session : Session p history m) :
    (∀ before now after, history = before ++ now :: after → (now.step .perBlock).1 ≠ .outOfGas →
      (p.fetch? now.cpu.pc).isSome = true →
      ∃ start, ((ledger before).charge now).charges.getLast? = some start ∧
        ((ledger before).charge now).completed ++ [now.cpu.pc] <+:
          Pipeline.simulatedPlaces p CostTable.baseline start) ∧
    (∀ start, ∀ pc ∈ (Pipeline.simulatedPlaces p CostTable.baseline start).tail,
      p.isBlockStart pc.toNat = false) ∧
    (∀ now ∈ history, (now.step .perBlock).2.gas ≤ now.gas) ∧
    (history.map fun now => now.gas.toNat - (now.step .perBlock).2.gas.toNat).sum =
      ((ledger history).charges.map fun pc =>
        (Pipeline.blockCost p CostTable.baseline pc).toNat).sum := by
  obtain ⟨all, -⟩ := session.billed built short
  refine ⟨?_, ?_, ?_, all.sum_gas built short⟩
  · intro before now after split funded decodes
    obtain ⟨start, last, missing | inBlock⟩ := (all before now after split).executed built short funded
    · simp [missing] at decodes
    · rw [← Pipeline.simulatedPlaces_eq built short CostTable.baseline] at inBlock
      exact ⟨start, last, inBlock⟩
  · intro start pc member
    rw [Pipeline.simulatedPlaces_eq built short] at member
    exact Pipeline.not_blockStart_of_mem_tail built short start pc member
  · intro now member
    obtain ⟨before, after, split⟩ := List.append_of_mem member
    exact ((all before now after split).gas_step built short).1

end History

def twoCalls : Machine where
  program := Program.ofCode #[10, 1, 10, 2] #[true, false, true, false] #[] 0
  cpu := ⟨0, Registers.zero, {}⟩
  gas := 10

theorem twoCalls_follows_block :
    [0, 2] <+: Pipeline.simulatedPlaces twoCalls.program CostTable.baseline 0 := by
  have session : Session twoCalls.program _ _ := .run (.run (.start twoCalls.cpu twoCalls.gas))
  obtain ⟨start, last, inBlock⟩ := (Session.follows_blocks (.ofCode _ _ _ _) (by decide) session).1
    [twoCalls] (twoCalls.run .perBlock).2 [] (by with_unfolding_all rfl) (by decide +kernel)
    (by decide +kernel)
  have charged : ((ledger [twoCalls]).charge (twoCalls.run .perBlock).2).charges.getLast? = some 0 := by
    decide +kernel
  have completed : ((ledger [twoCalls]).charge (twoCalls.run .perBlock).2).completed = [0] := by
    decide +kernel
  have place : (twoCalls.run .perBlock).2.cpu.pc = 2 := by decide +kernel
  rw [charged] at last
  rw [completed, place, ← Option.some.inj last] at inBlock
  exact inBlock

end ServiceVm.Machine
