import Mathlib.Logic.Function.Iterate
import ServiceVm.Proofs.Pipeline.Progress

/-!
# How many cycles a block takes

`stateAfter` iterates the cycle without a bound. The simulation of a block runs to the first state
in which the block has ended and the buffer is empty, and its count lies between what the decoder
needs for the instructions and what they take one after the other.
-/
namespace ServiceVm.Pipeline

/-- State once the block at `start` was simulated for `n` cycles. -/
def stateAfter (p : Program) (table : CostTable) (start : UInt32) (n : Nat) : State :=
  (State.cycle p table)^[n] (initial start)

/-- After `n` cycles and not before, the block has ended and every entry is retired. -/
structure StopsAfter (p : Program) (table : CostTable) (start : UInt32) (n : Nat) : Prop where
  done : (stateAfter p table start n).isDone = true
  goesOn : ∀ k < n, (stateAfter p table start k).isDone = false

/-- Places decoded in the first `n` cycles, in order. -/
def decodedBy (p : Program) (table : CostTable) (start : UInt32) (n : Nat) : List UInt32 :=
  (List.range n).flatMap fun k =>
    State.decodedInCycle p table (p.code.size + 1) (stateAfter p table start k)

section Iteration

variable (p : Program) (table : CostTable) (start : UInt32) (n : Nat)

theorem stateAfter_succ :
    stateAfter p table start (n + 1) = (stateAfter p table start n).cycle p table :=
  Function.iterate_succ_apply' _ _ _

theorem decodedBy_succ :
    decodedBy p table start (n + 1) = decodedBy p table start n ++
      State.decodedInCycle p table (p.code.size + 1) (stateAfter p table start n) := by
  simp [decodedBy, List.range_succ]

theorem stateAfter_ready : (stateAfter p table start n).Ready := by
  induction n with
  | zero => exact initial_ready start
  | succ n ih =>
    rw [stateAfter_succ]
    exact State.cycle_ready ih

theorem stateAfter_cycles : (stateAfter p table start n).cycles = n := by
  induction n with
  | zero => rfl
  | succ n ih => rw [stateAfter_succ, State.cycle_cycles, ih]

end Iteration

/-- Decode slots the instruction at `pc` takes, as far as a cycle has them. -/
def slotsAt (p : Program) (table : CostTable) (pc : UInt32) : Nat :=
  min (table (decodeAt p pc).opcode).decodeSlots decodeWidth

namespace State

variable {p : Program} {table : CostTable}

theorem simulate_eq_iterate (fuel : Nat) (s : State) (unfinished : s.isDone = false)
    (ends : (simulate p table fuel s).isDone = true) :
    ∃ n, simulate p table fuel s = (cycle p table)^[n] s ∧
      (∀ k < n, ((cycle p table)^[k] s).isDone = false) ∧
      decoded p table fuel s = (List.range n).flatMap fun k =>
        decodedInCycle p table (p.code.size + 1) ((cycle p table)^[k] s) := by
  induction fuel generalizing s with
  | zero => exact ⟨0, rfl, by simp, rfl⟩
  | succ fuel ih =>
    rw [simulate] at ends ⊢
    rw [decoded]
    by_cases done : (s.cycle p table).isDone = true
    · rw [if_pos done, if_pos done]
      exact ⟨1, rfl, by simpa using unfinished, by simp⟩
    · rw [if_neg done] at ends
      rw [if_neg done, if_neg done]
      obtain ⟨n, last, goesOn, places⟩ := ih _ (by simpa using done) ends
      refine ⟨n + 1, last, ?_, ?_⟩
      · intro k before
        cases k with
        | zero => exact unfinished
        | succ k => exact goesOn k (by omega)
      · rw [places, List.range_succ_eq_map, List.flatMap_cons, List.flatMap_map]
        rfl

theorem length_decodedInCycle (fuel : Nat) (s : State)
    (takes : (decodeCycle p table fuel s).takesNext p table = true) :
    (decodedInCycle p table fuel s).length = fuel := by
  induction fuel generalizing s with
  | zero => rfl
  | succ fuel ih =>
    rw [decodeCycle_succ] at takes
    rw [decodedInCycle]
    by_cases first : s.takesNext p table = true
    · rw [if_pos first] at takes
      rw [if_pos first, List.length_cons, ih _ takes]
    · rw [if_neg first] at takes
      contradiction

/-- The fuel never cuts a decode cycle short: there are too few places in a block. -/
theorem decodeCycle_refuses (built : p.Built) (short : p.code.size < UInt32.size) (s : State) :
    (decodeCycle p table (p.code.size + 1) s).takesNext p table = false := by
  by_contra takes
  rw [Bool.not_eq_false] at takes
  have full := length_decodedInCycle _ s takes
  have split := decodedInCycle_append_rest built short table (p.code.size + 1) s
  have unended : (decodeCycle p table (p.code.size + 1) s).ended = false := by
    simp_all [takesNext]
  rw [rest_decodeNext built short table _ unended] at split
  have bound : (s.rest p).length ≤ p.code.size + 1 := by
    rw [rest]
    split
    · simp
    · exact length_walk_le p _ _
  rw [← split, List.length_append, List.length_cons, full] at bound
  omega

theorem slots_decodedInCycle_le (p : Program) (table : CostTable) (fuel : Nat) (s : State) :
    ((decodedInCycle p table fuel s).map (slotsAt p table)).sum ≤ s.decodeSlots := by
  induction fuel generalizing s with
  | zero => exact Nat.zero_le _
  | succ fuel ih =>
    rw [decodedInCycle]
    split
    · rename_i takes
      have fits : slotsAt p table s.pc ≤ s.decodeSlots := by
        simp only [takesNext, Bool.and_eq_true, decide_eq_true_eq] at takes
        exact takes.2
      have left : (s.decodeNext p table).decodeSlots = s.decodeSlots - slotsAt p table s.pc := by
        obtain ⟨buffer, nextId, producers, accepted⟩ :=
          s.accept_frame (decodeAt p s.pc) (capped (table (decodeAt p s.pc).opcode))
        rw [decodeNext, accepted]
        rfl
      have later := ih (s.decodeNext p table)
      rw [List.map_cons, List.sum_cons]
      omega
    · exact Nat.zero_le _

end State

section Block

variable {p : Program}

theorem slots_decodedBy_le (p : Program) (table : CostTable) (start : UInt32) (n : Nat) :
    ((decodedBy p table start n).map (slotsAt p table)).sum ≤ decodeWidth * n := by
  induction n with
  | zero => exact Nat.zero_le _
  | succ n ih =>
    have oneCycle := State.slots_decodedInCycle_le p table (p.code.size + 1)
      (stateAfter p table start n)
    rw [(stateAfter_ready p table start n).decodeSlots] at oneCycle
    rw [decodedBy_succ, List.map_append, List.sum_append, Nat.mul_succ]
    omega

theorem simulation_stops (built : p.Built) (short : p.code.size < UInt32.size) (table : CostTable)
    (start : UInt32) :
    StopsAfter p table start (blockCycles p table start) ∧
      decodedBy p table start (blockCycles p table start) = blockPlaces p start := by
  have ends := simulation_ends built short table start
  obtain ⟨n, last, goesOn, places⟩ := State.simulate_eq_iterate _ _ rfl ends
  have count : blockCycles p table start = n := by
    rw [blockCycles, last]
    exact stateAfter_cycles p table start n
  rw [count]
  rw [last] at ends
  refine ⟨⟨ends, goesOn⟩, ?_⟩
  rw [← simulatedPlaces_eq built short table start]
  exact places.symm

theorem sum_weights (table : CostTable) (ops : List Opcode) :
    (ops.map fun op => 1 + weight table op).sum =
      ops.length + ((ops.filter (· ≠ .moveReg)).map fun op => max 1 (table op).cycles).sum := by
  induction ops with
  | nil => rfl
  | cons op ops ih =>
    rw [List.map_cons, List.sum_cons, ih, List.length_cons]
    by_cases move : op = .moveReg
    · rw [List.filter_cons_of_neg (by simp [move]), weight, if_pos move]
      omega
    · rw [List.filter_cons_of_pos (by simp [move]), List.map_cons, List.sum_cons, weight, if_neg move]
      omega

/-- The simulation of a block ends, and no decode cycle is cut short. It takes at least the cycles in
which the decoder has slots for all instructions, and at most one cycle for every instruction and the
cycles to execute those that are no moves. The price is the count less three, and at least one. -/
theorem simulation_cycles_bounded (built : p.Built) (short : p.code.size < UInt32.size)
    (table : CostTable) (start : UInt32) :
    let cycles := blockCycles p table start
    let ops := (decodedBy p table start cycles).map fun pc => (decodeAt p pc).opcode
    StopsAfter p table start cycles ∧
      (∀ s, (State.decodeCycle p table (p.code.size + 1) s).takesNext p table = false) ∧
      ((ops.map fun op => min (table op).decodeSlots 4).sum + 3) / 4 ≤ cycles ∧
      cycles ≤ ops.length +
        ((ops.filter (· ≠ .moveReg)).map fun op => max 1 (table op).cycles).sum ∧
      ((∀ op, (table op).cycles < UInt32.size) →
        (blockCost p table start).toNat = max 1 (cycles - 3)) := by
  intro cycles ops
  obtain ⟨stops, places⟩ := simulation_stops built short table start
  refine ⟨stops, State.decodeCycle_refuses built short, ?_, ?_, ?_⟩
  · have slots := slots_decodedBy_le p table start cycles
    have same : (ops.map fun op => min (table op).decodeSlots 4) =
        (decodedBy p table start cycles).map (slotsAt p table) := by
      simp only [ops, List.map_map]
      rfl
    rw [same]
    simp only [decodeWidth] at slots
    omega
  · have bound := blockCycles_le built short table start
    have same : blockPotential p table start = (ops.map fun op => 1 + weight table op).sum := by
      simp only [ops, cycles, blockPotential, places, List.map_map]
      rfl
    rw [← sum_weights, ← same]
    exact bound
  · intro cheap
    rw [toNat_blockCost built short cheap, Nat.max_comm]

end Block

/-- Every operation asks for more slots and units than the machine has. -/
def greedyTable : CostTable := fun _ => ⟨3, 9, ⟨7, 0, 0, 2, 0⟩⟩

def greedyBlock : Program :=
  Program.ofCode #[51, 0, 1, 51, 1, 2, 100, 16, 0]
    #[true, false, false, true, false, false, true, false, true] #[] 0

theorem greedyBlock_cycles_bounded :
    let cycles := blockCycles greedyBlock greedyTable 0
    decodedBy greedyBlock greedyTable 0 cycles = [0, 3, 6, 8] ∧
      StopsAfter greedyBlock greedyTable 0 cycles ∧ 4 ≤ cycles ∧ cycles ≤ 4 + 9 ∧
      (blockCost greedyBlock greedyTable 0).toNat = max 1 (cycles - 3) := by
  intro cycles
  have places : decodedBy greedyBlock greedyTable 0 cycles = [0, 3, 6, 8] := by decide +kernel
  have ops : [0, 3, 6, 8].map (fun pc => (decodeAt greedyBlock pc).opcode) =
      [.loadImm, .loadImm, .moveReg, .trap] := by decide +kernel
  obtain ⟨stops, -, slots, bound, price⟩ :=
    simulation_cycles_bounded (.ofCode _ _ _ _) (by decide) greedyTable 0 (p := greedyBlock)
  rw [places, ops] at slots bound
  exact ⟨places, stops, slots, bound, price fun _ => by simp [greedyTable, UInt32.size]⟩

end ServiceVm.Pipeline
