import Mathlib.Algebra.GroupWithZero.Nat
import Mathlib.Algebra.Order.BigOperators.Group.List
import Mathlib.Algebra.Order.Group.Nat
import ServiceVm.Proofs.Pipeline.Walk

/-!
# The simulation ends

Every cycle decodes an instruction or executes an entry, so the instructions that are left and the
cycles that entries still need bound the number of cycles. An entry at the front of the buffer can
always start once nothing executes: its operands come from retired entries and all units are free.
-/
namespace ServiceVm

namespace Units

theorem release_assoc (a b c : Units) : (a.release b).release c = a.release (b.release c) := by
  simp [release, Nat.add_assoc]

theorem release_comm (a b : Units) : a.release b = b.release a := by
  simp [release, Nat.add_comm]

theorem release_right_comm (a b c : Units) : (a.release b).release c = (a.release c).release b := by
  rw [release_assoc, release_comm b c, ← release_assoc]

@[simp] theorem release_none (a : Units) : a.release {} = a := rfl

theorem release_take {free u : Units} (fits : u.fitsIn free = true) : (free.take u).release u = free := by
  simp only [fitsIn, Bool.and_eq_true, decide_eq_true_eq] at fits
  obtain ⟨⟨⟨⟨alu, load⟩, store⟩, mul⟩, div⟩ := fits
  simp [release, take, Nat.sub_add_cancel, alu, load, store, mul, div]

theorem fitsIn_capped (u limit : Units) : (u.capped limit).fitsIn limit = true := by
  simp [capped, fitsIn]

end Units

namespace Pipeline

def Entry.isExecuting (e : Entry) : Bool := e.stage = .executing

/-- Units taken by the entries that execute. -/
def busy : List Entry → Units
  | [] => {}
  | e :: rest => if e.isExecuting then (busy rest).release e.units else busy rest

/-- Cycles the entries still need. -/
def pendingCycles (buffer : List Entry) : Nat := (buffer.map Entry.remaining).sum

structure Entry.Valid (e : Entry) : Prop where
  finished_iff : e.stage = .finished ↔ e.remaining = 0
  fits : e.units.fitsIn Units.available = true
  producers : ∀ id ∈ e.producers, id < e.id

/-- Holds between any two phases of a cycle. -/
structure State.Valid (s : State) : Prop where
  units : s.free.release (busy s.buffer) = Units.available
  entries : ∀ e ∈ s.buffer, e.Valid
  producers : ∀ reg id, s.producers.get reg = some id → id < s.nextId

/-- Holds between any two cycles. -/
structure State.Ready (s : State) : Prop extends State.Valid s where
  decodeSlots : s.decodeSlots = decodeWidth
  executionSlots : s.executionSlots = executionWidth
  started : ∀ e ∈ s.buffer, e.stage ≠ .decoded
  front : ∀ e ∈ s.buffer.head?, e.stage ≠ .finished

theorem initial_ready (start : UInt32) : (initial start).Ready where
  units := rfl
  entries := by simp [initial]
  producers := by
    intro reg id produced
    simp [initial, Vector.get] at produced
  decodeSlots := rfl
  executionSlots := rfl
  started := by simp [initial]
  front := by simp [initial]

theorem busy_append (a b : List Entry) : busy (a ++ b) = (busy b).release (busy a) := by
  induction a with
  | nil => rfl
  | cons e rest ih =>
    simp only [List.cons_append, busy]
    split
    · rw [ih, Units.release_assoc]
    · exact ih

@[simp] theorem pendingCycles_nil : pendingCycles [] = 0 := rfl

@[simp] theorem pendingCycles_cons (e : Entry) (rest : List Entry) :
    pendingCycles (e :: rest) = e.remaining + pendingCycles rest := by
  simp [pendingCycles]

@[simp] theorem pendingCycles_append (a b : List Entry) :
    pendingCycles (a ++ b) = pendingCycles a + pendingCycles b := by
  simp [pendingCycles]

/-! Decoding. -/

/-- Cycles an instruction is charged for besides the one it is decoded in. -/
def weight (table : CostTable) (op : Opcode) : Nat :=
  if op = .moveReg then 0 else max (table op).cycles 1

namespace State

variable {p : Program} {table : CostTable} {s : State}

theorem foldl_put_some (writes : List Reg) (file : RegFile (Option Nat)) (next : Nat) (reg : Reg)
    (id : Nat) (produced : (writes.foldl (fun (file : RegFile (Option Nat)) w => file.put w (some next))
      file).get reg = some id) : id = next ∨ file.get reg = some id := by
  induction writes generalizing file with
  | nil => exact Or.inr produced
  | cons w writes ih =>
    obtain latest | earlier := ih _ produced
    · exact Or.inl latest
    · rw [RegFile.get_put] at earlier
      split at earlier
      · exact Or.inl (Option.some.inj earlier).symm
      · exact Or.inr earlier

theorem decodeNext_valid (valid : s.Valid) : (s.decodeNext p table).Valid := by
  simp only [decodeNext, accept]
  generalize decodeAt p s.pc = d
  split
  · simp only [rename]
    split
    · rename_i w _ r _ _ _
      refine ⟨valid.units, valid.entries, ?_⟩
      intro reg id produced
      rw [RegFile.get_put] at produced
      split at produced
      · exact valid.producers _ id produced
      · exact valid.producers reg id produced
    · exact ⟨valid.units, valid.entries, valid.producers⟩
  · refine ⟨?_, ?_, ?_⟩
    · simpa [enter, busy_append, busy, Entry.isExecuting, Units.release] using valid.units
    · intro e member
      simp only [enter, List.mem_append, List.mem_singleton] at member
      obtain old | rfl := member
      · exact valid.entries e old
      · refine ⟨by simp, Units.fitsIn_capped _ _, ?_⟩
        intro id produced
        simp only [List.mem_filterMap] at produced
        obtain ⟨reg, -, produced⟩ := produced
        exact valid.producers reg id produced
    · intro reg id produced
      change id < s.nextId + 1
      obtain rfl | earlier := foldl_put_some _ _ _ reg id produced
      · exact Nat.lt_succ_self _
      · exact Nat.lt_succ_of_lt (valid.producers reg id earlier)

theorem decodeCycle_valid (p : Program) (table : CostTable) (valid : s.Valid) (fuel : Nat) :
    (decodeCycle p table fuel s).Valid := by
  induction fuel generalizing s with
  | zero => exact valid
  | succ fuel ih =>
    rw [decodeCycle_succ]
    split
    · exact ih (decodeNext_valid valid)
    · exact valid

theorem decodeCycle_cycles (fuel : Nat) : (decodeCycle p table fuel s).cycles = s.cycles := by
  induction fuel generalizing s with
  | zero => rfl
  | succ fuel ih =>
    rw [decodeCycle_succ]
    split
    · obtain ⟨buffer, nextId, producers, accepted⟩ :=
        s.accept_frame (decodeAt p s.pc) (capped (table (decodeAt p s.pc).opcode))
      rw [ih, decodeNext, accepted]
    · rfl

/-- Decoding moves the cycles of an instruction from the block to the buffer. -/
theorem pendingCycles_decodeNext :
    pendingCycles (s.decodeNext p table).buffer =
      pendingCycles s.buffer + weight table (decodeAt p s.pc).opcode := by
  simp only [decodeNext, accept, weight]
  split
  · simp only [rename]
    split <;> rfl
  · simp [enter, capped]

/-- Cycles left for the rest of the block and for the buffer. -/
def potential (p : Program) (table : CostTable) (s : State) : Nat :=
  ((s.rest p).map fun pc => 1 + weight table (decodeAt p pc).opcode).sum + pendingCycles s.buffer

theorem potential_decodeCycle (built : p.Built) (short : p.code.size < UInt32.size) (table : CostTable)
    (fuel : Nat) (s : State) :
    (decodeCycle p table fuel s).potential p table + (decodedInCycle p table fuel s).length =
      s.potential p table := by
  induction fuel generalizing s with
  | zero => rfl
  | succ fuel ih =>
    rw [decodeCycle_succ, decodedInCycle]
    split
    · rename_i takes
      have goesOn : s.ended = false := by simp_all [takesNext]
      have step : (s.decodeNext p table).potential p table + 1 = s.potential p table := by
        rw [potential, potential, rest_decodeNext built short table s goesOn, pendingCycles_decodeNext,
          List.map_cons, List.sum_cons]
        omega
      have later := ih (s.decodeNext p table)
      rw [List.length_cons]
      omega
    · rfl

end State

/-! Starting entries. -/

namespace State

variable (ready : Nat → Bool)

theorem start_pendingCycles (entries : List Entry) (slots : Nat) (free : Units) :
    pendingCycles (start ready entries slots free).1 = pendingCycles entries := by
  induction entries generalizing slots free with
  | nil => rfl
  | cons e rest ih =>
    rw [start]
    split <;> simp [ih]

theorem start_units (entries : List Entry) (slots : Nat) (free : Units) :
    (start ready entries slots free).2.2.release (busy (start ready entries slots free).1) =
      free.release (busy entries) := by
  induction entries generalizing slots free with
  | nil => rfl
  | cons e rest ih =>
    rw [start]
    split
    · rename_i starts
      obtain ⟨-, pending, fits, -⟩ := starts
      simp only [busy, Entry.isExecuting, pending, reduceCtorEq, decide_true, decide_false, if_true,
        Bool.false_eq_true, if_false]
      rw [← Units.release_assoc, ih, Units.release_right_comm, Units.release_take fits]
    · simp only [busy]
      split
      · rw [← Units.release_assoc, ih, Units.release_assoc]
      · exact ih slots free

theorem start_valid (entries : List Entry) (slots : Nat) (free : Units)
    (valid : ∀ e ∈ entries, e.Valid) : ∀ e ∈ (start ready entries slots free).1, e.Valid := by
  induction entries generalizing slots free with
  | nil => exact valid
  | cons e rest ih =>
    have first := valid e (by simp)
    have later := fun slots free => ih slots free fun e member => valid e (by simp [member])
    rw [start]
    split
    · rename_i starts
      simp only [List.mem_cons, forall_eq_or_imp]
      refine ⟨⟨?_, first.fits, first.producers⟩, later _ _⟩
      have unfinished : e.remaining ≠ 0 := fun none => by
        have := first.finished_iff.mpr none
        simp [starts.2.1] at this
      simp [unfinished]
    · simp only [List.mem_cons, forall_eq_or_imp]
      exact ⟨first, later _ _⟩

/-- An entry that executes goes on, and if none does the first one starts when it can. -/
theorem exists_executing_start (entries : List Entry) (slots : Nat) (free : Units)
    (runs : (∃ e ∈ entries, e.isExecuting = true) ∨
      ∃ e rest, entries = e :: rest ∧ 0 < slots ∧ e.stage = .pending ∧ e.units.fitsIn free = true ∧
        e.producers.all ready = true) :
    ∃ e ∈ (start ready entries slots free).1, e.isExecuting = true := by
  induction entries generalizing slots free with
  | nil =>
    obtain ⟨e, member, -⟩ | ⟨e, rest, empty, -⟩ := runs
    · contradiction
    · contradiction
  | cons e rest ih =>
    rw [start]
    split
    · exact ⟨_, List.mem_cons_self, by simp [Entry.isExecuting]⟩
    · rename_i waits
      obtain ⟨found, member, executing⟩ | ⟨first, others, same, available⟩ := runs
      · obtain rfl | later := List.mem_cons.mp member
        · exact ⟨found, List.mem_cons_self, executing⟩
        · obtain ⟨other, member, executing⟩ := ih slots free (Or.inl ⟨found, later, executing⟩)
          exact ⟨other, List.mem_cons_of_mem _ member, executing⟩
      · cases same
        exact absurd available waits

/-! Advancing and retiring entries. -/

theorem advance_units (entries : List Entry) (free : Units) :
    (entries.foldl (fun free e => if finishes e then free.release e.units else free) free).release
        (busy (entries.map advanceEntry)) =
      free.release (busy entries) := by
  induction entries generalizing free with
  | nil => rfl
  | cons e rest ih =>
    rw [List.foldl_cons, List.map_cons, busy, busy]
    cases stage : e.stage with
    | executing =>
      have executing : e.isExecuting = true := by simp [Entry.isExecuting, stage]
      by_cases last : e.remaining ≤ 1
      · have ends : finishes e = true := by simp [finishes, stage, last]
        have gone : e.remaining - 1 = 0 := by omega
        have idle : (advanceEntry e).isExecuting = false := by
          simp [Entry.isExecuting, advanceEntry, stage, gone]
        rw [ends, idle, executing, if_pos rfl, if_neg Bool.false_ne_true, if_pos rfl, ih,
          Units.release_right_comm, Units.release_assoc]
      · have goesOn : finishes e = false := by simp [finishes, last]
        have left : e.remaining - 1 ≠ 0 := by omega
        have still : (advanceEntry e).isExecuting = true := by
          simp [Entry.isExecuting, advanceEntry, stage, left]
        have units : (advanceEntry e).units = e.units := by simp [advanceEntry, stage]
        rw [goesOn, still, executing, if_neg Bool.false_ne_true, if_pos rfl, if_pos rfl, units,
          ← Units.release_assoc, ih, Units.release_assoc]
    | decoded | pending | finished =>
      have goesOn : finishes e = false := by simp [finishes, stage]
      have waits : e.isExecuting = false := by simp [Entry.isExecuting, stage]
      have idle : (advanceEntry e).isExecuting = false := by
        simp [Entry.isExecuting, advanceEntry, stage]
      rw [goesOn, idle, waits, if_neg Bool.false_ne_true, if_neg Bool.false_ne_true,
        if_neg Bool.false_ne_true, ih]

theorem advanceEntry_valid {e : Entry} (valid : e.Valid) : (advanceEntry e).Valid := by
  obtain ⟨finished, fits, producers⟩ := valid
  simp only [advanceEntry]
  split
  · rename_i stage
    exact ⟨by simpa [stage] using finished, fits, producers⟩
  · refine ⟨?_, fits, producers⟩
    by_cases last : e.remaining - 1 = 0 <;> simp [last]
  · exact ⟨finished, fits, producers⟩
  · exact ⟨finished, fits, producers⟩

theorem remaining_advanceEntry {e : Entry} (valid : e.Valid) :
    (advanceEntry e).remaining + (if e.isExecuting then 1 else 0) = e.remaining := by
  simp only [advanceEntry, Entry.isExecuting]
  split
  · rename_i stage
    simp [stage]
  · rename_i stage
    have left : e.remaining ≠ 0 := fun none => by simp [valid.finished_iff.mpr none] at stage
    simp only [stage, decide_true, if_true]
    omega
  · rename_i stage
    simp [stage]
  · rename_i stage
    simp [stage]

theorem pendingCycles_advance (entries : List Entry) (valid : ∀ e ∈ entries, e.Valid) :
    pendingCycles (entries.map advanceEntry) + entries.countP Entry.isExecuting =
      pendingCycles entries := by
  induction entries with
  | nil => rfl
  | cons e rest ih =>
    have later := ih fun e member => valid e (by simp [member])
    have first := remaining_advanceEntry (valid e (by simp))
    simp only [List.map_cons, pendingCycles_cons, List.countP_cons]
    omega

theorem advanceEntry_started (e : Entry) : (advanceEntry e).stage ≠ .decoded := by
  simp only [advanceEntry]
  split
  · simp
  · dsimp only
    split <;> simp
  · rename_i stage
    simp [stage]
  · rename_i stage
    simp [stage]

theorem retire_buffer (entries : List Entry) (valid : ∀ e ∈ entries, e.Valid) :
    busy (entries.dropWhile fun e => e.stage = .finished) = busy entries ∧
      pendingCycles (entries.dropWhile fun e => e.stage = .finished) = pendingCycles entries := by
  induction entries with
  | nil => exact ⟨rfl, rfl⟩
  | cons e rest ih =>
    obtain ⟨units, cycles⟩ := ih fun e member => valid e (by simp [member])
    by_cases finished : e.stage = .finished
    · have none := (valid e (by simp)).finished_iff.mp finished
      simp [finished, busy, Entry.isExecuting, units, cycles, none]
    · simp [finished]

variable {p : Program} {table : CostTable} {s : State}

theorem dispatch_valid (valid : s.Valid) : s.dispatch.Valid where
  units := by
    rw [← valid.units]
    exact start_units _ _ _ _
  entries := start_valid _ _ _ _ valid.entries
  producers := valid.producers

theorem advanced_valid (valid : s.Valid) : ∀ e ∈ s.advance.buffer, e.Valid := by
  intro e advanced
  obtain ⟨old, member, rfl⟩ := List.mem_map.mp advanced
  exact advanceEntry_valid (valid.entries old member)

theorem advance_retire_ready (valid : s.Valid) : s.advance.retire.Ready where
  units := by
    have retired := (retire_buffer s.advance.buffer (advanced_valid valid)).1
    simp only [retire, retired]
    rw [← valid.units]
    exact advance_units _ _
  entries := fun e left => advanced_valid valid e ((List.dropWhile_sublist _).mem left)
  producers := valid.producers
  decodeSlots := rfl
  executionSlots := rfl
  started := by
    intro e left
    obtain ⟨old, -, rfl⟩ := List.mem_map.mp ((List.dropWhile_sublist _).mem left)
    exact advanceEntry_started old
  front := by
    intro e first finished
    have unfinished := List.head?_dropWhile_not (fun e : Entry => decide (e.stage = .finished))
      s.advance.buffer
    have first : (s.advance.buffer.dropWhile fun e => e.stage = .finished).head? = some e := first
    simp [first, finished] at unfinished

theorem cycle_ready (ready : s.Ready) : (s.cycle p table).Ready :=
  advance_retire_ready (dispatch_valid (decodeCycle_valid p table ready.toValid _))

theorem potential_dispatch : s.dispatch.potential p table = s.potential p table := by
  have same := start_pendingCycles s.isFinished s.buffer s.executionSlots s.free
  simp only [potential, dispatch_rest]
  exact congrArg _ same

theorem potential_advance_retire (p : Program) (table : CostTable) (valid : s.Valid) :
    s.advance.retire.potential p table + s.buffer.countP Entry.isExecuting = s.potential p table := by
  have retired := (retire_buffer s.advance.buffer (advanced_valid valid)).2
  have advanced := pendingCycles_advance s.buffer valid.entries
  simp only [potential, retire_rest, advance_rest]
  simp only [retire, retired]
  simp only [advance]
  omega

/-- One cycle uses up as much of the potential as it decodes and executes. -/
theorem potential_cycle (built : p.Built) (short : p.code.size < UInt32.size) (table : CostTable)
    (ready : s.Ready) :
    (s.cycle p table).potential p table + (decodedInCycle p table (p.code.size + 1) s).length +
        (decodeCycle p table (p.code.size + 1) s).dispatch.buffer.countP Entry.isExecuting =
      s.potential p table := by
  have decoded := potential_decodeCycle built short table (p.code.size + 1) s
  have valid := decodeCycle_valid p table ready.toValid (p.code.size + 1)
  have executed := potential_advance_retire p table (dispatch_valid valid)
  rw [potential_dispatch] at executed
  rw [cycle]
  omega

theorem takesNext_of_open (p : Program) (table : CostTable) (ready : s.Ready) (goesOn : s.ended = false)
    (room : s.buffer.length < bufferSize) : s.takesNext p table = true := by
  have fits : (capped (table (decodeAt p s.pc).opcode)).decodeSlots ≤ decodeWidth := Nat.min_le_right _ _
  simp [takesNext, goesOn, room, ready.decodeSlots, fits]

/-- If nothing is decoded, something executes: an entry that was started before, or the front of the
buffer. -/
theorem executes_of_closed (ready : s.Ready) (waiting : s.buffer ≠ []) :
    0 < s.dispatch.buffer.countP Entry.isExecuting := by
  rw [List.countP_pos_iff]
  apply exists_executing_start
  by_cases runs : ∃ e ∈ s.buffer, e.isExecuting = true
  · exact Or.inl runs
  obtain ⟨front, others, buffer⟩ := List.exists_cons_of_ne_nil waiting
  -- All units are free then, and the front of the buffer waits for nobody.
  have idle : busy s.buffer = {} := by
    have none : ∀ entries : List Entry, (¬ ∃ e ∈ entries, e.isExecuting = true) → busy entries = {} := by
      intro entries idle
      induction entries with
      | nil => rfl
      | cons e rest ih => grind [busy]
    exact none _ runs
  have free : s.free = Units.available := by simpa [idle] using ready.units
  have valid := ready.entries front (by simp [buffer])
  refine Or.inr ⟨front, others, buffer, ?_, ?_, ?_, ?_⟩
  · rw [ready.executionSlots]
    decide
  · have started := ready.started front (by simp [buffer])
    have unfinished := ready.front front (by simp [buffer])
    have stopped : front.stage ≠ .executing := fun executing =>
      runs ⟨front, by simp [buffer], by simp [Entry.isExecuting, executing]⟩
    cases stage : front.stage <;> simp_all
  · rw [free]
    exact valid.fits
  · rw [List.all_eq_true]
    intro id produces
    simp [isFinished, buffer, valid.producers id produces]

theorem potential_cycle_lt (built : p.Built) (short : p.code.size < UInt32.size) (table : CostTable)
    (ready : s.Ready) (unfinished : s.isDone = false) :
    (s.cycle p table).potential p table < s.potential p table := by
  have used := potential_cycle built short table ready
  by_cases opens : s.ended = false ∧ s.buffer.length < bufferSize
  · have takes := takesNext_of_open p table ready opens.1 opens.2
    have decodes : 0 < (decodedInCycle p table (p.code.size + 1) s).length := by
      simp [decodedInCycle, takes]
    omega
  · have refuses : s.takesNext p table = false := by grind [takesNext]
    have unchanged : decodeCycle p table (p.code.size + 1) s = s := by simp [decodeCycle_succ, refuses]
    have waiting : s.buffer ≠ [] := by
      intro empty
      simp_all [isDone, bufferSize]
    have executes := executes_of_closed ready waiting
    rw [unchanged] at used
    omega

theorem simulate_isDone (built : p.Built) (short : p.code.size < UInt32.size) (ready : s.Ready)
    (unfinished : s.isDone = false) (fuel : Nat) (enough : s.potential p table ≤ fuel) :
    (simulate p table fuel s).isDone = true := by
  induction fuel generalizing s with
  | zero =>
    have := potential_cycle_lt built short table ready unfinished
    omega
  | succ fuel ih =>
    have used := potential_cycle_lt built short table ready unfinished
    rw [simulate]
    split
    · assumption
    · rename_i goesOn
      exact ih (cycle_ready ready) (by simpa using goesOn) (by omega)

theorem cycle_cycles (p : Program) (table : CostTable) (s : State) :
    (s.cycle p table).cycles = s.cycles + 1 := by
  change (decodeCycle p table (p.code.size + 1) s).cycles + 1 = s.cycles + 1
  rw [decodeCycle_cycles]

theorem cycles_simulate_le (built : p.Built) (short : p.code.size < UInt32.size) (table : CostTable)
    (ready : s.Ready) (unfinished : s.isDone = false) (fuel : Nat) :
    (simulate p table fuel s).cycles ≤ s.cycles + s.potential p table := by
  induction fuel generalizing s with
  | zero => exact Nat.le_add_right _ _
  | succ fuel ih =>
    have used := potential_cycle_lt built short table ready unfinished
    have counted := cycle_cycles p table s
    rw [simulate]
    split
    · omega
    · rename_i goesOn
      have later := ih (cycle_ready ready) (by simpa using goesOn)
      omega

end State

section Block

variable {p : Program}

/-- Cycles the block at `start` may take: one to decode every instruction, and those to execute the
ones that are more than a renaming. -/
def blockPotential (p : Program) (table : CostTable) (start : UInt32) : Nat :=
  ((blockPlaces p start).map fun pc => 1 + weight table (decodeAt p pc).opcode).sum

theorem cycleBoundFrom_eq (p : Program) (table : CostTable) (fuel : Nat) (pc : UInt32) (sum : Nat) :
    cycleBoundFrom p table fuel pc sum =
      sum + ((walk p fuel pc).map fun pc => 1 + max (table (decodeAt p pc).opcode).cycles 1).sum := by
  induction fuel generalizing pc sum with
  | zero => rfl
  | succ fuel ih =>
    rw [cycleBoundFrom, walk]
    split
    · simp
      omega
    · rw [ih, List.map_cons, List.sum_cons]
      omega

theorem weight_le (table : CostTable) (op : Opcode) : weight table op ≤ max (table op).cycles 1 := by
  rw [weight]
  split
  · exact Nat.zero_le _
  · exact Nat.le_refl _

theorem blockPotential_le_cycleBound (p : Program) (table : CostTable) (start : UInt32) :
    blockPotential p table start ≤ cycleBound p table start := by
  rw [cycleBound, cycleBoundFrom_eq, Nat.zero_add]
  apply List.sum_le_sum
  intro pc _
  exact Nat.add_le_add_left (weight_le _ _) 1

theorem potential_initial (p : Program) (table : CostTable) (start : UInt32) :
    (initial start).potential p table = blockPotential p table start := rfl

/-- The simulation of a block comes to its end, within the cycles that are allowed for it. -/
theorem simulation_ends (built : p.Built) (short : p.code.size < UInt32.size) (table : CostTable)
    (start : UInt32) :
    (State.simulate p table (cycleBound p table start) (initial start)).isDone = true :=
  State.simulate_isDone built short (initial_ready start) rfl _
    (blockPotential_le_cycleBound p table start)

theorem blockCycles_le (built : p.Built) (short : p.code.size < UInt32.size) (table : CostTable)
    (start : UInt32) : blockCycles p table start ≤ blockPotential p table start := by
  have bound := State.cycles_simulate_le built short table (initial_ready start) rfl
    (cycleBound p table start)
  rw [potential_initial] at bound
  exact bound.trans (Nat.zero_add _).le

def simulatedPlaces (p : Program) (table : CostTable) (start : UInt32) : List UInt32 :=
  State.decoded p table (cycleBound p table start) (initial start)

theorem simulatedPlaces_eq (built : p.Built) (short : p.code.size < UInt32.size) (table : CostTable)
    (start : UInt32) : simulatedPlaces p table start = blockPlaces p start := by
  have ends := simulation_ends built short table start
  have all := State.decoded_append_rest built short table (cycleBound p table start) (initial start)
  have ended : (State.simulate p table (cycleBound p table start) (initial start)).ended = true := by
    simp_all [State.isDone]
  rw [State.rest, if_pos ended, List.append_nil] at all
  exact all

theorem blockPotential_le (table : CostTable) (start : UInt32) {bound : Nat}
    (cheap : ∀ op, max (table op).cycles 1 ≤ bound) :
    blockPotential p table start ≤ (p.code.size + 1) * (bound + 1) := by
  have length : (blockPlaces p start).length ≤ p.code.size + 1 := length_walk_le p _ start
  have total := List.sum_le_card_nsmul
    ((blockPlaces p start).map fun pc => 1 + weight table (decodeAt p pc).opcode) (bound + 1) (by
      intro cycles member
      obtain ⟨pc, -, rfl⟩ := List.mem_map.mp member
      have := (weight_le table (decodeAt p pc).opcode).trans (cheap _)
      omega)
  rw [List.length_map] at total
  exact total.trans (Nat.mul_le_mul_right _ length)

/-- The price of a block never wraps while the cycles of every operation fit 32 bits. -/
theorem toNat_blockCost (built : p.Built) (short : p.code.size < UInt32.size) {table : CostTable}
    (cheap : ∀ op, (table op).cycles < UInt32.size) (start : UInt32) :
    (blockCost p table start).toNat = max (blockCycles p table start - 3) 1 := by
  simp only [UInt32.size] at short cheap
  have bound : blockPotential p table start ≤ (p.code.size + 1) * (4294967295 + 1) :=
    blockPotential_le table start fun op => by have := cheap op; omega
  have cycles := blockCycles_le built short table start
  rw [blockCost, UInt64.toNat_ofNat']
  omega

/-- A block costs something: its price is a positive number that fits a word. -/
theorem blockCost_toNat (built : p.Built) (short : p.code.size < UInt32.size) (start : UInt32) :
    (blockCost p CostTable.baseline start).toNat =
      max (blockCycles p CostTable.baseline start - 3) 1 := by
  refine toNat_blockCost built short (fun op => ?_) start
  rw [CostTable.baseline.eq_def]
  split <;> decide

end Block

end Pipeline

end ServiceVm
