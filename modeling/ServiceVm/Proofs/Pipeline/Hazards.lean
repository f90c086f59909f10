import Mathlib.Data.List.Chain
import Mathlib.Data.List.Forall2
import Mathlib.Data.List.TakeWhile
import ServiceVm.Proofs.Pipeline.Cycles
import ServiceVm.Proofs.Pipeline.Dataflow

/-!
# Operands are waited for

An entry starts only after the producers of its operands, as program order gives them, have finished
in earlier cycles. An instruction therefore finishes no earlier than a chain of producers before it
takes one after the other, and neither does the block.
-/
namespace ServiceVm.Pipeline

/-- Instructions decoded in the first `n` cycles, in order. -/
def blockBy (p : Program) (table : CostTable) (start : UInt32) (n : Nat) : List Decoded :=
  (decodedBy p table start n).map (decodeAt p)

/-- Cycles the instruction at `k` executes for; a move takes none. -/
def executionCycles (table : CostTable) (block : List Decoded) (k : Nat) : Nat :=
  match block[k]? with
  | some d => weight table d.opcode
  | none => 0

def beforeDispatch (p : Program) (table : CostTable) (start : UInt32) (n : Nat) : State :=
  State.decodeCycle p table (p.code.size + 1) (stateAfter p table start n)

/-- Cycle `n` makes the entry go from pending to executing. -/
def Starts (p : Program) (table : CostTable) (start : UInt32) (n id : Nat) : Prop :=
  (∃ e ∈ (beforeDispatch p table start n).buffer, e.id = id ∧ e.stage = .pending) ∧
    ∃ e ∈ (beforeDispatch p table start n).dispatch.buffer, e.id = id ∧ e.stage = .executing

/-- Cycle `n` makes the entry go from executing to finished. -/
def Finishes (p : Program) (table : CostTable) (start : UInt32) (n id : Nat) : Prop :=
  (∃ e ∈ (beforeDispatch p table start n).dispatch.buffer, e.id = id ∧ e.stage = .executing) ∧
    ∃ e ∈ (beforeDispatch p table start n).dispatch.advance.buffer, e.id = id ∧ e.stage = .finished

instance (p : Program) (table : CostTable) (start : UInt32) (n id : Nat) :
    Decidable (Starts p table start n id) :=
  inferInstanceAs (Decidable (_ ∧ _))

section Related

variable {α β : Type} {R : α → β → Prop} {xs : List α} {ys : List β}

theorem exists_of_mem_right (related : List.Forall₂ R xs ys) {y : β} (member : y ∈ ys) :
    ∃ x ∈ xs, R x y := by
  induction related with
  | nil => contradiction
  | cons first _ ih =>
    obtain rfl | later := List.mem_cons.mp member
    · exact ⟨_, List.mem_cons_self, first⟩
    · obtain ⟨x, found, relates⟩ := ih later
      exact ⟨x, List.mem_cons_of_mem _ found, relates⟩

theorem exists_of_mem_left (related : List.Forall₂ R xs ys) {x : α} (member : x ∈ xs) :
    ∃ y ∈ ys, R x y :=
  exists_of_mem_right related.flip member

end Related

namespace State

/-- What starting entries does to one of them. -/
inductive Started (ready : Nat → Bool) (e : Entry) : Entry → Prop
  | waits : Started ready e e
  | starts (pending : e.stage = .pending) (operands : ∀ id ∈ e.producers, ready id = true) :
      Started ready e { e with stage := .executing }

theorem start_started (ready : Nat → Bool) (entries : List Entry) (slots : Nat) (free : Units) :
    List.Forall₂ (Started ready) entries (start ready entries slots free).1 := by
  induction entries generalizing slots free with
  | nil => exact .nil
  | cons e rest ih =>
    rw [start]
    split
    · rename_i starts
      exact .cons (.starts starts.2.1 (List.all_eq_true.mp starts.2.2.2)) (ih _ _)
    · exact .cons .waits (ih _ _)

theorem dispatch_started (s : State) :
    List.Forall₂ (Started s.isFinished) s.buffer s.dispatch.buffer :=
  start_started _ _ _ _

theorem Started.id_eq {ready : Nat → Bool} {e e' : Entry} (started : Started ready e e') :
    e.id = e'.id := by
  cases started <;> rfl

theorem dispatch_ids (s : State) : s.dispatch.buffer.map Entry.id = s.buffer.map Entry.id := by
  have same : List.Forall₂ (· = ·) (s.buffer.map Entry.id) (s.dispatch.buffer.map Entry.id) :=
    List.forall₂_map_left_iff.mpr (List.forall₂_map_right_iff.mpr
      (s.dispatch_started.imp fun _ _ => Started.id_eq))
  rw [List.forall₂_eq_eq_eq] at same
  exact same.symm

theorem advanceEntry_id (e : Entry) : (advanceEntry e).id = e.id := by
  rw [advanceEntry]
  split <;> rfl

theorem advanceEntry_producers (e : Entry) : (advanceEntry e).producers = e.producers := by
  rw [advanceEntry]
  split <;> rfl

theorem advanceEntry_finished {e : Entry} (finished : (advanceEntry e).stage = .finished) :
    e.stage = .finished ∨ (e.stage = .executing ∧ e.remaining ≤ 1) := by
  cases stage : e.stage with
  | decoded | pending => simp [advanceEntry, stage] at finished
  | executing =>
    refine .inr ⟨rfl, ?_⟩
    by_contra more
    have left : e.remaining - 1 ≠ 0 := by omega
    simp [advanceEntry, stage, left] at finished
  | finished => exact .inl rfl

theorem advance_ids (s : State) : s.advance.buffer.map Entry.id = s.buffer.map Entry.id := by
  simp [advance, advanceEntry_id]

end State

/-- The latest numbers before `next`, in order. -/
def Numbered (ids : List Nat) (next : Nat) : Prop :=
  ∀ i id, ids[i]? = some id → id + ids.length = next + i

namespace Numbered

variable {ids older : List Nat} {next : Nat}

theorem push (numbered : Numbered ids next) : Numbered (ids ++ [next]) (next + 1) := by
  intro i id found
  rw [List.length_append, List.length_singleton]
  rw [List.getElem?_append] at found
  split at found
  · have := numbered i id found
    omega
  · obtain ⟨last, rfl⟩ := List.getElem?_eq_some_iff.mp found
    simp only [List.length_singleton, Nat.lt_one_iff] at last
    simp only [List.getElem_singleton]
    omega

theorem of_append (numbered : Numbered (older ++ ids) next) : Numbered ids next := by
  intro i id found
  have := numbered (older.length + i) id (by
    rw [List.getElem?_append_right (Nat.le_add_right _ _), Nat.add_sub_cancel_left]
    exact found)
  rw [List.length_append] at this
  omega

end Numbered

section Run

variable (p : Program) (table : CostTable) (start : UInt32)

/-- Where an entry stands after `n` cycles, if its instruction executes for the given number. -/
def Timely (cycles n : Nat) (e : Entry) : Prop :=
  match e.stage with
  | .decoded => e.remaining = cycles
  | .pending => e.remaining = cycles ∧ 0 < n
  | .executing => ∃ m, Starts p table start m e.id ∧ e.remaining + n = cycles + m
  | .finished => True

/-- The entry belongs to the instruction at `k` and waits for the producers of its operands. -/
structure Entry.Follows (block : List Decoded) (n k : Nat) (e : Entry) : Prop where
  enters : Enters block k e.id
  operands : ∀ j, Feeds block j k → entryId block j ∈ e.producers
  timely : Timely p table start (executionCycles table block k) n e

/-- After `n` cycles and the given number of decoded instructions of the block, the buffer holds the
latest entries in order, and every entry that is not among the unfinished ones has finished in an
earlier cycle. -/
structure State.Follows (block : List Decoded) (n decoded : Nat) (s : State) : Prop
    extends s.Tracks block decoded where
  numbered : Numbered (s.buffer.map Entry.id) s.nextId
  entries : ∀ e ∈ s.buffer, ∃ k, e.Follows p table start block n k
  settled : ∀ id < s.nextId, (∃ e ∈ s.buffer, e.id = id ∧ e.stage ≠ .finished) ∨
    ∃ m < n, Finishes p table start m id

end Run

theorem Timely.advance {p : Program} {table : CostTable} {start : UInt32} {cycles n : Nat} {e : Entry}
    (timely : Timely p table start cycles n e) :
    Timely p table start cycles (n + 1) (State.advanceEntry e) := by
  cases stage : e.stage with
  | decoded =>
    simp only [Timely, stage] at timely
    simpa [Timely, State.advanceEntry, stage] using timely
  | pending =>
    simp only [Timely, stage] at timely
    simpa [Timely, State.advanceEntry, stage] using timely.1
  | executing =>
    simp only [Timely, stage] at timely
    obtain ⟨m, starts, elapsed⟩ := timely
    by_cases last : e.remaining - 1 = 0
    · simp [Timely, State.advanceEntry, stage, last]
    · simp only [Timely, State.advanceEntry, stage, last, if_false]
      exact ⟨m, starts, by omega⟩
  | finished => simp [Timely, State.advanceEntry, stage]

namespace State.Follows

variable {p : Program} {table : CostTable} {start : UInt32} {block : List Decoded} {n decoded : Nat}
  {s : State}

theorem place {e : Entry} (follows : s.Follows p table start block n decoded) (member : e ∈ s.buffer) :
    ∃ i < s.buffer.length, s.buffer[i]? = some e ∧ e.id + s.buffer.length = s.nextId + i := by
  obtain ⟨i, inside, rfl⟩ := List.mem_iff_getElem.mp member
  have place := follows.numbered i s.buffer[i].id (by simp [inside])
  rw [List.length_map] at place
  exact ⟨i, inside, List.getElem?_eq_getElem inside, place⟩

theorem eq_of_id {e e' : Entry} (follows : s.Follows p table start block n decoded)
    (member : e ∈ s.buffer) (member' : e' ∈ s.buffer) (same : e.id = e'.id) : e = e' := by
  obtain ⟨i, -, found, place⟩ := follows.place member
  obtain ⟨i', -, found', place'⟩ := follows.place member'
  obtain rfl : i = i' := by omega
  exact Option.some.inj (found.symm.trans found')

theorem finished_of_ready {e : Entry} (follows : s.Follows p table start block n decoded)
    (member : e ∈ s.buffer) (ready : s.isFinished e.id = true) : e.stage = .finished := by
  obtain ⟨i, inside, found, place⟩ := follows.place member
  cases buffer : s.buffer with
  | nil => simp [buffer] at inside
  | cons head rest =>
    have front := follows.numbered 0 head.id (by simp [buffer])
    rw [List.length_map] at front
    have index : e.id - head.id = i := by omega
    rw [isFinished, buffer] at ready
    simp only [Nat.not_lt.mpr (show head.id ≤ e.id by omega), if_false, index] at ready
    rw [buffer] at found
    simpa [found] using ready

theorem finishes_of_ready {id : Nat} (follows : s.Follows p table start block n decoded)
    (entered : id < s.nextId) (ready : s.isFinished id = true) :
    ∃ m < n, Finishes p table start m id := by
  obtain ⟨e, member, rfl, unfinished⟩ | earlier := follows.settled id entered
  · exact absurd (follows.finished_of_ready member ready) unfinished
  · exact earlier

theorem initial (p : Program) (table : CostTable) (start : UInt32) (block : List Decoded) :
    (initial start).Follows p table start block 0 0 where
  toTracks := initial_tracks block start
  numbered := by simp [Pipeline.initial, Numbered]
  entries := by simp [Pipeline.initial]
  settled := by simp [Pipeline.initial]

theorem decodeNext (follows : s.Follows p table start block n decoded)
    (atPlace : block[decoded]? = some (decodeAt p s.pc)) :
    (s.decodeNext p table).Follows p table start block n (decoded + 1) := by
  have tracks := follows.toTracks.decodeNext table atPlace
  -- A move leaves the buffer alone; any other instruction is its newest entry.
  by_cases moves : (decodeAt p s.pc).opcode = .moveReg
  · obtain ⟨-, -, -, -, buffer, nextId, -⟩ := decodeNext_move table moves
    refine ⟨tracks, ?_, ?_, ?_⟩
    · rw [buffer, nextId]
      exact follows.numbered
    · rw [buffer]
      exact follows.entries
    · rw [buffer, nextId]
      exact follows.settled
  · obtain ⟨nextId, -, e, buffer, id, stage, remaining, producers⟩ := decodeNext_enter table moves
    refine ⟨tracks, ?_, ?_, ?_⟩
    · rw [buffer, nextId, List.map_append, List.map_singleton, id]
      exact follows.numbered.push
    · intro other member
      rw [buffer, List.mem_append, List.mem_singleton] at member
      obtain old | rfl := member
      · exact follows.entries other old
      · refine ⟨decoded, ⟨id.trans follows.nextId, _, atPlace, moves⟩, ?_, ?_⟩
        · rintro j ⟨d, atSame, reg, reads, produced⟩
          rw [atPlace] at atSame
          cases atSame
          rw [producers, List.mem_filterMap]
          exact ⟨reg, reads, follows.producers reg j produced⟩
        · simp [Timely, stage, executionCycles, atPlace, remaining]
    · intro id' entered
      rw [buffer]
      rw [nextId] at entered
      obtain older | rfl := Nat.lt_succ_iff_lt_or_eq.mp entered
      · obtain ⟨old, member, unfinished⟩ | earlier := follows.settled id' older
        · exact .inl ⟨old, List.mem_append_left _ member, unfinished⟩
        · exact .inr earlier
      · exact .inl ⟨e, by simp, id, by simp [stage]⟩

theorem decodeCycle (fuel : Nat) (follows : s.Follows p table start block n decoded)
    (places : (decodedInCycle p table fuel s).map (decodeAt p) <+: block.drop decoded) :
    (decodeCycle p table fuel s).Follows p table start block n
      (decoded + (decodedInCycle p table fuel s).length) := by
  induction fuel generalizing s decoded with
  | zero => exact follows
  | succ fuel ih =>
    rw [decodeCycle_succ]
    rw [decodedInCycle] at places ⊢
    split
    · rename_i takes
      rw [if_pos takes, List.map_cons] at places
      obtain ⟨after, split⟩ := places
      have atPlace : block[decoded]? = some (decodeAt p s.pc) := by
        rw [← List.head?_drop, ← split]
        rfl
      rw [List.length_cons, Nat.add_comm _ 1, ← Nat.add_assoc]
      refine ih (follows.decodeNext atPlace) ⟨after, ?_⟩
      rw [← List.tail_drop, ← split]
      rfl
    · exact follows

theorem dispatch (follows : (beforeDispatch p table start n).Follows p table start block n decoded) :
    (beforeDispatch p table start n).dispatch.Follows p table start block n decoded := by
  have started := (beforeDispatch p table start n).dispatch_started
  refine ⟨⟨follows.nextId, follows.producers⟩, ?_, ?_, ?_⟩
  · rw [dispatch_ids]
    exact follows.numbered
  · intro e' member'
    obtain ⟨e, member, step⟩ := exists_of_mem_right started member'
    obtain ⟨k, enters, operands, timely⟩ := follows.entries e member
    cases step with
    | waits => exact ⟨k, enters, operands, timely⟩
    | starts pending =>
      refine ⟨k, enters, operands, n, ?_, ?_⟩
      · exact ⟨⟨e, member, rfl, pending⟩, _, member', rfl, rfl⟩
      · simp only [Timely, pending] at timely
        rw [timely.1]
  · intro id entered
    obtain ⟨e, member, rfl, unfinished⟩ | earlier := follows.settled id entered
    · obtain ⟨e', member', step⟩ := exists_of_mem_left started member
      refine .inl ⟨e', member', step.id_eq.symm, ?_⟩
      cases step with
      | waits => exact unfinished
      | starts => simp
    · exact .inr earlier

theorem advance
    (follows : (beforeDispatch p table start n).dispatch.Follows p table start block n decoded) :
    (beforeDispatch p table start n).dispatch.advance.Follows p table start block (n + 1) decoded := by
  refine ⟨⟨follows.nextId, follows.producers⟩, ?_, ?_, ?_⟩
  · rw [advance_ids]
    exact follows.numbered
  · intro e' member'
    obtain ⟨e, member, rfl⟩ := List.mem_map.mp member'
    obtain ⟨k, enters, operands, timely⟩ := follows.entries e member
    refine ⟨k, ?_, ?_, timely.advance⟩
    · rw [advanceEntry_id]
      exact enters
    · rw [advanceEntry_producers]
      exact operands
  · intro id entered
    obtain ⟨e, member, rfl, unfinished⟩ | ⟨m, earlier, finishes⟩ := follows.settled id entered
    · -- An entry that is unfinished no more finishes in this very cycle.
      have member' := List.mem_map_of_mem (f := advanceEntry) member
      by_cases finished : (advanceEntry e).stage = .finished
      · obtain already | ⟨executing, -⟩ := advanceEntry_finished finished
        · exact absurd already unfinished
        · exact .inr ⟨n, Nat.lt_succ_self n, ⟨e, member, rfl, executing⟩, _, member',
            advanceEntry_id e, finished⟩
      · exact .inl ⟨_, member', advanceEntry_id e, finished⟩
    · exact .inr ⟨m, earlier.trans (Nat.lt_succ_self n), finishes⟩

theorem retire (follows : s.Follows p table start block n decoded) :
    s.retire.Follows p table start block n decoded := by
  have split := List.takeWhile_append_dropWhile (p := fun e : Entry => decide (e.stage = .finished))
    (l := s.buffer)
  refine ⟨⟨follows.nextId, follows.producers⟩, ?_, ?_, ?_⟩
  · have numbered := follows.numbered
    rw [← split, List.map_append] at numbered
    exact numbered.of_append
  · intro e left
    exact follows.entries e ((List.dropWhile_sublist _).mem left)
  · intro id entered
    obtain ⟨e, member, same, unfinished⟩ | earlier := follows.settled id entered
    · rw [← split, List.mem_append] at member
      obtain gone | left := member
      · exact absurd (by simpa using List.mem_takeWhile_imp gone) unfinished
      · exact .inl ⟨e, left, same, unfinished⟩
    · exact .inr earlier

end State.Follows

section Events

variable {p : Program} {table : CostTable} {start : UInt32} {N n k id : Nat}

theorem decodedBy_grows (p : Program) (table : CostTable) (start : UInt32) (within : n ≤ N) :
    decodedBy p table start n <+: decodedBy p table start N := by
  induction N, within using Nat.le_induction with
  | base => exact List.prefix_rfl
  | succ N _ ih =>
    rw [decodedBy_succ]
    exact ih.trans (List.prefix_append _ _)

/-- The decoding of a cycle finds its instructions in the block after those of earlier cycles. -/
theorem beforeDispatch_follows (before : n < N)
    (follows : (stateAfter p table start n).Follows p table start (blockBy p table start N) n
      (decodedBy p table start n).length) :
    (beforeDispatch p table start n).Follows p table start (blockBy p table start N) n
      (decodedBy p table start (n + 1)).length := by
  rw [decodedBy_succ, List.length_append]
  apply follows.decodeCycle
  obtain ⟨later, split⟩ := decodedBy_grows p table start (Nat.succ_le_of_lt before)
  rw [decodedBy_succ] at split
  refine ⟨later.map (decodeAt p), ?_⟩
  simp [blockBy, ← split]

theorem stateAfter_follows (p : Program) (table : CostTable) (start : UInt32) (within : n ≤ N) :
    (stateAfter p table start n).Follows p table start (blockBy p table start N) n
      (decodedBy p table start n).length := by
  induction n with
  | zero => exact .initial p table start _
  | succ n ih =>
    rw [stateAfter_succ]
    exact (beforeDispatch_follows within (ih (Nat.le_of_succ_le within))).dispatch.advance.retire

theorem Starts.operands_finished (starts : Starts p table start n id) (before : n < N) :
    0 < n ∧ ∃ k, Enters (blockBy p table start N) k id ∧
      ∀ j, Feeds (blockBy p table start N) j k →
        ∃ m < n, Finishes p table start m (entryId (blockBy p table start N) j) := by
  have follows := beforeDispatch_follows before (stateAfter_follows p table start before.le)
  obtain ⟨⟨e, member, rfl, pending⟩, e', member', same, executing⟩ := starts
  obtain ⟨found, inBuffer, step⟩ := exists_of_mem_right (State.dispatch_started _) member'
  obtain rfl := follows.eq_of_id inBuffer member (step.id_eq.trans same)
  obtain ⟨k, enters, operands, timely⟩ := follows.entries found member
  simp only [Timely, pending] at timely
  refine ⟨timely.2, k, enters, ?_⟩
  cases step with
  | waits => simp [pending] at executing
  | starts _ ready =>
    intro j feeds
    have produced := operands j feeds
    obtain ⟨i, inside, -, place⟩ := follows.place member
    obtain ⟨d, -, reg, -, producer⟩ := feeds
    have earlier : entryId (blockBy p table start N) j ≤ entryId (blockBy p table start N) k :=
      entryId_mono producer.enters.1.le
    rw [← enters.1] at earlier
    exact follows.finishes_of_ready (by omega) (ready _ produced)

theorem Finishes.started (finishes : Finishes p table start n id) (before : n < N)
    (enters : Enters (blockBy p table start N) k id) :
    ∃ m, Starts p table start m id ∧
      m + executionCycles table (blockBy p table start N) k ≤ n + 1 := by
  have follows :=
    (beforeDispatch_follows before (stateAfter_follows p table start before.le)).dispatch
  obtain ⟨⟨e, member, rfl, executing⟩, e', member', same, finished⟩ := finishes
  obtain ⟨found, inBuffer, rfl⟩ := List.mem_map.mp member'
  rw [State.advanceEntry_id] at same
  obtain rfl := follows.eq_of_id inBuffer member same
  obtain ⟨place, entered, -, timely⟩ := follows.entries found member
  obtain rfl := entered.unique enters
  obtain already | ⟨-, last⟩ := State.advanceEntry_finished finished
  · simp [already] at executing
  · simp only [Timely, executing] at timely
    obtain ⟨m, starts, elapsed⟩ := timely
    exact ⟨m, starts, by omega⟩

theorem StopsAfter.finishes (stops : StopsAfter p table start N)
    (enters : Enters (blockBy p table start N) k id) : ∃ m < N, Finishes p table start m id := by
  have follows := stateAfter_follows p table start (Nat.le_refl N)
  have empty : (stateAfter p table start N).buffer = [] := by
    have := stops.done
    simp_all [State.isDone]
  have entered : id < (stateAfter p table start N).nextId := by
    obtain ⟨rfl, d, atPlace, notMove⟩ := enters
    obtain ⟨inside, -⟩ := List.getElem?_eq_some_iff.mp atPlace
    rw [follows.nextId]
    exact entryId_lt atPlace notMove (by simpa [blockBy] using inside)
  obtain ⟨e, member, -⟩ | earlier := follows.settled id entered
  · simp [empty] at member
  · exact earlier

theorem Enters.executionCycles_pos {block : List Decoded} (table : CostTable)
    (enters : Enters block k id) : 0 < executionCycles table block k := by
  obtain ⟨-, d, atPlace, notMove⟩ := enters
  simp only [executionCycles, atPlace, weight, notMove, if_false]
  omega

theorem executionCycles_eq_zero {block : List Decoded} (table : CostTable)
    (renamed : ¬ Enters block k (entryId block k)) : executionCycles table block k = 0 := by
  rw [executionCycles]
  split
  · rename_i d atPlace
    have moves : d.opcode = .moveReg := by
      by_contra notMove
      exact renamed ⟨rfl, d, atPlace, notMove⟩
    simp [weight, moves]
  · rfl

/-- The last instruction of a chain, here the first of the list, finishes no earlier than the chain
takes one instruction after the other. -/
theorem Finishes.chain_le (finishes : Finishes p table start n id) (before : n < N)
    (enters : Enters (blockBy p table start N) k id) (producers : List Nat)
    (chain : (k :: producers).IsChain fun k j => Feeds (blockBy p table start N) j k) :
    ((k :: producers).map (executionCycles table (blockBy p table start N))).sum ≤ n := by
  induction producers generalizing n k id with
  | nil =>
    obtain ⟨m, starts, executed⟩ := finishes.started before enters
    have positive := enters.executionCycles_pos table
    have late := (starts.operands_finished (N := N) (by omega)).1
    simp only [List.map_cons, List.map_nil, List.sum_cons, List.sum_nil]
    omega
  | cons j producers ih =>
    obtain ⟨m, starts, executed⟩ := finishes.started before enters
    have positive := enters.executionCycles_pos table
    obtain ⟨-, place, entered, operands⟩ := starts.operands_finished (N := N) (by omega)
    obtain rfl := entered.unique enters
    obtain ⟨feeds, rest⟩ := List.isChain_cons_cons.mp chain
    obtain ⟨earlier, ends, finished⟩ := operands j feeds
    obtain ⟨d, -, reg, -, producer⟩ := feeds
    have bound := ih finished (by omega) producer.enters.2 rest
    rw [List.map_cons, List.sum_cons]
    omega

theorem StopsAfter.chain_lt (stops : StopsAfter p table start N) (chain : List Nat)
    (linked : chain.IsChain (Feeds (blockBy p table start N))) :
    (chain.map (executionCycles table (blockBy p table start N))).sum < N := by
  have positive : 0 < N := by
    by_contra none
    obtain rfl : N = 0 := by omega
    exact Bool.false_ne_true stops.done
  -- A chain is followed back from its end. Only there may stand a move, which takes no cycles.
  rw [← List.reverse_reverse chain, List.isChain_reverse] at linked
  rw [← List.sum_reverse, ← List.map_reverse]
  cases backwards : chain.reverse with
  | nil => simpa using positive
  | cons k producers =>
    rw [backwards] at linked
    by_cases enters : Enters (blockBy p table start N) k (entryId (blockBy p table start N) k)
    · obtain ⟨m, before, finishes⟩ := stops.finishes enters
      exact (finishes.chain_le before enters producers linked).trans_lt before
    · rw [List.map_cons, List.sum_cons, executionCycles_eq_zero table enters, Nat.zero_add]
      cases producers with
      | nil => simpa using positive
      | cons j producers =>
        obtain ⟨⟨d, -, reg, -, producer⟩, rest⟩ := List.isChain_cons_cons.mp linked
        obtain ⟨m, before, finishes⟩ := stops.finishes producer.enters.2
        exact (finishes.chain_le before producer.enters.2 producers rest).trans_lt before

/-- Whenever an entry is started, every instruction that produces one of its operands has finished in
an earlier cycle. A block therefore takes longer than any chain of instructions each of which feeds
the next, where a move at the end of the chain counts for nothing. -/
theorem operands_awaited (p : Program) (table : CostTable) (start : UInt32) :
    (∀ N n id, n < N → Starts p table start n id →
      ∃ k, Enters (blockBy p table start N) k id ∧ ∀ j, Feeds (blockBy p table start N) j k →
        ∃ id', Enters (blockBy p table start N) j id' ∧ ∃ m < n, Finishes p table start m id') ∧
    (∀ N, StopsAfter p table start N → ∀ chain : List Nat,
      chain.IsChain (Feeds (blockBy p table start N)) →
        1 + (chain.map (executionCycles table (blockBy p table start N))).sum ≤ N) ∧
    (p.Built → p.code.size < UInt32.size →
      StopsAfter p table start (blockCycles p table start) ∧
        blockBy p table start (blockCycles p table start) =
          (blockPlaces p start).map (decodeAt p)) := by
  refine ⟨?_, ?_, ?_⟩
  · intro N n id before starts
    obtain ⟨-, k, enters, finished⟩ := starts.operands_finished before
    refine ⟨k, enters, fun j feeds => ⟨_, ?_, finished j feeds⟩⟩
    obtain ⟨d, -, reg, -, producer⟩ := feeds
    exact producer.enters.2
  · intro N stops chain linked
    rw [Nat.add_comm]
    exact stops.chain_lt chain linked
  · intro built short
    obtain ⟨stops, places⟩ := simulation_stops built short table start
    exact ⟨stops, congrArg (List.map (decodeAt p)) places⟩

end Events

/-- A sum, a move of it to another register, and the sum of that register with itself. -/
def copiedSum : Program :=
  Program.ofCode #[200, 0, 0, 100, 1, 200, 17, 2]
    #[true, false, false, true, false, true, false, false] #[] 0

/-- Moves are said to take ten cycles, all other operations one. -/
def slowMoves : CostTable := fun op => ⟨if op = .moveReg then 10 else 1, 1, ⟨1, 0, 0, 0, 0⟩⟩

theorem copiedSum_block : blockBy copiedSum slowMoves 0 3 =
    [⟨.alu .add64, 3, false, [0, 0], [0]⟩, ⟨.moveReg, 5, false, [0], [1]⟩,
      ⟨.alu .add64, 8, true, [1, 1], [2]⟩] := by
  decide +kernel

theorem copiedSum_moved : Producer (blockBy copiedSum slowMoves 0 3) 1 0 0 := by
  rw [copiedSum_block]
  refine .writer ⟨by decide, ⟨_, rfl, by decide⟩, ?_⟩ rfl (by decide)
  intro i d after before
  omega

theorem copiedSum_feeds : Feeds (blockBy copiedSum slowMoves 0 3) 0 2 := by
  have moved := copiedSum_moved
  rw [copiedSum_block] at moved ⊢
  refine ⟨_, rfl, 1, by decide, .move ⟨by decide, ⟨_, rfl, by decide⟩, ?_⟩ rfl rfl (by decide) moved⟩
  intro i d after before
  omega

theorem copiedSum_awaited :
    Starts copiedSum slowMoves 0 2 1 ∧ (∃ m < 2, Finishes copiedSum slowMoves 0 m 0) ∧
      1 + ([0, 2].map (executionCycles slowMoves (blockBy copiedSum slowMoves 0 3))).sum ≤
        blockCycles copiedSum slowMoves 0 := by
  obtain ⟨awaited, bound, ends⟩ := operands_awaited copiedSum slowMoves 0
  have starts : Starts copiedSum slowMoves 0 2 1 := by decide +kernel
  have count : blockCycles copiedSum slowMoves 0 = 3 := by decide +kernel
  obtain ⟨stops, -⟩ := ends (.ofCode _ _ _ _) (by decide)
  rw [count] at stops ⊢
  refine ⟨starts, ?_, bound 3 stops [0, 2] (by simpa using copiedSum_feeds)⟩
  obtain ⟨k, enters, finished⟩ := awaited 3 2 1 (by decide) starts
  obtain rfl : k = 2 := enters.unique ⟨by decide +kernel, _, by rw [copiedSum_block]; rfl, by decide⟩
  obtain ⟨id, entered, finishes⟩ := finished 0 copiedSum_feeds
  obtain rfl : id = 0 := entered.1.trans (by decide +kernel)
  exact finishes

/-- A move may end a chain without taking the cycles the table gives for it. -/
theorem copiedSum_outruns_move :
    ¬ ∀ N, StopsAfter copiedSum slowMoves 0 N → ∀ chain : List Nat,
      chain.IsChain (Feeds (blockBy copiedSum slowMoves 0 N)) →
        1 + ((chain.filterMap fun k => (blockBy copiedSum slowMoves 0 N)[k]?).map
          fun d => max 1 (slowMoves d.opcode).cycles).sum ≤ N := by
  intro bound
  have feeds : Feeds (blockBy copiedSum slowMoves 0 3) 0 1 :=
    ⟨_, by rw [copiedSum_block]; rfl, 0, by decide, copiedSum_moved⟩
  have stops : StopsAfter copiedSum slowMoves 0 3 := ⟨by decide +kernel, by decide +kernel⟩
  have claimed := bound 3 stops [0, 1] (by simpa using feeds)
  rw [copiedSum_block] at claimed
  exact absurd claimed (by decide)

end ServiceVm.Pipeline
