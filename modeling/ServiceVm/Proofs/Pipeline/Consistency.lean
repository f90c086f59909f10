import Mathlib.Data.List.Nodup
import ServiceVm.Proofs.Checked
import ServiceVm.Proofs.Pipeline.Hazards

/-!
# The books of the simulation

A cycle is a sequence of moves: one instruction is decoded, one entry started, one entry advanced, one
entry retired. `Moment.next` makes them one at a time, with differences that have no value below zero
and free units that have no value above those of the machine. What the books say (entries are numbered
in order, every unit is free or with an entry that executes) holds between any two moves, so every move
has a value; and the moves of a cycle do to the state what `State.cycle` does.
-/
namespace ServiceVm

namespace Checked

def take (free u : Units) : Option Units := do
  let alu ← sub free.alu u.alu
  let load ← sub free.load u.load
  let store ← sub free.store u.store
  let mul ← sub free.mul u.mul
  let div ← sub free.div u.div
  return ⟨alu, load, store, mul, div⟩

def release (free u : Units) : Option Units :=
  if (free.release u).fitsIn Units.available then some (free.release u) else none

theorem take_eq {free u : Units} (fits : u.fitsIn free = true) : take free u = some (free.take u) := by
  simp only [Units.fitsIn, Bool.and_eq_true, decide_eq_true_eq] at fits
  obtain ⟨⟨⟨⟨alu, load⟩, store⟩, mul⟩, div⟩ := fits
  simp [take, Units.take, sub_eq, alu, load, store, mul, div]

theorem release_eq {free u others : Units} (all : (free.release u).release others = Units.available) :
    release free u = some (free.release u) := by
  have fits : (free.release u).fitsIn Units.available = true := by
    rw [← all]
    simp [Units.fitsIn, Units.release]
  simp [release, fits]

end Checked

namespace Pipeline

/-! ## Moves -/

/-- What the simulation does next, and with the entry at which place of the buffer. -/
inductive Phase where
  | decode
  | dispatch (place : Nat)
  | advance (place : Nat)
  | retire
deriving DecidableEq, Repr

/-- Where the simulation stands between two moves. -/
structure Moment where
  phase : Phase
  state : State
  /-- Entries that have left the buffer, oldest first. -/
  retired : List Nat
deriving DecidableEq, Repr

namespace Moment

/-- Decodes one instruction, or goes on to the first entry. -/
def decodeOne (p : Program) (table : CostTable) (s : State) (retired : List Nat) : Option Moment :=
  if s.takesNext p table then do
    let decodeSlots ← Checked.sub s.decodeSlots (capped (table (decodeAt p s.pc).opcode)).decodeSlots
    return ⟨.decode, { s.decodeNext p table with decodeSlots }, retired⟩
  else some ⟨.dispatch 0, s, retired⟩

/-- Starts the entry at a place if it can start; without slots the others have no turn. -/
def dispatchOne (place : Nat) (s : State) (retired : List Nat) : Option Moment :=
  match s.buffer[place]? with
  | none => some ⟨.advance 0, s, retired⟩
  | some e =>
    if s.executionSlots = 0 then some ⟨.advance 0, s, retired⟩
    else if e.stage = .pending ∧ e.units.fitsIn s.free ∧ e.producers.all s.isFinished then do
      let free ← Checked.take s.free e.units
      let executionSlots ← Checked.sub s.executionSlots 1
      let buffer := s.buffer.set place { e with stage := .executing }
      return ⟨.dispatch (place + 1), { s with free, executionSlots, buffer }, retired⟩
    else some ⟨.dispatch (place + 1), s, retired⟩

/-- Moves the entry at a place on by one cycle. After the last one the cycle is counted. -/
def advanceOne (place : Nat) (s : State) (retired : List Nat) : Option Moment :=
  match s.buffer[place]? with
  | none =>
    some ⟨.retire, { s with
      cycles := s.cycles + 1
      decodeSlots := decodeWidth
      executionSlots := executionWidth }, retired⟩
  | some e =>
    match e.stage with
    | .decoded =>
      let buffer := s.buffer.set place { e with stage := .pending }
      some ⟨.advance (place + 1), { s with buffer }, retired⟩
    | .executing => do
      let remaining ← Checked.sub e.remaining 1
      if remaining = 0 then
        let free ← Checked.release s.free e.units
        let buffer := s.buffer.set place { e with remaining, stage := .finished }
        return ⟨.advance (place + 1), { s with free, buffer }, retired⟩
      else
        let buffer := s.buffer.set place { e with remaining }
        return ⟨.advance (place + 1), { s with buffer }, retired⟩
    | .pending | .finished => some ⟨.advance (place + 1), s, retired⟩

/-- Retires the front of the buffer if it is finished, or goes on to the next cycle. -/
def retireOne (s : State) (retired : List Nat) : Option Moment :=
  match s.buffer with
  | [] => some ⟨.decode, s, retired⟩
  | e :: rest =>
    if e.stage = .finished then some ⟨.retire, { s with buffer := rest }, retired ++ [e.id]⟩
    else some ⟨.decode, s, retired⟩

/-- The next move. It has no value if it performs an operation out of range. -/
def next (p : Program) (table : CostTable) (m : Moment) : Option Moment :=
  match m.phase with
  | .decode => decodeOne p table m.state m.retired
  | .dispatch place => dispatchOne place m.state m.retired
  | .advance place => advanceOne place m.state m.retired
  | .retire => retireOne m.state m.retired

/-- One moment comes after another, by any number of moves. -/
inductive Reaches (p : Program) (table : CostTable) (m : Moment) : Moment → Prop
  | refl : Reaches p table m m
  | next {later last : Moment} (reaches : Reaches p table m later)
      (moves : later.next p table = some last) : Reaches p table m last

variable {p : Program} {table : CostTable} {m later last : Moment}

theorem Reaches.trans (first : m.Reaches p table later) (second : later.Reaches p table last) :
    m.Reaches p table last := by
  induction second with
  | refl => exact first
  | next _ moves ih => exact .next ih moves

theorem Reaches.head (moves : m.next p table = some later) (rest : later.Reaches p table last) :
    m.Reaches p table last :=
  .trans (.next .refl moves) rest

end Moment

/-! ## The invariant of a move -/

def Entry.holds (e : Entry) : Units := if e.isExecuting then e.units else {}

theorem busy_insert (older newer : List Entry) (e : Entry) :
    busy (older ++ e :: newer) = (busy (older ++ newer)).release e.holds := by
  simp only [busy_append, busy, Entry.holds]
  split
  · exact Units.release_right_comm _ _ _
  · rfl

theorem set_of_getElem? {α : Type} {items : List α} {place : Nat} {a : α}
    (found : items[place]? = some a) :
    ∃ older newer, items = older ++ a :: newer ∧
      ∀ b, items.set place b = older ++ b :: newer := by
  obtain ⟨inside, rfl⟩ := List.getElem?_eq_some_iff.mp found
  refine ⟨items.take place, items.drop (place + 1), ?_, ?_⟩
  · simp
  · intro b
    exact List.set_eq_take_append_cons_drop.trans (if_pos inside)

/-- What the books say at any moment, whatever the next move. -/
structure Moment.Sound (m : Moment) : Prop extends m.state.Valid where
  room : m.state.buffer.length ≤ bufferSize
  numbered : m.retired ++ m.state.buffer.map Entry.id = List.range m.state.nextId

namespace Moment.Sound

variable {p : Program} {table : CostTable} {s : State} {retired : List Nat} {phase : Phase}
  {place : Nat} {e : Entry}

theorem replace (sound : Sound ⟨phase, s, retired⟩) (found : s.buffer[place]? = some e) {e' : Entry}
    (valid : e'.Valid) (id : e'.id = e.id) {free : Units} (slots : Nat) (later : Phase)
    (units : free.release e'.holds = s.free.release e.holds) :
    Sound ⟨later, { s with free, executionSlots := slots, buffer := s.buffer.set place e' }, retired⟩ := by
  obtain ⟨older, newer, split, set⟩ := set_of_getElem? found
  obtain ⟨⟨available, entries, producers⟩, room, numbered⟩ := sound
  dsimp only at available entries room numbered
  simp only [set]
  refine ⟨⟨?_, ?_, producers⟩, ?_, ?_⟩
  · rw [split, busy_insert, ← Units.release_assoc, Units.release_right_comm, ← units] at available
    rw [busy_insert, ← Units.release_assoc, Units.release_right_comm]
    exact available
  · intro other member
    rcases List.mem_append.mp member with before | after
    · exact entries other (by simp [split, before])
    · rcases List.mem_cons.mp after with rfl | after
      · exact valid
      · exact entries other (by simp [split, after])
  · simpa [split] using room
  · simpa [split, id] using numbered

theorem decode (sound : Sound ⟨phase, s, retired⟩) (takes : s.takesNext p table = true) :
    Sound ⟨.decode, s.decodeNext p table, retired⟩ := by
  obtain ⟨valid, room, numbered⟩ := sound
  dsimp only at room numbered
  have space : s.buffer.length + 1 ≤ bufferSize := by
    simp only [State.takesNext, Bool.and_eq_true, decide_eq_true_eq] at takes
    exact takes.1.2
  have kept : (s.decodeNext p table).Valid := State.decodeNext_valid valid
  -- A move leaves the buffer alone; any other instruction takes the next number.
  by_cases moves : (decodeAt p s.pc).opcode = .moveReg
  · obtain ⟨-, -, -, -, buffer, nextId, -⟩ := State.decodeNext_move table moves
    exact ⟨kept, by simpa [buffer] using room, by simpa [buffer, nextId] using numbered⟩
  · obtain ⟨nextId, -, e, buffer, id, -⟩ := State.decodeNext_enter table moves
    exact ⟨kept, by simpa [buffer] using space,
      by simp [buffer, nextId, id, List.range_succ, ← numbered]⟩

theorem start (sound : Sound ⟨phase, s, retired⟩) (found : s.buffer[place]? = some e)
    (pending : e.stage = .pending) (fits : e.units.fitsIn s.free = true) (slots : Nat) :
    Sound ⟨.dispatch (place + 1), { s with
      free := s.free.take e.units
      executionSlots := slots
      buffer := s.buffer.set place { e with stage := .executing } }, retired⟩ := by
  obtain ⟨finished, small, producers⟩ := sound.entries e (List.mem_of_getElem? found)
  have left : e.remaining ≠ 0 := fun none => by simp [finished.mpr none] at pending
  have valid : Entry.Valid { e with stage := .executing } := ⟨by simp [left], small, producers⟩
  refine sound.replace found valid rfl slots _ ?_
  simp [Entry.holds, Entry.isExecuting, pending, Units.release_take fits]

theorem remaining_pos (sound : Sound ⟨phase, s, retired⟩) (found : s.buffer[place]? = some e)
    (executing : e.stage = .executing) : 1 ≤ e.remaining := by
  have valid := sound.entries e (List.mem_of_getElem? found)
  refine Nat.one_le_iff_ne_zero.mpr fun none => ?_
  simp [valid.finished_iff.mpr none] at executing

theorem holds_advanceEntry (free : Units) (e : Entry) :
    (if State.finishes e then free.release e.units else free).release (State.advanceEntry e).holds =
      free.release e.holds := by
  cases stage : e.stage with
  | executing =>
    by_cases last : e.remaining ≤ 1
    · have none : e.remaining - 1 = 0 := by omega
      simp [State.finishes, State.advanceEntry, Entry.holds, Entry.isExecuting, stage, last, none]
    · have left : e.remaining - 1 ≠ 0 := by omega
      simp [State.finishes, State.advanceEntry, Entry.holds, Entry.isExecuting, stage, last, left]
  | decoded | pending | finished =>
    simp [State.finishes, State.advanceEntry, Entry.holds, Entry.isExecuting, stage]

theorem advance (sound : Sound ⟨phase, s, retired⟩) (found : s.buffer[place]? = some e) :
    Sound ⟨.advance (place + 1), { s with
      free := if State.finishes e then s.free.release e.units else s.free
      buffer := s.buffer.set place (State.advanceEntry e) }, retired⟩ :=
  sound.replace found (State.advanceEntry_valid (sound.entries e (List.mem_of_getElem? found)))
    (State.advanceEntry_id e) s.executionSlots _
    (holds_advanceEntry s.free e)

theorem retire {rest : List Entry} (sound : Sound ⟨phase, s, retired⟩) (front : s.buffer = e :: rest)
    (finished : e.stage = .finished) :
    Sound ⟨.retire, { s with buffer := rest }, retired ++ [e.id]⟩ := by
  obtain ⟨⟨available, entries, producers⟩, room, numbered⟩ := sound
  dsimp only at available entries room numbered
  simp only [front] at available entries room numbered
  refine ⟨⟨?_, fun other member => entries other (List.mem_cons_of_mem _ member), producers⟩, ?_, ?_⟩
  · simpa [busy, Entry.isExecuting, finished] using available
  · exact (Nat.le_succ _).trans room
  · simpa using numbered

end Moment.Sound

namespace Moment

variable {p : Program} {table : CostTable} {s : State} {retired : List Nat} {phase : Phase}
  {place : Nat} {e : Entry} {m later : Moment}

theorem decodeOne_eq (takes : s.takesNext p table = true) :
    decodeOne p table s retired = some ⟨.decode, s.decodeNext p table, retired⟩ := by
  obtain ⟨buffer, nextId, producers, accepted⟩ :=
    s.accept_frame (decodeAt p s.pc) (capped (table (decodeAt p s.pc).opcode))
  have fits : (capped (table (decodeAt p s.pc).opcode)).decodeSlots ≤ s.decodeSlots := by
    simp_all [State.takesNext]
  simp [decodeOne, takes, Checked.sub_eq fits, State.decodeNext, accepted]

theorem dispatchOne_eq (found : s.buffer[place]? = some e) (slots : s.executionSlots ≠ 0)
    (pending : e.stage = .pending) (fits : e.units.fitsIn s.free = true)
    (ready : e.producers.all s.isFinished = true) :
    dispatchOne place s retired = some ⟨.dispatch (place + 1), { s with
      free := s.free.take e.units
      executionSlots := s.executionSlots - 1
      buffer := s.buffer.set place { e with stage := .executing } }, retired⟩ := by
  have positive : 1 ≤ s.executionSlots := Nat.one_le_iff_ne_zero.mpr slots
  simp [dispatchOne, found, slots, pending, fits, ready, Checked.take_eq, Checked.sub_eq positive]

theorem dispatchOne_waits (found : s.buffer[place]? = some e) (slots : s.executionSlots ≠ 0)
    (waits : ¬ (e.stage = .pending ∧ e.units.fitsIn s.free ∧ e.producers.all s.isFinished)) :
    dispatchOne place s retired = some ⟨.dispatch (place + 1), s, retired⟩ := by
  simp only [dispatchOne, found, slots, waits, if_false]

theorem advanceOne_eq (sound : Sound ⟨phase, s, retired⟩) (found : s.buffer[place]? = some e) :
    advanceOne place s retired = some ⟨.advance (place + 1), { s with
      free := if State.finishes e then s.free.release e.units else s.free
      buffer := s.buffer.set place (State.advanceEntry e) }, retired⟩ := by
  cases stage : e.stage with
  | executing =>
    have left := sound.remaining_pos found stage
    by_cases last : e.remaining = 1
    · have held : Checked.release s.free e.units = some (s.free.release e.units) := by
        obtain ⟨older, newer, split, -⟩ := set_of_getElem? found
        have available := sound.units
        simp only [split, busy_insert, Entry.holds, Entry.isExecuting, stage, decide_true, if_true]
          at available
        rw [← Units.release_assoc, Units.release_right_comm] at available
        exact Checked.release_eq available
      simp [advanceOne, found, stage, Checked.sub_eq, last, held, State.finishes, State.advanceEntry]
    · have more : ¬ e.remaining ≤ 1 := by omega
      have goesOn : e.remaining - 1 ≠ 0 := by omega
      simp [advanceOne, found, stage, Checked.sub_eq left, more, goesOn, State.finishes,
        State.advanceEntry]
  | decoded => simp [advanceOne, found, stage, State.finishes, State.advanceEntry]
  | pending | finished =>
    have same : s.buffer.set place e = s.buffer := by
      obtain ⟨inside, rfl⟩ := List.getElem?_eq_some_iff.mp found
      simp
    simp [advanceOne, found, stage, State.finishes, State.advanceEntry, same]

/-- Every move has a value, and the books are right after it. -/
theorem Sound.next (sound : m.Sound) : ∃ later, m.next p table = some later ∧ later.Sound := by
  obtain ⟨phase, s, retired⟩ := m
  have unchanged (phase : Phase) : Sound ⟨phase, s, retired⟩ := ⟨sound.toValid, sound.room, sound.numbered⟩
  cases phase with
  | decode =>
    by_cases takes : s.takesNext p table = true
    · exact ⟨_, decodeOne_eq takes, sound.decode takes⟩
    · exact ⟨_, if_neg takes, unchanged _⟩
  | dispatch place =>
    cases found : s.buffer[place]? with
    | none => exact ⟨⟨.advance 0, s, retired⟩, by simp [Moment.next, dispatchOne, found], unchanged _⟩
    | some e =>
      by_cases full : s.executionSlots = 0
      · exact ⟨⟨.advance 0, s, retired⟩, by simp [Moment.next, dispatchOne, found, full], unchanged _⟩
      · by_cases starts : e.stage = .pending ∧ e.units.fitsIn s.free ∧ e.producers.all s.isFinished
        · obtain ⟨pending, fits, ready⟩ := starts
          exact ⟨_, dispatchOne_eq found full pending fits ready, sound.start found pending fits _⟩
        · exact ⟨_, dispatchOne_waits found full starts, unchanged _⟩
  | advance place =>
    cases found : s.buffer[place]? with
    | none =>
      refine ⟨⟨.retire, { s with
        cycles := s.cycles + 1, decodeSlots := decodeWidth, executionSlots := executionWidth }, retired⟩,
        by simp [Moment.next, advanceOne, found], ?_⟩
      exact ⟨⟨sound.units, sound.entries, sound.producers⟩, sound.room, sound.numbered⟩
    | some e => exact ⟨_, advanceOne_eq sound found, sound.advance found⟩
  | retire =>
    cases front : s.buffer with
    | nil => exact ⟨⟨.decode, s, retired⟩, by simp [Moment.next, retireOne, front], unchanged _⟩
    | cons e rest =>
      by_cases finished : e.stage = .finished
      · exact ⟨_, by simp [Moment.next, retireOne, front, finished], sound.retire front finished⟩
      · exact ⟨⟨.decode, s, retired⟩, by simp [Moment.next, retireOne, front, finished], unchanged _⟩

theorem Reaches.sound (reaches : m.Reaches p table later) (sound : m.Sound) : later.Sound := by
  induction reaches with
  | refl => exact sound
  | next _ moves ih =>
    obtain ⟨_, moves', kept⟩ := ih.next (p := p)
    cases moves.symm.trans moves'
    exact kept

end Moment

/-! ## What the invariant says of entries -/

theorem numbered_range (n : Nat) : Numbered (List.range n) n := by
  intro i id found
  obtain ⟨inside, rfl⟩ := List.getElem?_eq_some_iff.mp found
  simp
  omega

theorem State.isFinished_iff {s : State} {id : Nat}
    (numbered : Numbered (s.buffer.map Entry.id) s.nextId) (assigned : id < s.nextId) :
    s.isFinished id = true ↔ ∀ e ∈ s.buffer, e.id = id → e.stage = .finished := by
  have place (i : Nat) (e : Entry) (found : s.buffer[i]? = some e) :
      e.id + s.buffer.length = s.nextId + i := by
    simpa using numbered i e.id (by simp [found])
  have index (e : Entry) (member : e ∈ s.buffer) : s.buffer[e.id + s.buffer.length - s.nextId]? = some e := by
    obtain ⟨i, found⟩ := List.mem_iff_getElem?.mp member
    rwa [place i e found, Nat.add_sub_cancel_left]
  rw [isFinished]
  split
  · simp_all
  · rename_i head rest buffer
    have front := place 0 head (by simp [buffer])
    split
    · rename_i before
      refine ⟨fun _ e member same => ?_, fun _ => rfl⟩
      obtain ⟨i, found⟩ := List.mem_iff_getElem?.mp member
      have := place i e found
      omega
    · rename_i after
      have inside : id - head.id < s.buffer.length := by omega
      have found := List.getElem?_eq_getElem inside
      have same := place _ _ found
      simp only [found, decide_eq_true_eq]
      constructor
      · rintro finished e member rfl
        have := index e member
        rw [show e.id + s.buffer.length - s.nextId = e.id - head.id by omega, found] at this
        exact Option.some.inj this ▸ finished
      · intro all
        exact all _ (List.getElem_mem inside) (by omega)

/-- What can be said of a moment: the buffer has room for its entries, which are the latest ones in
order; a unit is free or with an entry that executes, and such an entry has a cycle left; operands come
from earlier entries; and an entry counts as finished once it is retired or its stage says so. -/
structure Moment.Consistent (m : Moment) : Prop where
  room : m.state.buffer.length ≤ 32
  numbered : m.retired ++ m.state.buffer.map Entry.id = List.range m.state.nextId
  units : m.state.free.release (busy m.state.buffer) = Units.available
  executing : ∀ e ∈ m.state.buffer, e.stage = .executing → 1 ≤ e.remaining
  producers : ∀ e ∈ m.state.buffer, ∀ id ∈ e.producers, id < e.id
  finished : ∀ id < m.state.nextId, m.state.isFinished id = true ↔
    id ∈ m.retired ∨ ∃ e ∈ m.state.buffer, e.id = id ∧ e.stage = .finished

theorem Moment.Sound.consistent {m : Moment} (sound : m.Sound) : m.Consistent where
  room := sound.room
  numbered := sound.numbered
  units := sound.units
  executing := by
    intro e member executing
    obtain ⟨place, found⟩ := List.mem_iff_getElem?.mp member
    exact sound.remaining_pos found executing
  producers := fun e member => (sound.entries e member).producers
  finished := by
    intro id assigned
    have latest : Numbered (m.state.buffer.map Entry.id) m.state.nextId :=
      .of_append (sound.numbered ▸ numbered_range _)
    have listed : id ∈ m.retired ++ m.state.buffer.map Entry.id := by
      simpa [sound.numbered] using assigned
    obtain ⟨-, distinct, apart⟩ := List.nodup_append.mp (sound.numbered ▸ List.nodup_range)
    rw [State.isFinished_iff latest assigned]
    constructor
    · intro all
      rcases List.mem_append.mp listed with gone | here
      · exact .inl gone
      · obtain ⟨e, member, same⟩ := List.mem_map.mp here
        exact .inr ⟨e, member, same, all e member same⟩
    · rintro (gone | ⟨e, member, rfl, finished⟩) other found same
      · exact absurd same.symm (apart id gone _ (List.mem_map_of_mem found))
      · exact List.inj_on_of_nodup_map distinct found member same ▸ finished

/-! ## The moves of a cycle -/

/-- What the test for finished entries looks at. -/
def Entry.mark (e : Entry) : Nat × Bool := (e.id, e.stage = .finished)

theorem State.isFinished_congr {s s' : State}
    (same : s.buffer.map Entry.mark = s'.buffer.map Entry.mark) : s.isFinished = s'.isFinished := by
  funext id
  have place (i : Nat) : s.buffer[i]?.map Entry.mark = s'.buffer[i]?.map Entry.mark := by
    simpa using congrArg (fun marks => marks[i]?) same
  cases buffer : s.buffer with
  | nil => simp_all [isFinished]
  | cons head rest =>
    cases buffer' : s'.buffer with
    | nil => simp [buffer, buffer'] at same
    | cons head' rest' =>
      have front : head.id = head'.id := by simp_all [Entry.mark]
      have asked := place (id - head.id)
      simp only [isFinished, buffer, buffer', front] at asked ⊢
      split
      · rfl
      · cases found : (head :: rest)[id - head'.id]? <;>
          cases found' : (head' :: rest')[id - head'.id]? <;> simp_all [Entry.mark]

theorem State.start_zero (ready : Nat → Bool) (entries : List Entry) (free : Units) :
    start ready entries 0 free = (entries, 0, free) := by
  induction entries with
  | nil => rfl
  | cons e rest ih => simp [start, ih]

namespace Moment

variable {p : Program} {table : CostTable} {s : State} {retired : List Nat}

theorem reaches_decodeCycle (fuel : Nat) (s : State) :
    Reaches p table ⟨.decode, s, retired⟩ ⟨.decode, State.decodeCycle p table fuel s, retired⟩ := by
  induction fuel generalizing s with
  | zero => exact .refl
  | succ fuel ih =>
    rw [State.decodeCycle_succ]
    split
    · rename_i takes
      exact .head (decodeOne_eq takes) (ih _)
    · exact .refl

/-- Entries have their turns one after the other; those that had theirs are `older`. -/
theorem reaches_start (older entries : List Entry) (slots : Nat) (free : Units) (ready : Nat → Bool)
    (tested : ({ s with buffer := older ++ entries } : State).isFinished = ready) :
    Reaches p table
      ⟨.dispatch older.length, { s with
        buffer := older ++ entries, executionSlots := slots, free := free }, retired⟩
      ⟨.advance 0, { s with
        buffer := older ++ (State.start ready entries slots free).1
        executionSlots := (State.start ready entries slots free).2.1
        free := (State.start ready entries slots free).2.2 }, retired⟩ := by
  induction entries generalizing older slots free with
  | nil => exact .head (by simp [next, dispatchOne, State.start]) .refl
  | cons e rest ih =>
    have found : (older ++ e :: rest)[older.length]? = some e := by simp
    have now : ({ s with
        buffer := older ++ e :: rest, executionSlots := slots, free := free } : State).isFinished = ready :=
      (State.isFinished_congr rfl).trans tested
    by_cases full : slots = 0
    · subst full
      rw [State.start_zero]
      exact .head (by simp [next, dispatchOne]) .refl
    · by_cases starts : e.stage = .pending ∧ e.units.fitsIn free ∧ e.producers.all ready
      · obtain ⟨pending, fits, operands⟩ := starts
        have same : ({ s with
            buffer := (older ++ [{ e with stage := .executing }]) ++ rest } : State).isFinished = ready := by
          rw [← tested]
          exact State.isFinished_congr (by simp [Entry.mark, pending])
        have later := ih (older ++ [{ e with stage := .executing }]) (slots - 1) (free.take e.units) same
        rw [State.start, if_pos ⟨Nat.pos_of_ne_zero full, pending, fits, operands⟩]
        refine .head (dispatchOne_eq found full pending fits (by rwa [now])) ?_
        simpa using later
      · have later := ih (older ++ [e]) slots free (by simpa using tested)
        rw [State.start, if_neg fun both => starts both.2]
        refine .head (dispatchOne_waits found full (by rwa [now])) ?_
        simpa using later

theorem reaches_dispatch (s : State) :
    Reaches p table ⟨.dispatch 0, s, retired⟩ ⟨.advance 0, s.dispatch, retired⟩ :=
  reaches_start [] s.buffer s.executionSlots s.free s.isFinished rfl

theorem reaches_advanced (older entries : List Entry) (free : Units)
    (sound : Sound ⟨.advance older.length, { s with buffer := older ++ entries, free := free }, retired⟩) :
    Reaches p table
      ⟨.advance older.length, { s with buffer := older ++ entries, free := free }, retired⟩
      ⟨.retire, { s with
        buffer := older ++ entries.map State.advanceEntry
        free := entries.foldl
          (fun free e => if State.finishes e then free.release e.units else free) free
        cycles := s.cycles + 1
        decodeSlots := decodeWidth
        executionSlots := executionWidth }, retired⟩ := by
  induction entries generalizing older free with
  | nil => exact .head (by simp [next, advanceOne]) .refl
  | cons e rest ih =>
    have found : (older ++ e :: rest)[older.length]? = some e := by simp
    have kept := sound.advance found
    simp only [List.set_append_right, Nat.le_refl, Nat.sub_self, List.set_cons_zero] at kept
    have later := ih (older ++ [State.advanceEntry e]) _ (by simpa using kept)
    refine .head (advanceOne_eq sound found) ?_
    simpa using later

theorem reaches_advance (sound : Sound ⟨.advance 0, s, retired⟩) :
    Reaches p table ⟨.advance 0, s, retired⟩ ⟨.retire, s.advance, retired⟩ :=
  reaches_advanced [] s.buffer s.free sound

theorem reaches_retired (entries : List Entry) (retired : List Nat) :
    Reaches p table ⟨.retire, { s with buffer := entries }, retired⟩
      ⟨.decode, { s with buffer := entries.dropWhile fun e => e.stage = .finished },
        retired ++ (entries.takeWhile fun e => e.stage = .finished).map Entry.id⟩ := by
  induction entries generalizing retired with
  | nil => exact .head (by simp [next, retireOne]) .refl
  | cons e rest ih =>
    by_cases finished : e.stage = .finished
    · have moves : next p table ⟨.retire, { s with buffer := e :: rest }, retired⟩ =
          some ⟨.retire, { s with buffer := rest }, retired ++ [e.id]⟩ := by
        simp [next, retireOne, finished]
      simpa [finished] using Reaches.head moves (ih _)
    · exact .head (by simp [next, retireOne, finished]) .refl

theorem reaches_retire (s : State) :
    Reaches p table ⟨.retire, s, retired⟩ ⟨.decode, s.retire,
      retired ++ (s.buffer.takeWhile fun e => e.stage = .finished).map Entry.id⟩ :=
  reaches_retired s.buffer retired

end Moment

section Cycles

variable (p : Program) (table : CostTable) (start : UInt32) (n : Nat)

/-- Entries retired in the first `n` cycles, oldest first. -/
def retiredBy : List Nat :=
  (List.range n).flatMap fun k =>
    ((beforeDispatch p table start k).dispatch.advance.buffer.takeWhile
      fun e => e.stage = .finished).map Entry.id

def cycleStart : Moment := ⟨.decode, stateAfter p table start n, retiredBy p table start n⟩

def dispatchStart : Moment := ⟨.dispatch 0, beforeDispatch p table start n, retiredBy p table start n⟩

def advanceStart : Moment :=
  ⟨.advance 0, (beforeDispatch p table start n).dispatch, retiredBy p table start n⟩

def retireStart : Moment :=
  ⟨.retire, (beforeDispatch p table start n).dispatch.advance, retiredBy p table start n⟩

def Visited (m : Moment) : Prop :=
  ∃ n, (cycleStart p table start n).Reaches p table m ∨ (dispatchStart p table start n).Reaches p table m

theorem cycleStart_succ :
    cycleStart p table start (n + 1) =
      ⟨.decode, (beforeDispatch p table start n).dispatch.advance.retire, retiredBy p table start n ++
        ((beforeDispatch p table start n).dispatch.advance.buffer.takeWhile
          fun e => e.stage = .finished).map Entry.id⟩ := by
  simp only [cycleStart, stateAfter_succ, retiredBy, List.range_succ, List.flatMap_append,
    List.flatMap_cons, List.flatMap_nil, List.append_nil]
  rfl

theorem cycleStart_reaches :
    (cycleStart p table start n).Reaches p table
      ⟨.decode, beforeDispatch p table start n, retiredBy p table start n⟩ :=
  Moment.reaches_decodeCycle _ _

theorem dispatchStart_reaches :
    (dispatchStart p table start n).Reaches p table (advanceStart p table start n) :=
  Moment.reaches_dispatch _

theorem retireStart_reaches :
    (retireStart p table start n).Reaches p table (cycleStart p table start (n + 1)) := by
  rw [cycleStart_succ]
  exact Moment.reaches_retire _

variable {p table start n}

theorem dispatchStart_sound (sound : (cycleStart p table start n).Sound) :
    (dispatchStart p table start n).Sound := by
  obtain ⟨valid, room, numbered⟩ := (cycleStart_reaches p table start n).sound sound
  exact ⟨valid, room, numbered⟩

theorem advanceStart_reaches (sound : (cycleStart p table start n).Sound) :
    (advanceStart p table start n).Reaches p table (retireStart p table start n) :=
  Moment.reaches_advance ((dispatchStart_reaches p table start n).sound (dispatchStart_sound sound))

theorem cycleStart_sound (n : Nat) : (cycleStart p table start n).Sound := by
  induction n with
  | zero => exact ⟨(initial_ready start).toValid, Nat.zero_le _, rfl⟩
  | succ n ih =>
    have cycle : (dispatchStart p table start n).Reaches p table (cycleStart p table start (n + 1)) :=
      (dispatchStart_reaches p table start n).trans
        ((advanceStart_reaches ih).trans (retireStart_reaches p table start n))
    exact cycle.sound (dispatchStart_sound ih)

theorem Visited.sound {m : Moment} (visited : Visited p table start m) : m.Sound := by
  obtain ⟨n, reaches | reaches⟩ := visited
  · exact reaches.sound (cycleStart_sound n)
  · exact reaches.sound (dispatchStart_sound (cycleStart_sound n))

/-- The decoder has stopped by itself, so the moves go on to the first entry. -/
theorem cycleStart_reaches_next (built : p.Built) (short : p.code.size < UInt32.size) :
    (cycleStart p table start n).Reaches p table (cycleStart p table start (n + 1)) := by
  have refuses : (beforeDispatch p table start n).takesNext p table = false :=
    State.decodeCycle_refuses built short _
  have moves : Moment.next p table ⟨.decode, beforeDispatch p table start n, retiredBy p table start n⟩ =
      some (dispatchStart p table start n) := by
    simp [Moment.next, Moment.decodeOne, refuses, dispatchStart]
  exact (Moment.Reaches.next (cycleStart_reaches p table start n) moves).trans
    ((dispatchStart_reaches p table start n).trans
      ((advanceStart_reaches (cycleStart_sound n)).trans (retireStart_reaches p table start n)))

/-- Between any two moves of a simulation the books are right, and the next move performs no operation
out of range. The moves of a cycle lead through its phases, and those of a program that was built from
one cycle to the next. They go on past the end of the block, when there is nothing left to do. -/
theorem simulation_consistent (p : Program) (table : CostTable) (start : UInt32) :
    (∀ m, Visited p table start m → m.Consistent ∧ ∃ later, m.next p table = some later) ∧
    (∀ n,
      (cycleStart p table start n).Reaches p table
        ⟨.decode, beforeDispatch p table start n, retiredBy p table start n⟩ ∧
      (dispatchStart p table start n).Reaches p table (advanceStart p table start n) ∧
      (advanceStart p table start n).Reaches p table (retireStart p table start n) ∧
      (retireStart p table start n).Reaches p table (cycleStart p table start (n + 1))) ∧
    (p.Built → p.code.size < UInt32.size →
      ∀ n, (cycleStart p table start 0).Reaches p table (cycleStart p table start n)) := by
  refine ⟨?_, ?_, ?_⟩
  · intro m visited
    obtain ⟨later, moves, -⟩ := visited.sound.next (p := p)
    exact ⟨visited.sound.consistent, later, moves⟩
  · intro n
    exact ⟨cycleStart_reaches p table start n, dispatchStart_reaches p table start n,
      advanceStart_reaches (cycleStart_sound n), retireStart_reaches p table start n⟩
  · intro built short n
    induction n with
    | zero => exact .refl
    | succ n ih => exact ih.trans (cycleStart_reaches_next built short)

end Cycles

/-- The first load takes all units for arithmetic while the second one waits. -/
theorem greedyBlock_consistent :
    (advanceStart greedyBlock greedyTable 0 1).state.free = ⟨0, 4, 4, 0, 1⟩ ∧
      (advanceStart greedyBlock greedyTable 0 1).Consistent ∧
      (cycleStart greedyBlock greedyTable 0 0).Reaches greedyBlock greedyTable
        (cycleStart greedyBlock greedyTable 0 2) := by
  obtain ⟨visited, phases, cycles⟩ := simulation_consistent greedyBlock greedyTable 0
  refine ⟨by decide +kernel, ?_, cycles (.ofCode _ _ _ _) (by decide) 2⟩
  exact (visited _ ⟨1, .inr (phases 1).2.1⟩).1

end Pipeline

end ServiceVm
