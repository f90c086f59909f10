import ServiceVm.Proofs.Pipeline.Progress

/-!
# Where the operands of an instruction come from

Program order alone says which instruction of a block produces the value of a register: the last one
to write it, a move standing for the producer of the register it copies. While instructions are
decoded, the renaming table of the simulation agrees with that order.
-/
namespace ServiceVm.Pipeline

/-- The instruction at `j` is the last one before place `k` to write the register. -/
structure LastWriter (block : List Decoded) (k : Nat) (reg : Reg) (j : Nat) : Prop where
  before : j < k
  writes : ∃ d, block[j]? = some d ∧ reg ∈ d.writes
  latest : ∀ i d, j < i → i < k → block[i]? = some d → reg ∉ d.writes

/-- The instruction at `j` produces the value a register has before place `k`. No move does: it hands
on what was produced for the register it reads. -/
inductive Producer (block : List Decoded) : (k : Nat) → Reg → (j : Nat) → Prop
  | writer {k reg j d} (last : LastWriter block k reg j) (atPlace : block[j]? = some d)
      (enters : d.opcode ≠ .moveReg) : Producer block k reg j
  | move {k reg i d source j} (last : LastWriter block k reg i) (atPlace : block[i]? = some d)
      (moves : d.opcode = .moveReg) (reads : source ∈ d.reads)
      (produced : Producer block i source j) : Producer block k reg j

/-- The instruction at `j` produces an operand of the one at `k`. -/
def Feeds (block : List Decoded) (j k : Nat) : Prop :=
  ∃ d, block[k]? = some d ∧ ∃ reg ∈ d.reads, Producer block k reg j

/-- Instructions before place `k` that are no moves; they are given entries in order. -/
def entryId (block : List Decoded) (k : Nat) : Nat :=
  (block.take k).countP fun d => d.opcode ≠ .moveReg

/-- The instruction at `k` is no move and gets the entry `id`. -/
def Enters (block : List Decoded) (k id : Nat) : Prop :=
  id = entryId block k ∧ ∃ d, block[k]? = some d ∧ d.opcode ≠ .moveReg

section Block

variable {block : List Decoded} {j k : Nat} {reg : Reg} {d : Decoded}

theorem entryId_succ (atPlace : block[k]? = some d) :
    entryId block (k + 1) = entryId block k + if d.opcode = .moveReg then 0 else 1 := by
  rw [entryId, List.take_add_one, atPlace, List.countP_append, entryId]
  by_cases move : d.opcode = .moveReg <;> simp [move]

theorem entryId_mono (le : j ≤ k) : entryId block j ≤ entryId block k :=
  (List.take_sublist_take_left le).countP_le

theorem entryId_lt (atPlace : block[j]? = some d) (enters : d.opcode ≠ .moveReg) (before : j < k) :
    entryId block j < entryId block k := by
  have next := entryId_succ atPlace
  have later : entryId block (j + 1) ≤ entryId block k := entryId_mono before
  rw [if_neg enters] at next
  omega

theorem Enters.unique {id : Nat} (first : Enters block j id) (second : Enters block k id) : j = k := by
  obtain ⟨rfl, d, atFirst, enters⟩ := first
  obtain ⟨same, d', atSecond, enters'⟩ := second
  obtain before | rfl | after := Nat.lt_trichotomy j k
  · have := entryId_lt atFirst enters before
    omega
  · rfl
  · have := entryId_lt atSecond enters' after
    omega

theorem Producer.enters (produced : Producer block k reg j) :
    j < k ∧ Enters block j (entryId block j) := by
  induction produced with
  | writer last atPlace enters => exact ⟨last.before, rfl, _, atPlace, enters⟩
  | move last atPlace moves reads produced ih => exact ⟨ih.1.trans last.before, ih.2⟩

theorem LastWriter.of_succ (last : LastWriter block (k + 1) reg j) (atPlace : block[k]? = some d) :
    (reg ∈ d.writes ∧ j = k) ∨ (reg ∉ d.writes ∧ LastWriter block k reg j) := by
  obtain ⟨before, writes, latest⟩ := last
  obtain earlier | rfl := Nat.lt_succ_iff_lt_or_eq.mp before
  · refine .inr ⟨latest k d earlier (Nat.lt_succ_self k) atPlace, earlier, writes, ?_⟩
    intro other d' after inside
    exact latest other d' after (inside.trans (Nat.lt_succ_self k))
  · obtain ⟨d', atSame, written⟩ := writes
    rw [atPlace] at atSame
    cases atSame
    exact .inl ⟨written, rfl⟩

theorem Producer.of_succ (produced : Producer block (k + 1) reg j) (atPlace : block[k]? = some d) :
    (reg ∉ d.writes ∧ Producer block k reg j) ∨
      (reg ∈ d.writes ∧ d.opcode ≠ .moveReg ∧ j = k) ∨
      (reg ∈ d.writes ∧ d.opcode = .moveReg ∧ ∃ source ∈ d.reads, Producer block k source j) := by
  cases produced with
  | writer last atWriter enters =>
    obtain ⟨written, rfl⟩ | ⟨kept, earlier⟩ := last.of_succ atPlace
    · rw [atPlace] at atWriter
      cases atWriter
      exact .inr (.inl ⟨written, enters, rfl⟩)
    · exact .inl ⟨kept, .writer earlier atWriter enters⟩
  | move last atMove moves reads produced =>
    obtain ⟨written, rfl⟩ | ⟨kept, earlier⟩ := last.of_succ atPlace
    · rw [atPlace] at atMove
      cases atMove
      exact .inr (.inr ⟨written, moves, _, reads, produced⟩)
    · exact .inl ⟨kept, .move earlier atMove moves reads produced⟩

end Block

theorem decodeAt_move {p : Program} {pc : UInt32} (moves : (decodeAt p pc).opcode = .moveReg) :
    ∃ target source, (decodeAt p pc).writes = [target] ∧ (decodeAt p pc).reads = [source] := by
  cases fetched : p.fetch? pc with
  | none => simp [decodeAt, fetched] at moves
  | some f =>
    simp only [decodeAt, fetched] at moves ⊢
    cases instr : f.instr with
    | moveReg target source => exact ⟨target, source, rfl, rfl⟩
    | _ => simp [instr, Instr.opcode] at moves

namespace State

/-- The renaming table gives every register the entry of its producer among the instructions decoded
so far, and the next entry is that of the next instruction. -/
structure Tracks (block : List Decoded) (decoded : Nat) (s : State) : Prop where
  nextId : s.nextId = entryId block decoded
  producers : ∀ reg j, Producer block decoded reg j → s.producers.get reg = some (entryId block j)

theorem get_produce (s : State) (writes : List Reg) (reg : Reg) :
    (reg ∈ writes → (s.produce writes).get reg = some s.nextId) ∧
      (reg ∉ writes → (s.produce writes).get reg = s.producers.get reg) := by
  rw [produce]
  generalize s.producers = file
  induction writes generalizing file with
  | nil => simp
  | cons w writes ih =>
    obtain ⟨written, kept⟩ := ih (file.put w (some s.nextId))
    rw [List.foldl_cons]
    refine ⟨?_, ?_⟩
    · intro member
      by_cases later : reg ∈ writes
      · exact written later
      · obtain rfl : reg = w := (List.mem_cons.mp member).resolve_right later
        rw [kept later, RegFile.get_put, if_pos rfl]
    · intro other
      rw [List.mem_cons, not_or] at other
      rw [kept other.2, RegFile.get_put, if_neg (Ne.symm other.1)]

variable {p : Program} {block : List Decoded} {decoded : Nat} {s : State}

theorem initial_tracks (block : List Decoded) (start : UInt32) : (initial start).Tracks block 0 where
  nextId := rfl
  producers := fun _ _ produced => absurd produced.enters.1 (Nat.not_lt_zero _)

theorem decodeNext_move (table : CostTable) (moves : (decodeAt p s.pc).opcode = .moveReg) :
    ∃ target source, (decodeAt p s.pc).writes = [target] ∧ (decodeAt p s.pc).reads = [source] ∧
      (s.decodeNext p table).buffer = s.buffer ∧ (s.decodeNext p table).nextId = s.nextId ∧
      (s.decodeNext p table).producers = s.producers.put target (s.producers.get source) := by
  obtain ⟨target, source, writes, reads⟩ := decodeAt_move moves
  refine ⟨target, source, writes, reads, ?_⟩
  simp [decodeNext, accept, moves, rename, writes, reads]

theorem decodeNext_enter (table : CostTable) (enters : (decodeAt p s.pc).opcode ≠ .moveReg) :
    (s.decodeNext p table).nextId = s.nextId + 1 ∧
      (s.decodeNext p table).producers = s.produce (decodeAt p s.pc).writes ∧
      ∃ e : Entry, (s.decodeNext p table).buffer = s.buffer ++ [e] ∧ e.id = s.nextId ∧
        e.stage = .decoded ∧ e.remaining = weight table (decodeAt p s.pc).opcode ∧
        e.producers = (decodeAt p s.pc).reads.filterMap fun reg => s.producers.get reg := by
  simp only [decodeNext, accept, enters, if_false, weight]
  exact ⟨rfl, rfl, _, rfl, rfl, rfl, rfl, rfl⟩

theorem Tracks.decodeNext (table : CostTable) (tracks : s.Tracks block decoded)
    (atPlace : block[decoded]? = some (decodeAt p s.pc)) :
    (s.decodeNext p table).Tracks block (decoded + 1) := by
  by_cases moves : (decodeAt p s.pc).opcode = .moveReg
  · obtain ⟨target, source, writes, reads, -, nextId, renamed⟩ := decodeNext_move table moves
    refine ⟨?_, ?_⟩
    · rw [nextId, tracks.nextId, entryId_succ atPlace, if_pos moves, Nat.add_zero]
    · intro reg j produced
      rw [renamed, RegFile.get_put]
      obtain ⟨kept, earlier⟩ | ⟨-, enters, -⟩ | ⟨written, -, read, reading, earlier⟩ :=
        produced.of_succ atPlace
      · rw [writes, List.mem_singleton] at kept
        rw [if_neg (Ne.symm kept), tracks.producers reg j earlier]
      · exact absurd moves enters
      · rw [writes, List.mem_singleton] at written
        rw [reads, List.mem_singleton] at reading
        rw [if_pos written.symm, ← reading, tracks.producers read j earlier]
  · obtain ⟨nextId, produces, -⟩ := decodeNext_enter table moves
    refine ⟨?_, ?_⟩
    · rw [nextId, tracks.nextId, entryId_succ atPlace, if_neg moves]
    · intro reg j produced
      rw [produces]
      obtain ⟨kept, earlier⟩ | ⟨written, -, rfl⟩ | ⟨-, move, -⟩ := produced.of_succ atPlace
      · rw [(s.get_produce _ reg).2 kept, tracks.producers reg j earlier]
      · rw [(s.get_produce _ reg).1 written, tracks.nextId]
      · exact absurd move moves

end State

end ServiceVm.Pipeline
