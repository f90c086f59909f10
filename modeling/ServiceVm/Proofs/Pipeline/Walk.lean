import ServiceVm.Pipeline.BlockCost
import ServiceVm.Proofs.Instr.Flow

/-!
# The places of a block

`blockPlaces` walks from a place to the end of its block. The simulation decodes the places of this
walk one after the other, whatever the cycle in which it gets to them; `decoded_append_rest` says
so, and no place of a walk after the first starts a block.
-/
namespace ServiceVm.Pipeline

/-- Places from `pc` to the end of the block, at most `fuel` of them. -/
def walk (p : Program) : (fuel : Nat) → (pc : UInt32) → List UInt32
  | 0, _ => []
  | fuel + 1, pc =>
    if (decodeAt p pc).last then [pc] else pc :: walk p fuel (decodeAt p pc).following

/-- Places of the block that starts at `pc`, in order. -/
def blockPlaces (p : Program) (pc : UInt32) : List UInt32 := walk p (p.code.size + 1) pc

section Walk

variable {p : Program}

theorem decodeAt_not_last (built : p.Built) (short : p.code.size < UInt32.size) {pc : UInt32}
    (goesOn : (decodeAt p pc).last = false) :
    ∃ f, p.fetch? pc = some f ∧ f.instr.opcode.isTerminator = false ∧
      (decodeAt p pc).following = followingPc pc f.skip ∧
      (followingPc pc f.skip).toNat = pc.toNat + 1 + p.skip pc.toNat ∧
      (followingPc pc f.skip).toNat < p.code.size := by
  cases fetched : p.fetch? pc with
  | none => simp [decodeAt, fetched] at goesOn
  | some f =>
    simp only [decodeAt, fetched, Bool.or_eq_false_iff, decide_eq_false_iff_not, Nat.not_le] at goesOn
    obtain ⟨noTerminator, inside⟩ := goesOn
    exact ⟨f, rfl, noTerminator, by simp [decodeAt, fetched],
      (built.followingPc_toNat short fetched).1, inside⟩

theorem lt_size_of_not_last (built : p.Built) (short : p.code.size < UInt32.size) {pc : UInt32}
    (goesOn : (decodeAt p pc).last = false) :
    pc.toNat < (decodeAt p pc).following.toNat ∧ (decodeAt p pc).following.toNat < p.code.size := by
  obtain ⟨f, -, -, following, place, inside⟩ := decodeAt_not_last built short goesOn
  rw [following]
  exact ⟨by omega, inside⟩

theorem walk_stable (built : p.Built) (short : p.code.size < UInt32.size) (pc : UInt32)
    (fuel more : Nat) (enough : p.code.size - pc.toNat < fuel) :
    walk p (fuel + more) pc = walk p fuel pc := by
  induction fuel generalizing pc with
  | zero => omega
  | succ fuel ih =>
    rw [Nat.succ_add, walk, walk]
    cases goesOn : (decodeAt p pc).last with
    | true => rfl
    | false =>
      obtain ⟨up, inside⟩ := lt_size_of_not_last built short goesOn
      simp only [Bool.false_eq_true, if_false]
      rw [ih _ (by omega)]

theorem blockPlaces_eq (built : p.Built) (short : p.code.size < UInt32.size) (pc : UInt32) :
    blockPlaces p pc =
      if (decodeAt p pc).last then [pc] else pc :: blockPlaces p (decodeAt p pc).following := by
  rw [blockPlaces, walk]
  cases goesOn : (decodeAt p pc).last with
  | true => rfl
  | false =>
    obtain ⟨up, inside⟩ := lt_size_of_not_last built short goesOn
    simp only [Bool.false_eq_true, if_false, blockPlaces]
    rw [walk_stable built short _ p.code.size 1 (by omega)]

theorem length_walk_le (p : Program) (fuel : Nat) (pc : UInt32) : (walk p fuel pc).length ≤ fuel := by
  induction fuel generalizing pc with
  | zero => exact Nat.le_refl _
  | succ fuel ih =>
    rw [walk]
    split
    · simp
    · exact Nat.succ_le_succ (ih _)

/-- Induction along the rest of a block. -/
theorem block_induction (built : p.Built) (short : p.code.size < UInt32.size)
    {motive : UInt32 → Prop} (last : ∀ pc, (decodeAt p pc).last = true → motive pc)
    (next : ∀ pc, (decodeAt p pc).last = false → motive (decodeAt p pc).following → motive pc)
    (pc : UInt32) : motive pc := by
  induction rank : p.code.size - pc.toNat using Nat.strongRecOn generalizing pc with
  | ind rank ih =>
    cases goesOn : (decodeAt p pc).last with
    | true => exact last pc goesOn
    | false =>
      obtain ⟨up, inside⟩ := lt_size_of_not_last built short goesOn
      exact next pc goesOn (ih _ (by omega) _ rfl)

theorem head_blockPlaces (built : p.Built) (short : p.code.size < UInt32.size) (pc : UInt32) :
    ∃ rest, blockPlaces p pc = pc :: rest := by
  rw [blockPlaces_eq built short]
  split
  · exact ⟨[], rfl⟩
  · exact ⟨_, rfl⟩

theorem not_blockStart_following (built : p.Built) (short : p.code.size < UInt32.size) {pc : UInt32}
    (goesOn : (decodeAt p pc).last = false) :
    p.isBlockStart (decodeAt p pc).following.toNat = false := by
  obtain ⟨f, fetched, noTerminator, following, place, -⟩ := decodeAt_not_last built short goesOn
  obtain ⟨start, -, byte, atPc, known⟩ := Program.fetch?_eq_some fetched
  rw [following, place, built.isBlockStart_following start atPc, isTerminatorByte_of_ofByte? known,
    noTerminator, Bool.and_false]

theorem not_blockStart_of_mem_tail (built : p.Built) (short : p.code.size < UInt32.size)
    (pc : UInt32) : ∀ q ∈ (blockPlaces p pc).tail, p.isBlockStart q.toNat = false := by
  induction pc using block_induction built short with
  | last pc ends => simp [blockPlaces_eq built short pc, ends]
  | next pc goesOn ih =>
    intro q member
    rw [blockPlaces_eq built short pc, goesOn] at member
    obtain ⟨rest, places⟩ := head_blockPlaces built short (decodeAt p pc).following
    simp only [Bool.false_eq_true, if_false, List.tail_cons, places, List.mem_cons] at member
    obtain rfl | later := member
    · exact not_blockStart_following built short goesOn
    · exact ih q (by rw [places]; exact later)

theorem prefix_following (built : p.Built) (short : p.code.size < UInt32.size) {pc : UInt32}
    (goesOn : (decodeAt p pc).last = false) (start : UInt32) (done : List UInt32)
    (inBlock : done ++ [pc] <+: blockPlaces p start) :
    done ++ [pc] ++ [(decodeAt p pc).following] <+: blockPlaces p start := by
  induction start using block_induction built short generalizing done with
  | last start ends =>
    rw [blockPlaces_eq built short, if_pos ends] at inBlock
    cases done with
    | nil =>
      obtain rfl : pc = start := (List.cons_prefix_cons.mp inBlock).1
      simp [ends] at goesOn
    | cons first done => simp at inBlock
  | next start startGoesOn ih =>
    rw [blockPlaces_eq built short, startGoesOn] at inBlock ⊢
    cases done with
    | nil =>
      obtain rfl : pc = start := (List.cons_prefix_cons.mp inBlock).1
      obtain ⟨rest, places⟩ := head_blockPlaces built short (decodeAt p pc).following
      simp [places]
    | cons first done =>
      obtain ⟨rfl, later⟩ := List.cons_prefix_cons.mp inBlock
      exact List.cons_prefix_cons.mpr ⟨rfl, ih done later⟩

theorem blockStart_following (built : p.Built) (short : p.code.size < UInt32.size) {pc : UInt32}
    {f : Fetched} (fetched : p.fetch? pc = some f) (ends : (decodeAt p pc).last = true) :
    p.isBlockStart (followingPc pc f.skip).toNat = true ∨ p.fetch? (followingPc pc f.skip) = none := by
  have place := (built.followingPc_toNat short fetched).1
  cases marked : p.isInstructionStart (followingPc pc f.skip).toNat with
  | false => exact .inr (Program.fetch?_eq_none_of_not_start marked)
  | true =>
    have inside := built.lt_size_of_start marked
    simp only [decodeAt, fetched, Bool.or_eq_true, decide_eq_true_eq] at ends
    rcases ends with terminates | beyond
    · obtain ⟨start, -, byte, atPc, known⟩ := Program.fetch?_eq_some fetched
      rw [place] at marked
      rw [place, built.isBlockStart_following start atPc, marked, isTerminatorByte_of_ofByte? known]
      exact .inl terminates
    · omega

end Walk

/-! Places the simulation decodes, as its cycles and the whole run get to them. -/

namespace State

/-- Whether one more instruction is decoded in this cycle. -/
def takesNext (p : Program) (table : CostTable) (s : State) : Bool :=
  !s.ended && decide (s.buffer.length < bufferSize) &&
    decide ((capped (table (decodeAt p s.pc).opcode)).decodeSlots ≤ s.decodeSlots)

/-- The state once the next instruction is decoded. -/
def decodeNext (p : Program) (table : CostTable) (s : State) : State :=
  s.accept (decodeAt p s.pc) (capped (table (decodeAt p s.pc).opcode))

theorem decodeCycle_succ (p : Program) (table : CostTable) (fuel : Nat) (s : State) :
    decodeCycle p table (fuel + 1) s =
      if s.takesNext p table then decodeCycle p table fuel (s.decodeNext p table) else s := by
  simp only [decodeCycle, decodeNext]
  by_cases closed : (s.ended || decide (bufferSize ≤ s.buffer.length)) = true
  · have refuses : s.takesNext p table = false := by grind [takesNext]
    simp [closed, refuses]
  by_cases wide : s.decodeSlots < (capped (table (decodeAt p s.pc).opcode)).decodeSlots
  · have refuses : s.takesNext p table = false := by grind [takesNext]
    simp [closed, wide, refuses]
  · have takes : s.takesNext p table = true := by grind [takesNext]
    simp [closed, wide, takes]

/-- Places `decodeCycle` decodes. -/
def decodedInCycle (p : Program) (table : CostTable) : (fuel : Nat) → State → List UInt32
  | 0, _ => []
  | fuel + 1, s =>
    if s.takesNext p table then s.pc :: decodedInCycle p table fuel (s.decodeNext p table) else []

/-- Places `simulate` decodes. -/
def decoded (p : Program) (table : CostTable) : (fuel : Nat) → State → List UInt32
  | 0, _ => []
  | fuel + 1, s =>
    decodedInCycle p table (p.code.size + 1) s ++
      if (s.cycle p table).isDone then [] else decoded p table fuel (s.cycle p table)

def rest (p : Program) (s : State) : List UInt32 := if s.ended then [] else blockPlaces p s.pc

theorem accept_frame (s : State) (d : Decoded) (r : Resource) :
    ∃ buffer nextId producers, s.accept d r = { s with
      pc := d.following, ended := d.last, decodeSlots := s.decodeSlots - r.decodeSlots
      buffer, nextId, producers } := by
  simp only [accept]
  split
  · simp only [rename]
    split
    · exact ⟨_, _, _, rfl⟩
    · exact ⟨_, _, _, rfl⟩
  · exact ⟨_, _, _, rfl⟩

@[simp] theorem dispatch_rest (p : Program) (s : State) : s.dispatch.rest p = s.rest p := rfl

@[simp] theorem advance_rest (p : Program) (s : State) : s.advance.rest p = s.rest p := rfl

@[simp] theorem retire_rest (p : Program) (s : State) : s.retire.rest p = s.rest p := rfl

variable {p : Program}

theorem rest_decodeNext (built : p.Built) (short : p.code.size < UInt32.size) (table : CostTable)
    (s : State) (goesOn : s.ended = false) :
    s.rest p = s.pc :: (s.decodeNext p table).rest p := by
  obtain ⟨buffer, nextId, producers, accepted⟩ :=
    s.accept_frame (decodeAt p s.pc) (capped (table (decodeAt p s.pc).opcode))
  rw [rest, rest, goesOn, decodeNext, accepted, if_neg Bool.false_ne_true, blockPlaces_eq built short]
  split <;> rfl

theorem decodedInCycle_append_rest (built : p.Built) (short : p.code.size < UInt32.size)
    (table : CostTable) (fuel : Nat) (s : State) :
    decodedInCycle p table fuel s ++ (decodeCycle p table fuel s).rest p = s.rest p := by
  induction fuel generalizing s with
  | zero => rfl
  | succ fuel ih =>
    rw [decodedInCycle, decodeCycle_succ]
    split
    · rename_i takes
      have goesOn : s.ended = false := by simp_all [takesNext]
      rw [List.cons_append, ih, ← rest_decodeNext built short table s goesOn]
    · rfl

/-- What a simulation has decoded and what is left make up the block. -/
theorem decoded_append_rest (built : p.Built) (short : p.code.size < UInt32.size)
    (table : CostTable) (fuel : Nat) (s : State) :
    decoded p table fuel s ++ (simulate p table fuel s).rest p = s.rest p := by
  induction fuel generalizing s with
  | zero => rfl
  | succ fuel ih =>
    have oneCycle := decodedInCycle_append_rest built short table (p.code.size + 1) s
    have cycled : (s.cycle p table).rest p = (decodeCycle p table (p.code.size + 1) s).rest p := by
      simp [cycle]
    simp only [decoded, simulate]
    split
    · rw [List.append_nil, cycled, oneCycle]
    · rw [List.append_assoc, ih, cycled, oneCycle]

end State

end ServiceVm.Pipeline
