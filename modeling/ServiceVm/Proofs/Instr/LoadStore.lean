import ServiceVm.Proofs.Instr.Flow
import ServiceVm.Proofs.Memory.Pages

/-!
# Loads and stores

A load or store moves 1, 2, 4 or 8 bytes between a register and a range of memory. Whatever form its
address has, the range begins at the address modulo the address space, and it does not wrap. The move is
refused at the first page of the range without the right to do it. `Move` is what all these instructions
have in common, and `Move.effect_eq` says what they do.
-/
namespace ServiceVm

theorem LittleEndian.getElem?_encode (len n i : Nat) :
    (encode len n)[i]? = if i < len then some (UInt8.ofNat (n / Nat.pow 256 i)) else none := by
  induction len generalizing n i with
  | zero => simp [encode]
  | succ len ih =>
    cases i with
    | zero => simp [encode]
    | succ i =>
      have step : Nat.pow 256 (i + 1) = 256 * Nat.pow 256 i := Nat.pow_succ'
      simp only [encode, List.getElem?_cons_succ, ih, Nat.add_lt_add_iff_right, Nat.div_div_eq_div_mul, step]

theorem LittleEndian.pow_eq (len : Nat) : Nat.pow 256 len = Nat.pow 2 (8 * len) := (Nat.pow_mul 2 8 len).symm

theorem Bytes.getD_ofWord {value : UInt64} {len i : Nat} (inside : i < len) :
    (ofWord value len).getD i 0 = UInt8.ofNat (value.toNat / Nat.pow 256 i) := by
  rw [Array.getD_eq_getD_getElem?, ofWord, List.getElem?_toArray, LittleEndian.getElem?_encode, if_pos inside,
    Option.getD_some]

theorem LoadKind.bytes_le (kind : LoadKind) : kind.bytes ≤ 8 := by
  cases kind <;> decide

/-- The word that a load makes of a number: its low bytes, with the sign extended if the load is signed. -/
def LoadKind.value (kind : LoadKind) (n : Nat) : UInt64 :=
  if kind.isSigned then UInt64.ofInt (Int.bmod n (Nat.pow 2 (8 * kind.bytes)))
  else UInt64.ofNat (n % Nat.pow 2 (8 * kind.bytes))

theorem LoadKind.value_mod (kind : LoadKind) (n : Nat) : kind.value (n % Nat.pow 2 (8 * kind.bytes)) = kind.value n := by
  simp only [value, Nat.mod_mod, Int.natCast_emod, Int.emod_bmod]

theorem LoadKind.value_decode {kind : LoadKind} {data : Bytes} (size : data.size = kind.bytes) :
    (if kind.isSigned then Word.signExtend data.toWord kind.bytes else data.toWord) =
      kind.value (LittleEndian.decode data.toList) := by
  have few := kind.bytes_le
  have bound := LittleEndian.decode_lt data.toList
  have word : data.toWord.toNat = LittleEndian.decode data.toList := Bytes.toNat_toWord (by omega)
  rw [Array.length_toList, size, LittleEndian.pow_eq] at bound
  rw [value, Nat.mod_eq_of_lt bound, Word.signExtend, word, LittleEndian.pow_eq, ← word, UInt64.ofNat_toNat]
  rfl

namespace Memory

/-- What a memory has become once the low `len` bytes of `value` were stored at `start`: exactly these
bytes were set. -/
structure Stored (m : Memory) (start len value : Nat) (m' : Memory) : Prop where
  byte : ∀ a, m'.byte a =
    if start ≤ a ∧ a < start + len then UInt8.ofNat (value / Nat.pow 256 (a - start)) else m.byte a
  access : ∀ k, m'.access k = m.access k
  heapPointer : m'.heapPointer = m.heapPointer

theorem stored_write (m : Memory) {start len : Nat} (value : UInt64) (inRange : start + len ≤ addressSpace) :
    m.Stored start len value.toNat (m.write start (Bytes.ofWord value len)) where
  access := m.access_write start _
  heapPointer := m.heapPointer_write start _
  byte a := by
    rw [byte_write, Bytes.size_ofWord, Nat.min_eq_left inRange]
    by_cases inside : start ≤ a ∧ a < start + len
    · rw [if_pos inside, if_pos inside, Bytes.getD_ofWord (by omega)]
    · rw [if_neg inside, if_neg inside]

theorem size_bytesAt (m : Memory) (start len : Nat) : (m.bytesAt start len).size = len := Array.size_ofFn

theorem Stored.decode_bytesAt {m m' : Memory} {start len value : Nat} (stored : m.Stored start len value m') :
    LittleEndian.decode (m'.bytesAt start len).toList = value % Nat.pow 2 (8 * len) := by
  have same : (m'.bytesAt start len).toList = LittleEndian.encode len value := by
    apply List.ext_getElem?
    intro i
    rw [LittleEndian.getElem?_encode, Array.getElem?_toList, bytesAt, Array.getElem?_ofFn]
    by_cases inside : i < len
    · rw [dif_pos inside, if_pos inside, stored.byte, if_pos (by omega), Nat.add_sub_cancel_left]
    · rw [dif_neg inside, if_neg inside]
  rw [same, LittleEndian.decode_encode, LittleEndian.pow_eq]

/-- Exit of an access that is refused at `b`: a panic in the first zone, a page fault elsewhere. -/
def refusalExit (b : Nat) : Exit := if b < zoneSize then .panic else .pageFault (UInt32.ofNat b)

theorem faultExit_eq {page : UInt32} (start : pageSize ∣ page.toNat) :
    faultExit page = refusalExit page.toNat := by
  rw [faultExit, refusalExit, Nat.div_mul_cancel start]

end Memory

/-! ## What instructions move -/

/-- What an instruction moves between a register and memory. Addresses are not yet reduced modulo the
address space. -/
inductive Move where
  | load (kind : LoadKind) (into : Reg) (address : Nat)
  | store (width : Width) (address : Nat) (value : UInt64)

/-- The move of an instruction that loads or stores: from an immediate address, or from the sum of a
register and an immediate. Values to be stored are registers or immediates. -/
def Instr.move? (instr : Instr) (regs : Registers) : Option Move :=
  match instr with
  | .load kind a x => some (.load kind a x.toNat)
  | .loadInd kind a b x => some (.load kind a ((regs.get b).toNat + x.toNat))
  | .storeImm width x y => some (.store width x.toNat y)
  | .store width a x => some (.store width x.toNat (regs.get a))
  | .storeImmInd width a x y => some (.store width ((regs.get a).toNat + x.toNat) y)
  | .storeInd width a b x => some (.store width ((regs.get b).toNat + x.toNat) (regs.get a))
  | _ => none

namespace Move

def start : Move → Nat
  | .load _ _ address | .store _ address _ => address % addressSpace

def len : Move → Nat
  | .load kind _ _ => kind.bytes
  | .store width _ _ => width.bytes

/-- Rights that the pages of the range need. -/
def allowed : Move → Access → Bool
  | .load _ _ _ => Access.isReadable
  | .store _ _ _ => Access.isWriteable

/-- Whether the range lies in the address space and all pages it touches allow the move. -/
def Passes (move : Move) (m : Memory) : Prop :=
  move.start + move.len ≤ addressSpace ∧
    ∀ k, Touches move.start (move.start + move.len) k → move.allowed (m.access k) = true

theorem len_pos (move : Move) : 0 < move.len := by
  cases move with
  | load kind => cases kind <;> simp [len, LoadKind.bytes]
  | store width => cases width <;> simp [len, Width.bytes]

/-- What the instruction does, in terms of its address. -/
def effect (move : Move) (regs : Registers) (m : Memory) : Effect :=
  match move with
  | .load kind into address => Instr.execLoad kind into (UInt64.ofNat address) regs m
  | .store width address value => Instr.execStore width (UInt64.ofNat address) value regs m

/-- What the move does if it passes. -/
def done (move : Move) (regs : Registers) (m : Memory) : Effect :=
  match move with
  | .load kind into _ =>
    ⟨.continue, none,
      regs.put into (kind.value (LittleEndian.decode (m.bytesAt move.start move.len).toList)), m⟩
  | .store _ _ value => ⟨.continue, none, regs, m.write move.start (Bytes.ofWord value move.len)⟩

/-- Sums of words are reduced twice, which does not show. -/
theorem toNat_address (address : Nat) : (UInt64.ofNat address).toUInt32.toNat = address % addressSpace := by
  simp only [UInt64.toNat_toUInt32, UInt64.toNat_ofNat', addressSpace]
  omega

theorem effect_eq (move : Move) (regs : Registers) (m : Memory) :
    move.effect regs m =
      match m.refusal? move.allowed move.start move.len with
      | some page => ⟨Memory.faultExit page, none, regs, m⟩
      | none => move.done regs m := by
  cases move with
  | load kind into address =>
    simp only [effect, Instr.execLoad, Memory.load, Memory.read, toNat_address, start, len, allowed]
    cases m.refusal? Access.isReadable (address % addressSpace) kind.bytes with
    | some page => rfl
    | none =>
      simp only [done, LoadKind.value_decode (m.size_bytesAt (address % addressSpace) kind.bytes)]
      rfl
  | store width address value =>
    simp only [effect, Instr.execStore, Memory.store, toNat_address, Bytes.size_ofWord, start, len, allowed]
    cases m.refusal? Access.isWriteable (address % addressSpace) width.bytes with
    | some page => rfl
    | none => rfl

theorem passes_iff (move : Move) (m : Memory) :
    move.Passes m ↔ m.refusal? move.allowed move.start move.len = none := by
  have nonempty := move.len_pos
  rw [m.refusal?_eq_none, Passes, or_iff_right (by omega)]

theorem effect_of_passes {move : Move} {regs : Registers} {m : Memory} (passes : move.Passes m) :
    move.effect regs m = move.done regs m := by
  rw [effect_eq, (move.passes_iff m).mp passes]

theorem effect_of_refused {move : Move} {m : Memory} (regs : Registers) (refused : ¬move.Passes m) :
    ∃ b, m.RefusedAt move.allowed move.start move.len b ∧
      move.effect regs m = ⟨Memory.refusalExit b, none, regs, m⟩ := by
  rw [passes_iff] at refused
  obtain ⟨page, found⟩ := Option.ne_none_iff_exists'.mp refused
  have refusedAt := Memory.refusal?_eq_some found
  refine ⟨page.toNat, refusedAt, ?_⟩
  rw [effect_eq, found, ← Memory.faultExit_eq refusedAt.dvd]

theorem done_exit (move : Move) (regs : Registers) (m : Memory) :
    (move.done regs m).exit = .continue ∧ (move.done regs m).target = none := by
  cases move <;> exact ⟨rfl, rfl⟩

theorem passes_of_stored {kind : LoadKind} {into : Reg} {width : Width} {address other : Nat} {value : UInt64}
    {m m' : Memory} (stored : m.Stored (address % addressSpace) width.bytes value.toNat m')
    (passes : (store width address value).Passes m) (place : other % addressSpace = address % addressSpace)
    (same : kind.bytes = width.bytes) : (load kind into other).Passes m' := by
  simp only [Passes, start, len, allowed] at passes ⊢
  rw [place, same]
  refine ⟨passes.1, fun k touched => ?_⟩
  rw [stored.access, Access.isWriteable_eq_true.mp (passes.2 k touched)]
  rfl

end Move

namespace Instr

theorem exec_of_move? {p : Program} {instr : Instr} {regs : Registers} {m : Memory} {move : Move}
    (moves : instr.move? regs = some move) : instr.exec p regs m = move.effect regs m := by
  have sum (a b : UInt64) : UInt64.ofNat (a.toNat + b.toNat) = a + b := by simp
  cases instr with
  | load | loadInd | storeImm | store | storeImmInd | storeInd =>
    obtain rfl := Option.some.inj moves
    simp only [exec, Move.effect, UInt64.ofNat_toNat, sum]
  | _ => simp [move?] at moves

end Instr

/-! ## Steps -/

namespace Cpu

variable {p : Program} {c : Cpu} {f : Fetched} {move : Move}

theorem step_of_passes (fetched : p.fetch? c.pc = some f) (moves : f.instr.move? c.registers = some move)
    (passes : move.Passes c.memory) :
    c.step p = (.continue, ⟨followingPc c.pc f.skip, (move.done c.registers c.memory).registers,
      (move.done c.registers c.memory).memory⟩) := by
  obtain ⟨exit, target⟩ := move.done_exit c.registers c.memory
  simp [step, fetched, Instr.exec_of_move? moves, Move.effect_of_passes passes, exit, target]

theorem step_of_refused (fetched : p.fetch? c.pc = some f) (moves : f.instr.move? c.registers = some move)
    (refused : ¬move.Passes c.memory) :
    ∃ b, c.memory.RefusedAt move.allowed move.start move.len b ∧ c.step p = (Memory.refusalExit b, c) := by
  obtain ⟨b, refusedAt, effect⟩ := Move.effect_of_refused c.registers refused
  refine ⟨b, refusedAt, ?_⟩
  simp only [step, fetched, Instr.exec_of_move? moves, effect, Memory.refusalExit]
  split <;> rfl

theorem step_load {kind : LoadKind} {into : Reg} {address : Nat} (fetched : p.fetch? c.pc = some f)
    (moves : f.instr.move? c.registers = some (.load kind into address))
    (passes : (Move.load kind into address).Passes c.memory) :
    c.step p = (.continue, ⟨followingPc c.pc f.skip, c.registers.put into (kind.value
      (LittleEndian.decode (c.memory.bytesAt (address % addressSpace) kind.bytes).toList)), c.memory⟩) :=
  step_of_passes fetched moves passes

theorem step_store {width : Width} {address : Nat} {value : UInt64} (fetched : p.fetch? c.pc = some f)
    (moves : f.instr.move? c.registers = some (.store width address value))
    (passes : (Move.store width address value).Passes c.memory) :
    ∃ m', c.step p = (.continue, ⟨followingPc c.pc f.skip, c.registers, m'⟩) ∧
      c.memory.Stored (address % addressSpace) width.bytes value.toNat m' :=
  ⟨_, step_of_passes fetched moves passes, c.memory.stored_write value passes.1⟩

/-- Loads and stores in all their forms move exactly the range they name. They succeed if the range lies in
the address space and all pages it touches allow the move, and otherwise change nothing and stop at the
first page that does not. A load gets the number that its bytes hold, a store sets these bytes and no
others, and loading them from then on gives the value that was stored. -/
theorem step_moves_range (p : Program) (c : Cpu) (f : Fetched) (move : Move)
    (fetched : p.fetch? c.pc = some f) (moves : f.instr.move? c.registers = some move) :
    ((c.step p).1 = .continue ↔ move.Passes c.memory) ∧
    (¬move.Passes c.memory → ∃ b, c.memory.RefusedAt move.allowed move.start move.len b ∧
      c.step p = (if b < zoneSize then .panic else .pageFault (UInt32.ofNat b), c)) ∧
    (∀ kind into address, move = .load kind into address → move.Passes c.memory →
      c.step p = (.continue, ⟨followingPc c.pc f.skip, c.registers.put into (kind.value
        (LittleEndian.decode (c.memory.bytesAt move.start move.len).toList)), c.memory⟩)) ∧
    ∀ width address value, move = .store width address value → move.Passes c.memory →
      ∃ m', c.step p = (.continue, ⟨followingPc c.pc f.skip, c.registers, m'⟩) ∧
        c.memory.Stored move.start move.len value.toNat m' ∧
        ∀ (q : Program) (d : Cpu) (g : Fetched) (kind : LoadKind) (into : Reg) (other : Nat),
          d.memory = m' → q.fetch? d.pc = some g →
          g.instr.move? d.registers = some (.load kind into other) →
          other % addressSpace = move.start → kind.bytes = width.bytes →
          d.step q = (.continue, ⟨followingPc d.pc g.skip, d.registers.put into (kind.value value.toNat), m'⟩) := by
  refine ⟨⟨fun continues => ?_, fun passes => ?_⟩, step_of_refused fetched moves, ?_, ?_⟩
  · by_contra refused
    obtain ⟨b, -, stops⟩ := step_of_refused fetched moves refused
    rw [stops, Memory.refusalExit] at continues
    split at continues <;> contradiction
  · rw [step_of_passes fetched moves passes]
  · rintro kind into address rfl passes
    exact step_load fetched moves passes
  · rintro width address value rfl passes
    obtain ⟨m', steps, stored⟩ := step_store fetched moves passes
    refine ⟨m', steps, stored, ?_⟩
    rintro q d g kind into other rfl fetched' moves' place same
    rw [step_load fetched' moves' (Move.passes_of_stored stored passes place same), place, same]
    rw [show (Move.store width address value).start = address % addressSpace from rfl,
      stored.decode_bytesAt, ← same, kind.value_mod]

end Cpu

/-- Stores two bytes of register 0 at the address in register 1, and loads them into register 2. -/
def storeAndLoad : Program := Program.ofCode #[121, 16, 127, 18] #[true, false, true, false] #[] 0

def straddlingRegisters : Registers := (Registers.zero.put Reg.r0 0x1ff80).put Reg.r1 0x20fff

def twoPages : Memory := Memory.empty.place 0x20000 0x22000 #[] .readWrite

theorem twoPages_passes (value : UInt64) : (Move.store .w16 0x20fff value).Passes twoPages := by
  refine ⟨by simp [Move.start, Move.len, Width.bytes, addressSpace], ?_⟩
  rintro k ⟨a, low, high, rfl⟩
  simp only [Move.start, Move.len, Width.bytes, addressSpace] at low high
  have mapped : Touches 0x20000 (min 0x22000 addressSpace) (pageOf a) :=
    ⟨a, by omega, by simp only [addressSpace]; omega, rfl⟩
  rw [twoPages, Memory.access_place, if_pos mapped]
  rfl

/-- Across the end of a page, the low bytes are stored and loaded again with their sign. -/
theorem storeAndLoad_moves_range :
    ∃ m', Cpu.step ⟨0, straddlingRegisters, twoPages⟩ storeAndLoad =
        (.continue, ⟨2, straddlingRegisters, m'⟩) ∧
      Cpu.step ⟨2, straddlingRegisters, m'⟩ storeAndLoad =
        (.continue, ⟨4, straddlingRegisters.put ⟨2, by decide⟩ 0xffffffffffffff80, m'⟩) := by
  obtain ⟨-, -, -, stores⟩ := Cpu.step_moves_range storeAndLoad ⟨0, straddlingRegisters, twoPages⟩
    ⟨.storeInd .w16 Reg.r0 Reg.r1 0, 1⟩ (.store .w16 0x20fff 0x1ff80) (by decide +kernel) rfl
  obtain ⟨m', steps, -, loads⟩ := stores _ _ _ rfl (twoPages_passes _)
  have signed : LoadKind.i16.value (0x1ff80 : UInt64).toNat = 0xffffffffffffff80 := by decide +kernel
  have fetched : storeAndLoad.fetch? 2 = some ⟨.loadInd .i16 ⟨2, by decide⟩ Reg.r1 0, 1⟩ := by decide +kernel
  have loaded := loads storeAndLoad ⟨2, straddlingRegisters, m'⟩ _ .i16 ⟨2, by decide⟩ 0x20fff rfl fetched rfl rfl rfl
  rw [signed] at loaded
  exact ⟨m', steps, loaded⟩

end ServiceVm
