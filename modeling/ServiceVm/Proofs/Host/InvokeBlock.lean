import Mathlib.Logic.ExistsUnique
import ServiceVm.Proofs.Host.Output

/-!
# Gas and registers in memory

A guest keeps the gas and the registers of a nested machine in a block of its own memory, fourteen
words of eight bytes each. Every such block stands for exactly one gas and one set of registers, and
bytes that are written are read back, whatever pages they lie on.
-/
namespace ServiceVm

/-! ## Rows of words -/

/-- Words as they stand in memory, least significant byte first. -/
def wordBytes (words : List UInt64) : List UInt8 :=
  words.flatMap fun word => LittleEndian.encode 8 word.toNat

/-- The word at place `i` of a row of words. -/
def wordAt (data : List UInt8) (i : Nat) : UInt64 :=
  UInt64.ofNat (LittleEndian.decode ((data.drop (8 * i)).take 8))

theorem wordBytes_cons (word : UInt64) (rest : List UInt64) :
    wordBytes (word :: rest) = LittleEndian.encode 8 word.toNat ++ wordBytes rest := List.flatMap_cons

theorem wordAt_succ (data : List UInt8) (i : Nat) : wordAt data (i + 1) = wordAt (data.drop 8) i := by
  rw [wordAt, wordAt, List.drop_drop, Nat.mul_succ, Nat.add_comm (8 * i)]

theorem wordAt_wordBytes (words : List UInt64) (i : Nat) (h : i < words.length) :
    wordAt (wordBytes words) i = words[i] := by
  induction words generalizing i with
  | nil => nomatch h
  | cons word rest ih =>
    rw [wordBytes_cons]
    cases i with
    | zero =>
      have first : LittleEndian.decode (LittleEndian.encode 8 word.toNat) = word.toNat := by
        rw [LittleEndian.decode_encode]
        exact Nat.mod_eq_of_lt word.toNat_lt
      rw [wordAt, Nat.mul_zero, List.drop_zero, List.take_append_of_le_length (by simp),
        List.take_of_length_le (by simp), first, UInt64.ofNat_toNat, List.getElem_cons_zero]
    | succ i =>
      rw [wordAt_succ, List.drop_left' (LittleEndian.length_encode 8 _), List.getElem_cons_succ]
      exact ih i (Nat.lt_of_succ_lt_succ h)

theorem wordBytes_wordAt (count : Nat) {data : List UInt8} (length : data.length = 8 * count) :
    wordBytes (List.ofFn fun i : Fin count => wordAt data i) = data := by
  induction count generalizing data with
  | zero => exact (List.eq_nil_of_length_eq_zero length).symm
  | succ count ih =>
    have eight : (data.take 8).length = 8 := by
      rw [List.length_take]
      omega
    have first : LittleEndian.encode 8 (wordAt data 0).toNat = data.take 8 := by
      have bound := LittleEndian.decode_lt (data.take 8)
      have back := LittleEndian.encode_decode (data.take 8)
      rw [eight] at bound back
      rw [wordAt, Nat.mul_zero, List.drop_zero, UInt64.toNat_ofNat', Nat.mod_eq_of_lt bound, back]
    have rest : wordBytes (List.ofFn fun i : Fin count => wordAt (data.drop 8) i) = data.drop 8 := by
      apply ih
      rw [List.length_drop]
      omega
    calc wordBytes (List.ofFn fun i : Fin (count + 1) => wordAt data i)
        = LittleEndian.encode 8 (wordAt data 0).toNat ++
            wordBytes (List.ofFn fun i : Fin count => wordAt (data.drop 8) i) := by
          rw [List.ofFn_succ, wordBytes_cons]
          simp only [Fin.val_zero, Fin.val_succ, wordAt_succ]
      _ = data := by rw [first, rest, List.take_append_drop]

/-! ## Blocks -/

namespace InvokeBlock

/-- The words of a block: the gas, and then the registers. -/
def words (b : InvokeBlock) : List UInt64 := b.gas :: b.registers.toList

theorem words_injective {b b' : InvokeBlock} (same : b.words = b'.words) : b = b' := by
  obtain ⟨gas, registers⟩ := List.cons.inj same
  cases b
  cases b'
  simp only [mk.injEq]
  exact ⟨gas, Vector.toList_inj.mp registers⟩

theorem toList_encode (b : InvokeBlock) : b.encode.toList = wordBytes b.words := by
  have appended : ∀ (values : List UInt64) (out : Bytes),
      (values.foldl (fun out value => out ++ Bytes.ofWord value 8) out).toList =
        out.toList ++ wordBytes values := by
    intro values
    induction values with
    | nil => simp [wordBytes]
    | cons value rest ih =>
      intro out
      rw [List.foldl_cons, ih, wordBytes_cons, Array.toList_append, List.append_assoc]
      rfl
  rw [encode, ← Vector.foldl_toList, appended, words, wordBytes_cons]
  rfl

theorem words_decode (data : Bytes) :
    (decode data).words = List.ofFn fun i : Fin 14 => wordAt data.toList i := by
  have word (i : Nat) : (data.drop (8 * i)).toWord = wordAt data.toList i := by
    have length : (data.toList.drop (8 * i)).length ≤ data.size - 8 * i := Nat.le_of_eq List.length_drop
    rw [Bytes.toWord, wordAt, Bytes.drop, Array.toList_extract, Array.toList_extract, List.extract_eq_take_drop,
      List.extract_eq_take_drop, List.drop_zero, Nat.sub_zero, List.take_of_length_le length]
  have first : data.toWord = wordAt data.toList 0 := by
    rw [Bytes.toWord, wordAt, Array.toList_extract, List.extract_eq_take_drop]
  rw [words, decode, List.ofFn_succ, Vector.toList_ofFn]
  simp only [word, first, Fin.val_zero, Fin.val_succ]

theorem decode_encode (b : InvokeBlock) : decode b.encode = b := by
  apply words_injective
  rw [words_decode, toList_encode]
  apply List.ext_getElem
  · simp [words]
  · intro i _ inside
    rw [List.getElem_ofFn]
    exact wordAt_wordBytes b.words i inside

theorem wordBytes_decode {data : Bytes} (size : data.size = InvokeBlock.size) :
    wordBytes (decode data).words = data.toList := by
  rw [words_decode]
  exact wordBytes_wordAt 14 size

end InvokeBlock

/-! ## Blocks in memory -/

namespace Memory

variable {m : Memory} {start : Nat} {block : InvokeBlock}

theorem bytesAt_write (m : Memory) {start : Nat} {data : Bytes}
    (inRange : data.size = 0 ∨ start + data.size ≤ addressSpace) :
    (m.write start data).bytesAt start data.size = data := by
  apply Array.ext
  · rw [bytesAt, Array.size_ofFn]
  · intro i _ inside
    simp only [bytesAt, Array.getElem_ofFn]
    rw [byte_write, if_pos (by omega), Nat.add_sub_cancel_left, Array.getD_eq_getD_getElem?,
      Array.getElem?_eq_getElem inside, Option.getD_some]

/-- The 112 bytes from `start` on are those of the gas, followed by those of the registers. -/
def HoldsBlock (m : Memory) (start : Nat) (block : InvokeBlock) : Prop :=
  (m.bytesAt start InvokeBlock.size).toList = wordBytes block.words

theorem holdsBlock_iff :
    m.HoldsBlock start block ↔ InvokeBlock.decode (m.bytesAt start InvokeBlock.size) = block := by
  constructor
  · intro holds
    rw [← InvokeBlock.decode_encode block]
    have bytes : m.bytesAt start InvokeBlock.size = block.encode :=
      Array.toList_inj.mp (holds.trans block.toList_encode.symm)
    rw [bytes]
  · rintro rfl
    exact (InvokeBlock.wordBytes_decode Array.size_ofFn).symm

theorem existsUnique_holdsBlock (m : Memory) (start : Nat) : ∃! block, m.HoldsBlock start block := by
  simp only [holdsBlock_iff]
  exact existsUnique_eq'

theorem HoldsBlock.write (inRange : start + InvokeBlock.size ≤ addressSpace) (block : InvokeBlock) :
    (m.write start block.encode).HoldsBlock start block := by
  rw [← block.size_encode] at inRange
  rw [HoldsBlock, ← InvokeBlock.toList_encode, ← block.size_encode, bytesAt_write m (.inr inRange)]

end Memory

end ServiceVm
