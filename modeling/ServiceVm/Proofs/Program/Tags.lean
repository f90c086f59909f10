import Mathlib.Data.List.Induction
import ServiceVm.Program.Blob

/-!
# Tags of programs

Block starts are derived from the code and the instruction starts. `isBlockStart_iff` says which
places they are, and the lemmas after it say where an instruction ends.
-/
namespace ServiceVm

/-- Programs as callers get them: from a code string, or from a blob. -/
inductive Program.Built : Program → Prop where
  | ofCode (code : Bytes) (starts : Array Bool) (targets : Array UInt32) (width : UInt8) :
      Built (Program.ofCode code starts targets width)
  | ofBlob {blob : Bytes} {p : Program} : Program.ofBlob blob = .ok p → Built p

/-! Code bytes in order, each with its instruction mark, and the tags they get. -/

def Tagging.ofList (entries : List (UInt8 × Bool)) : Tagging :=
  entries.foldl (fun t entry => t.push entry.1 entry.2) ⟨#[], false⟩

def lastTerminates (entries : List (UInt8 × Bool)) : Bool :=
  ((entries.filter (·.2)).getLast?).any fun entry => isTerminatorByte entry.1

theorem Tagging.ofList_append (entries : List (UInt8 × Bool)) (entry : UInt8 × Bool) :
    Tagging.ofList (entries ++ [entry]) = (Tagging.ofList entries).push entry.1 entry.2 := by
  simp [Tagging.ofList]

theorem Tagging.ofList_afterTerminator (entries : List (UInt8 × Bool)) :
    (Tagging.ofList entries).afterTerminator = lastTerminates entries := by
  induction entries using List.reverseRecOn with
  | nil => rfl
  | append_singleton entries entry ih =>
    rw [Tagging.ofList_append]
    by_cases marked : entry.2
    · simp [Tagging.push, lastTerminates, List.filter_append, marked]
    · simpa [Tagging.push, lastTerminates, List.filter_append, marked] using ih

theorem Tagging.ofList_size (entries : List (UInt8 × Bool)) :
    (Tagging.ofList entries).tags.size = entries.length := by
  induction entries using List.reverseRecOn with
  | nil => rfl
  | append_singleton entries entry ih =>
    rw [Tagging.ofList_append]
    simp [Tagging.push, ih]

/-- The tag of a byte depends on the bytes before it only through their last marked one. -/
theorem Tagging.ofList_tags (entries : List (UInt8 × Bool)) (i : Nat) :
    (Tagging.ofList entries).tags[i]? = entries[i]?.map fun entry =>
      ⟨entry.2, i == 0 || (entry.2 && lastTerminates (entries.take i))⟩ := by
  induction entries using List.reverseRecOn with
  | nil => simp [Tagging.ofList]
  | append_singleton entries entry ih =>
    rw [Tagging.ofList_append]
    have size := Tagging.ofList_size entries
    simp only [Tagging.push, Array.getElem?_push, Tagging.ofList_afterTerminator]
    by_cases last : i = entries.length
    · subst i
      have empty : (Tagging.ofList entries).tags.isEmpty = (entries.length == 0) := by
        rw [Array.isEmpty, size]
        rfl
      rw [if_pos size.symm, empty]
      simp
    · rw [if_neg (by omega), ih]
      by_cases inside : i < entries.length
      · rw [List.getElem?_append_left inside, List.take_append_of_le_length (Nat.le_of_lt inside)]
      · have beyond : (entries ++ [entry]).length ≤ i := by simp; omega
        rw [List.getElem?_eq_none (by omega), List.getElem?_eq_none beyond]
        rfl

def LastMarked (entries : List (UInt8 × Bool)) (j : Nat) (byte : UInt8) : Prop :=
  entries[j]? = some (byte, true) ∧
    ∀ (k : Nat) (entry : UInt8 × Bool), j < k → entries[k]? = some entry → entry.2 = false

theorem lastMarked_append_marked {entries : List (UInt8 × Bool)} {byte other : UInt8} {j : Nat} :
    LastMarked (entries ++ [(byte, true)]) j other ↔ j = entries.length ∧ other = byte := by
  constructor
  · rintro ⟨found, unmarked⟩
    have bound : j < (entries ++ [(byte, true)]).length := (List.getElem?_eq_some_iff.mp found).1
    have last : j = entries.length := by
      by_contra different
      have before : j < entries.length := by simp at bound; omega
      have := unmarked entries.length (byte, true) before (by simp)
      contradiction
    subst last
    have same : byte = other := by simpa using found
    exact ⟨rfl, same.symm⟩
  · rintro ⟨rfl, rfl⟩
    refine ⟨by simp, ?_⟩
    intro k entry after found
    rw [List.getElem?_eq_none (by simp; omega)] at found
    contradiction

theorem lastMarked_append_unmarked {entries : List (UInt8 × Bool)} {byte other : UInt8} {j : Nat} :
    LastMarked (entries ++ [(byte, false)]) j other ↔ LastMarked entries j other := by
  constructor
  · rintro ⟨found, unmarked⟩
    have before : j < entries.length := by
      by_contra beyond
      rw [List.getElem?_append_right (by omega), List.getElem?_singleton] at found
      split at found <;> simp at found
    rw [List.getElem?_append_left before] at found
    refine ⟨found, ?_⟩
    intro k entry after at_k
    have bound := (List.getElem?_eq_some_iff.mp at_k).1
    exact unmarked k entry after (by rw [List.getElem?_append_left bound]; exact at_k)
  · rintro ⟨found, unmarked⟩
    have bound := (List.getElem?_eq_some_iff.mp found).1
    refine ⟨by rw [List.getElem?_append_left bound]; exact found, ?_⟩
    intro k entry after at_k
    by_cases inside : k < entries.length
    · rw [List.getElem?_append_left inside] at at_k
      exact unmarked k entry after at_k
    · rw [List.getElem?_append_right (by omega), List.getElem?_singleton] at at_k
      split at at_k
      · cases at_k; rfl
      · contradiction

theorem lastTerminates_iff (entries : List (UInt8 × Bool)) :
    lastTerminates entries = true ↔ ∃ j byte, LastMarked entries j byte ∧ isTerminatorByte byte = true := by
  induction entries using List.reverseRecOn with
  | nil => simp [lastTerminates, LastMarked]
  | append_singleton entries entry ih =>
    obtain ⟨byte, marked⟩ := entry
    cases marked with
    | true => simp [lastTerminates, List.filter_append, lastMarked_append_marked]
    | false =>
      have same : lastTerminates (entries ++ [(byte, false)]) = lastTerminates entries := by
        simp [lastTerminates, List.filter_append]
      rw [same, ih]
      simp only [lastMarked_append_unmarked]

namespace Program

open Codec

/-- What a blob that is accepted looks like, and the program it holds. -/
theorem ofBlob_ok {blob : Bytes} {p : Program} (accepted : ofBlob blob = .ok p) :
    ∃ entries width codeLength, decodeNatural blob = some entries ∧
      blob[entries.consumed]? = some width ∧
      decodeNatural (blob.extract (entries.consumed + 1) (entries.consumed + 1 + 9)) =
        some codeLength ∧
      entries.value.toNat * width.toNat < addressSpace ∧
      let tableAt := entries.consumed + 1 + codeLength.consumed
      let codeAt := tableAt + entries.value.toNat * width.toNat
      let marksAt := codeAt + codeLength.value.toNat
      marksAt + (codeLength.value.toNat + 7) / 8 = blob.size ∧
      p = {
        code := blob.extract codeAt marksAt
        tags := tagCode (blob.extract codeAt marksAt)
          (Array.ofFn (n := (blob.extract codeAt marksAt).size) fun i => bit (blob.drop marksAt) i)
        jumpTable := blob.extract tableAt codeAt
        entries := UInt32.ofNat entries.value.toNat
        width } := by
  unfold ofBlob at accepted
  split at accepted
  case h_2 => cases accepted
  rename_i entries entriesEq
  split at accepted
  case h_2 => cases accepted
  rename_i width widthEq
  dsimp only at accepted
  split at accepted
  case h_2 => cases accepted
  rename_i codeLength codeLengthEq
  split at accepted
  · cases accepted
  split at accepted
  · cases accepted
  split at accepted
  · cases accepted
  split at accepted
  · cases accepted
  refine ⟨entries, width, codeLength, entriesEq, widthEq, codeLengthEq, by omega, by omega, ?_⟩
  exact (Except.ok.inj accepted).symm

theorem tagCode_eq (code : Bytes) (starts : Array Bool) :
    tagCode code starts = (Tagging.ofList (code.toList.zip starts.toList)).tags := by
  rw [tagCode, Tagging.ofList, ← Array.foldl_toList, Array.toList_zip]

/-- Code bytes with their marks, from which the tags are derived. -/
structure Marks (p : Program) (entries : List (UInt8 × Bool)) : Prop where
  length : entries.length = p.code.size
  tags : ∀ k : Nat, p.tags[k]? = entries[k]?.map fun entry =>
    Tag.mk entry.2 (k == 0 || (entry.2 && lastTerminates (entries.take k)))
  code : ∀ (k : Nat) (byte : UInt8) (marked : Bool), entries[k]? = some (byte, marked) →
    p.code[k]? = some byte

namespace Marks

variable {p : Program} {entries : List (UInt8 × Bool)}

theorem start_iff (marks : p.Marks entries) (k : Nat) :
    p.isInstructionStart k = true ↔ ∃ byte, entries[k]? = some (byte, true) := by
  rw [isInstructionStart, marks.tags]
  cases entries[k]? with
  | none => simp
  | some entry => simp [Prod.ext_iff]

theorem lastMarked_take_iff (marks : p.Marks entries) {i j : Nat} {byte : UInt8} :
    LastMarked (entries.take i) j byte ↔ j < i ∧ p.isInstructionStart j = true ∧
      p.code[j]? = some byte ∧ ∀ k, j < k → k < i → p.isInstructionStart k = false := by
  constructor
  · rintro ⟨at_j, unmarked⟩
    have before : j < i := by
      have := (List.getElem?_eq_some_iff.mp at_j).1
      simp at this
      omega
    rw [List.getElem?_take_of_lt before] at at_j
    refine ⟨before, (marks.start_iff j).mpr ⟨byte, at_j⟩, marks.code j byte true at_j, ?_⟩
    intro k after k_before
    by_contra marked
    obtain ⟨other, at_k⟩ := (marks.start_iff k).mp (by simpa using marked)
    have := unmarked k (other, true) after (by rw [List.getElem?_take_of_lt k_before]; exact at_k)
    contradiction
  · rintro ⟨before, start_j, byte_j, unmarked⟩
    obtain ⟨other, at_j⟩ := (marks.start_iff j).mp start_j
    obtain rfl : byte = other := by
      rw [marks.code j other true at_j] at byte_j
      exact (Option.some.inj byte_j).symm
    refine ⟨by rw [List.getElem?_take_of_lt before]; exact at_j, ?_⟩
    intro k entry after at_k
    have k_before : k < i := by
      have := (List.getElem?_eq_some_iff.mp at_k).1
      simp at this
      omega
    rw [List.getElem?_take_of_lt k_before] at at_k
    by_contra marked
    have start_k : p.isInstructionStart k = true := (marks.start_iff k).mpr ⟨entry.1, by
      rw [at_k]; simp at marked; simp [Prod.ext_iff, marked]⟩
    simp [unmarked k after k_before] at start_k

end Marks

namespace Built

variable {p : Program}

theorem tags_eq (built : p.Built) :
    ∃ marks : List Bool, marks.length = p.code.size ∧
      p.tags = (Tagging.ofList (p.code.toList.zip marks)).tags := by
  cases built with
  | ofCode code starts targets width =>
    exact ⟨(Array.ofFn (n := code.size) fun i => starts.getD i false).toList, by simp [Program.ofCode],
      tagCode_eq _ _⟩
  | ofBlob accepted =>
    obtain ⟨entries, width, codeLength, -, -, -, -, -, rfl⟩ := ofBlob_ok accepted
    exact ⟨_, by simp, tagCode_eq _ _⟩

theorem size_tags (built : p.Built) : p.tags.size = p.code.size := by
  obtain ⟨marks, length, tags⟩ := built.tags_eq
  simp [tags, Tagging.ofList_size, length]

theorem lt_size_of_start (built : p.Built) {i : Nat} (start : p.isInstructionStart i = true) :
    i < p.code.size := by
  by_contra beyond
  have size := built.size_tags
  simp [isInstructionStart, Array.getElem?_eq_none (show p.tags.size ≤ i by omega)] at start

theorem exists_marks (built : p.Built) : ∃ entries, p.Marks entries := by
  obtain ⟨marks, length, tags⟩ := built.tags_eq
  refine ⟨p.code.toList.zip marks, by simp [length], ?_, ?_⟩
  · intro k
    rw [tags, Tagging.ofList_tags]
  · intro k byte marked at_k
    simpa using (List.getElem?_zip_eq_some.mp at_k).1

/-- Blocks start at the first byte, and at instruction starts whose nearest one before holds a
terminator. -/
theorem isBlockStart_iff (built : p.Built) (i : Nat) :
    p.isBlockStart i = true ↔ i < p.code.size ∧ (i = 0 ∨ p.isInstructionStart i = true ∧
      ∃ j byte, j < i ∧ p.isInstructionStart j = true ∧ p.code[j]? = some byte ∧
        isTerminatorByte byte = true ∧ ∀ k, j < k → k < i → p.isInstructionStart k = false) := by
  obtain ⟨entries, marks⟩ := built.exists_marks
  have count := marks.length
  by_cases inside : i < p.code.size
  · have here : entries[i]? = some entries[i] := List.getElem?_eq_getElem (by omega)
    have block : p.isBlockStart i = (i == 0 || (entries[i].2 && lastTerminates (entries.take i))) := by
      simp only [isBlockStart, marks.tags, here, Option.map_some]
    rw [block]
    simp only [inside, true_and, Bool.or_eq_true, beq_iff_eq, Bool.and_eq_true]
    refine or_congr Iff.rfl (and_congr ?_ ?_)
    · rw [marks.start_iff, here]
      simp [Prod.ext_iff]
    · rw [lastTerminates_iff]
      simp only [marks.lastMarked_take_iff]
      grind
  · have outside : p.tags[i]? = none := by rw [Array.getElem?_eq_none (by rw [built.size_tags]; omega)]
    simp [isBlockStart, outside, inside]

end Built

/-! Where an instruction ends. -/

theorem endsBefore_of_lt (p : Program) (limit i j : Nat) (low : i ≤ j)
    (high : j < i + p.operandsFrom limit i) : p.endsBefore j = false := by
  induction limit generalizing i with
  | zero =>
    rw [operandsFrom] at high
    omega
  | succ limit ih =>
    rw [operandsFrom] at high
    split at high
    · omega
    · rename_i goesOn
      by_cases first : i = j
      · subst first
        simpa using goesOn
      · exact ih (i + 1) (by omega) (by omega)

theorem not_start_of_lt_skip (p : Program) {pc k : Nat} (after : pc < k)
    (before : k < pc + 1 + p.skip pc) : p.isInstructionStart k = false := by
  have inside := p.endsBefore_of_lt maxSkip (pc + 1) k after before
  rw [endsBefore] at inside
  rw [isInstructionStart]
  cases found : p.tags[k]? with
  | none => rfl
  | some tag => simpa [found] using inside

theorem add_skip_le (p : Program) {pc : Nat} (inside : pc < p.tags.size) :
    pc + 1 + p.skip pc ≤ p.tags.size := by
  by_contra beyond
  have stop := p.endsBefore_of_lt maxSkip (pc + 1) p.tags.size (by omega) (by
    change _ < pc + 1 + p.skip pc
    omega)
  simp [endsBefore] at stop

/-- After an instruction, a block starts exactly where the next instruction is marked and the one
before it is a terminator. A gap longer than the operands of an instruction starts no block. -/
theorem Built.isBlockStart_following {p : Program} (built : p.Built) {pc : Nat} {byte : UInt8}
    (start : p.isInstructionStart pc = true) (atPc : p.code[pc]? = some byte) :
    p.isBlockStart (pc + 1 + p.skip pc) =
      (p.isInstructionStart (pc + 1 + p.skip pc) && isTerminatorByte byte) := by
  rw [Bool.eq_iff_iff, built.isBlockStart_iff, Bool.and_eq_true]
  constructor
  · rintro ⟨-, first | ⟨next, j, other, before, start_j, at_j, terminates, unmarked⟩⟩
    · omega
    have nearest : j = pc := by
      by_contra different
      by_cases lower : j < pc
      · simp [unmarked pc lower (by omega)] at start
      · simp [p.not_start_of_lt_skip (by omega) before] at start_j
    subst nearest
    rw [atPc] at at_j
    cases at_j
    exact ⟨next, terminates⟩
  · rintro ⟨next, terminates⟩
    refine ⟨built.lt_size_of_start next, Or.inr ⟨next, pc, byte, by omega, start, atPc, terminates, ?_⟩⟩
    intro k after before
    exact p.not_start_of_lt_skip after before

end Program

end ServiceVm
