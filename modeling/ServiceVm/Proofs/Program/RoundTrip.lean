import ServiceVm.Proofs.Program.Grammar

/-!
# Programs and their blobs

A blob stores the instruction starts of a program and not its block starts, and reading it derives
the tags anew. What is read is nevertheless the program that was written, because the tags of every
program follow from its code and its instruction starts.
-/
namespace ServiceVm.Program

open Codec

/-! Packed bits. -/

theorem testBit_foldr (f : Nat → Bool) (places : List Nat) (i : Nat) :
    (places.foldr (fun k rest => (f k).toNat + 2 * rest) 0).testBit i =
      (places[i]?.map f).getD false := by
  induction places generalizing i with
  | nil => simp
  | cons k places ih =>
    rw [List.foldr_cons]
    cases i with
    | zero => cases marked : f k <;> simp [Nat.testBit_zero, Nat.add_mod, marked]
    | succ i =>
      rw [Nat.testBit_succ, Nat.add_mul_div_left _ _ (by decide), Nat.div_eq_of_lt (f k).toNat_lt,
        Nat.zero_add, ih]
      simp

theorem testBit_packByte (f : Nat → Bool) {k : Nat} (inByte : k < 8) :
    (packByte f).toNat.testBit k = f k := by
  rw [packByte, UInt8.toNat_ofNat', Nat.testBit_mod_two_pow, testBit_foldr]
  simp [inByte]

theorem bit_packStarts (p : Program) {i : Nat} (inside : i < p.code.size) :
    bit p.packStarts i = p.isInstructionStart i := by
  have byte : i / 8 < (p.code.size + 7) / 8 := by omega
  have place : 8 * (i / 8) + i % 8 = i := Nat.div_add_mod i 8
  have packed : p.packStarts.getD (i / 8) 0 =
      packByte fun k => p.isInstructionStart (8 * (i / 8) + k) := by
    simp [packStarts, Array.getD, byte]
  rw [bit, packed, testBit_packByte _ (Nat.mod_lt _ (by decide)), place]

theorem Built.tagCode_packStarts {p : Program} (built : p.Built) :
    tagCode p.code (unpackStarts p.packStarts p.code.size) = p.tags := by
  obtain ⟨marks, length, tags⟩ := built.tags_eq
  have same : (unpackStarts p.packStarts p.code.size).toList = marks := by
    apply List.ext_getElem?
    intro i
    by_cases inside : i < p.code.size
    · rw [isInstructionStart_of_marks length tags inside, ← bit_packStarts p inside]
      simp [unpackStarts, inside]
    · have beyond : (unpackStarts p.packStarts p.code.size).toList.length ≤ i := by
        simp only [unpackStarts, Array.length_toList, Array.size_ofFn]
        omega
      rw [List.getElem?_eq_none beyond, List.getElem?_eq_none (by omega)]
  rw [tagCode_eq, same, tags]

def toParts (p : Program) : Parts where
  tableLength := encodeNatural p.entries.toUInt64
  width := p.width
  codeLength := encodeNatural (UInt64.ofNat p.code.size)
  table := p.jumpTable
  code := p.code
  marks := p.packStarts

/-- Reading gives back any program whose lengths can be written down. -/
theorem Built.ofBlob_toBlob {p : Program} (built : p.Built) (word : p.code.size < UInt64.size)
    (table : p.jumpTable.size = p.entries.toNat * p.width.toNat)
    (bound : p.entries.toNat * p.width.toNat < addressSpace) : Program.ofBlob p.toBlob = .ok p := by
  have length : (UInt64.ofNat p.code.size).toNat = p.code.size := UInt64.toNat_ofNat_of_lt' word
  have entries : p.entries.toUInt64.toNat = p.entries.toNat := UInt32.toNat_toUInt64 _
  have fits : p.toParts.Fits p.entries.toUInt64 (UInt64.ofNat p.code.size) :=
    { readEntries := decodeNatural_encodeNatural _
      readLength := decodeNatural_encodeNatural _
      bound := by rw [entries]; exact bound
      table := by rw [entries]; exact table
      code := length.symm
      marks := by rw [length]; simp [toParts, packStarts] }
  have same : p.toParts.program p.entries.toUInt64 = p := by
    have count : UInt32.ofNat p.entries.toUInt64.toNat = p.entries := by rw [entries, UInt32.ofNat_toNat]
    simp only [Parts.program, toParts, built.tagCode_packStarts, count]
  have read := fits.ofBlob
  rw [same] at read
  exact read

/-! The jump table of a program that is built from its targets. -/

theorem size_foldl_append (parts : List Bytes) (start : Bytes) (size : Nat)
    (each : ∀ part ∈ parts, part.size = size) :
    (parts.foldl (· ++ ·) start).size = start.size + parts.length * size := by
  induction parts generalizing start with
  | nil => simp
  | cons part parts ih =>
    rw [List.foldl_cons, ih _ fun part member => each part (by simp [member]), Array.size_append,
      each part (by simp), List.length_cons, Nat.succ_mul]
    omega

theorem size_jumpTable_ofCode (code : Bytes) (starts : Array Bool) (targets : Array UInt32)
    (width : UInt8) :
    (ofCode code starts targets width).jumpTable.size = targets.size * width.toNat := by
  have table := size_foldl_append (targets.map (encodeTarget width)).toList #[] width.toNat (by
    intro part member
    rw [Array.toList_map] at member
    obtain ⟨target, -, rfl⟩ := List.mem_map.mp member
    exact Bytes.size_ofWord _ _)
  rw [Array.foldl_toList] at table
  simpa [ofCode, Bytes.concat] using table

theorem toNat_ofNat_mul {count width : Nat} (bound : count * width < addressSpace) :
    (UInt32.ofNat count).toNat * width = count * width := by
  rcases Nat.eq_zero_or_pos width with rfl | some
  · simp
  · have few : count < UInt32.size := Nat.lt_of_le_of_lt (Nat.le_mul_of_pos_right count some) bound
    rw [UInt32.toNat_ofNat_of_lt' few]

theorem Parts.Fits.ofBlob_toBlob {parts : Parts} {entries length : UInt64}
    (fits : parts.Fits entries length) :
    Program.ofBlob (parts.program entries).toBlob = .ok (parts.program entries) := by
  have count := toNat_ofNat_mul fits.bound
  refine Built.ofBlob_toBlob (.ofBlob fits.ofBlob) ?_ ?_ ?_
  · change parts.code.size < UInt64.size
    rw [fits.code]
    exact length.toNat_lt
  · exact fits.table.trans count.symm
  · exact Nat.lt_of_le_of_lt (Nat.le_of_eq count) fits.bound

/-- Reading a blob undoes writing it, for every program that is built from code, instruction starts
and fewer than `2 ^ 32` jump targets whose table fits the address space, and for every program that
was read from a blob, written the shortest way or not. -/
theorem ofBlob_undoes_toBlob :
    (∀ (code : Bytes) (starts : Array Bool) (targets : Array UInt32) (width : UInt8),
      code.size < UInt64.size → targets.size < UInt32.size →
      targets.size * width.toNat < addressSpace →
      ofBlob (ofCode code starts targets width).toBlob = .ok (ofCode code starts targets width)) ∧
    ∀ (blob : Bytes) (p : Program), ofBlob blob = .ok p → ofBlob p.toBlob = .ok p := by
  constructor
  · intro code starts targets width word few bound
    have count : (ofCode code starts targets width).entries.toNat = targets.size :=
      UInt32.toNat_ofNat_of_lt' few
    refine (Built.ofCode code starts targets width).ofBlob_toBlob word ?_ ?_
    · rw [size_jumpTable_ofCode, count]
      rfl
    · rw [count]
      exact bound
  · intro blob p accepted
    obtain ⟨parts, entries, length, fits, -, rfl⟩ := Parts.exists_fits accepted
    exact fits.ofBlob_toBlob

/-- A blob whose lengths and marks are not written the shortest way, and which counts more entries
than a program can: they take no room. -/
def looseBlob : Bytes := #[241, 2, 0, 0, 0] ++ #[0] ++ #[128, 3] ++ #[1, 51, 0] ++ #[251]

/-- A program whose jump targets are written with nine bytes each. -/
def wideTable : Program := ofCode #[1, 51, 0] #[true, true, false] #[7, 300] 9

theorem looseBlob_round_trip :
    (∃ p, ofBlob looseBlob = .ok p ∧ p.entries = 2 ∧ p.toBlob = #[2, 0, 3, 1, 51, 0, 3] ∧
      ofBlob #[2, 0, 3, 1, 51, 0, 3] = .ok p) ∧
    wideTable.jumpTable.size = 18 ∧ ofBlob wideTable.toBlob = .ok wideTable := by
  have accepted : ofBlob looseBlob =
      .ok (ofCode #[1, 51, 0] #[true, true, false] #[0, 0] 0) := by decide +kernel
  have written : (ofCode #[1, 51, 0] #[true, true, false] #[0, 0] 0).toBlob =
      #[2, 0, 3, 1, 51, 0, 3] := by decide +kernel
  have again := ofBlob_undoes_toBlob.2 looseBlob _ accepted
  rw [written] at again
  exact ⟨⟨_, accepted, rfl, written, again⟩, size_jumpTable_ofCode _ _ _ _,
    ofBlob_undoes_toBlob.1 _ _ _ _ (by decide) (by decide) (by decide)⟩

end ServiceVm.Program
