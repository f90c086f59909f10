import ServiceVm.Proofs.Checked
import ServiceVm.Proofs.Codec.Natural
import ServiceVm.Proofs.Program.Tags

/-!
# The grammar of program blobs

A blob is accepted exactly when it can be cut into two numbers, a width, a jump table, a code string
and packed marks of the lengths that the numbers announce, and these parts are what the program
holds. No operation that reads a blob leaves its range.
-/
namespace ServiceVm.Program

open Codec

def unpackStarts (packed : Bytes) (count : Nat) : Array Bool :=
  Array.ofFn (n := count) fun i => bit packed i

/-- Reads what follows the two lengths of a blob. -/
def ofBody (blob : Bytes) (entries : UInt64) (width : UInt8) (length : UInt64) (tableAt : Nat) :
    Except ProgramError Program :=
  let codeAt := tableAt + entries.toNat * width.toNat
  let marksAt := codeAt + length.toNat
  if addressSpace ≤ entries.toNat * width.toNat then .error (.jumpTableTooLarge entries width)
  else if blob.size < codeAt then .error (.truncated .jumpTable)
  else if blob.size < marksAt then .error (.truncated .code)
  else if blob.size - marksAt ≠ (length.toNat + 7) / 8 then
    .error (.bitmaskLength ((length.toNat + 7) / 8) (blob.size - marksAt))
  else
    let code := blob.extract codeAt marksAt
    .ok {
      code
      tags := tagCode code (unpackStarts (blob.drop marksAt) code.size)
      jumpTable := blob.extract tableAt codeAt
      entries := UInt32.ofNat entries.toNat
      width }

theorem ofBlob_eq (blob : Bytes) : ofBlob blob =
    match decodeNatural blob with
    | none => .error (.truncated .jumpTableLength)
    | some entries =>
      match blob[entries.consumed]? with
      | none => .error (.truncated .jumpTableWidth)
      | some width =>
        match decodeNatural (blob.extract (entries.consumed + 1) (entries.consumed + 1 + 9)) with
        | none => .error (.truncated .codeLength)
        | some length =>
          ofBody blob entries.value width length.value (entries.consumed + 1 + length.consumed) := by
  unfold ofBlob
  cases decodeNatural blob with
  | none => rfl
  | some entries =>
    dsimp only
    cases blob[entries.consumed]? with
    | none => rfl
    | some width =>
      dsimp only
      cases decodeNatural (blob.extract (entries.consumed + 1) (entries.consumed + 1 + 9)) with
      | none => rfl
      | some length => rfl

/-- A blob cut into its parts. -/
structure Parts where
  tableLength : Bytes
  width : UInt8
  codeLength : Bytes
  table : Bytes
  code : Bytes
  marks : Bytes

namespace Parts

def toBytes (parts : Parts) : Bytes :=
  parts.tableLength ++ #[parts.width] ++ parts.codeLength ++ parts.table ++ parts.code ++ parts.marks

/-- The two lengths are the given numbers, and the other parts are as long as they say. -/
structure Fits (parts : Parts) (entries length : UInt64) : Prop where
  readEntries : decodeNatural parts.tableLength = some ⟨entries, parts.tableLength.size⟩
  readLength : decodeNatural parts.codeLength = some ⟨length, parts.codeLength.size⟩
  bound : entries.toNat * parts.width.toNat < addressSpace
  table : parts.table.size = entries.toNat * parts.width.toNat
  code : parts.code.size = length.toNat
  marks : parts.marks.size = (length.toNat + 7) / 8

def program (parts : Parts) (entries : UInt64) : Program where
  code := parts.code
  tags := tagCode parts.code (unpackStarts parts.marks parts.code.size)
  jumpTable := parts.table
  entries := UInt32.ofNat entries.toNat
  width := parts.width

/-! Cutting byte strings and putting the pieces together. -/

theorem extract_middle {data a b c : Bytes} (split : data = a ++ b ++ c) {start stop : Nat}
    (starts : start = a.size) (stops : stop = a.size + b.size) : data.extract start stop = b := by
  subst split starts stops
  simp [Array.extract_append]

theorem extract_join {data : Bytes} {start middle stop : Nat} (first : start ≤ middle)
    (second : middle ≤ stop) :
    data.extract start middle ++ data.extract middle stop = data.extract start stop := by
  rw [Array.extract_append_extract, Nat.min_eq_left first, Nat.max_eq_right second]

theorem extract_one {data : Bytes} {i : Nat} {byte : UInt8} (found : data[i]? = some byte) :
    data.extract i (i + 1) = #[byte] := by
  obtain ⟨inside, rfl⟩ := Array.getElem?_eq_some_iff.mp found
  apply Array.ext
  · simp only [Array.size_extract, List.size_toArray, List.length_singleton]
    omega
  · intro k left right
    have first : k = 0 := by simpa using right
    simp [first]

variable {parts : Parts} {entries length : UInt64}

theorem size_toBytes (parts : Parts) : parts.toBytes.size = parts.tableLength.size + 1 +
    parts.codeLength.size + parts.table.size + parts.code.size + parts.marks.size := by
  simp [toBytes, Nat.add_assoc]

theorem Fits.ofBody (fits : parts.Fits entries length) :
    ofBody parts.toBytes entries parts.width length
      (parts.tableLength.size + 1 + parts.codeLength.size) = .ok (parts.program entries) := by
  have size := parts.size_toBytes
  have table : parts.toBytes.extract (parts.tableLength.size + 1 + parts.codeLength.size)
      (parts.tableLength.size + 1 + parts.codeLength.size + parts.table.size) = parts.table :=
    extract_middle (a := parts.tableLength ++ #[parts.width] ++ parts.codeLength)
      (c := parts.code ++ parts.marks) (by simp [toBytes]) (by simp) (by simp)
  have code : parts.toBytes.extract
      (parts.tableLength.size + 1 + parts.codeLength.size + parts.table.size)
      (parts.tableLength.size + 1 + parts.codeLength.size + parts.table.size + parts.code.size) =
        parts.code :=
    extract_middle (a := parts.tableLength ++ #[parts.width] ++ parts.codeLength ++ parts.table)
      (c := parts.marks) (by simp [toBytes]) (by simp [Nat.add_assoc]) (by simp [Nat.add_assoc])
  have marks : parts.toBytes.drop
      (parts.tableLength.size + 1 + parts.codeLength.size + parts.table.size + parts.code.size) =
        parts.marks :=
    extract_middle
      (a := parts.tableLength ++ #[parts.width] ++ parts.codeLength ++ parts.table ++ parts.code)
      (c := #[]) (by simp [toBytes]) (by simp [Nat.add_assoc]) (by simp [toBytes, Nat.add_assoc])
  have marksSize := fits.marks
  rw [← fits.code] at marksSize
  have bound := fits.bound
  rw [← fits.table] at bound
  rw [Program.ofBody]
  dsimp only
  rw [← fits.table, ← fits.code, if_neg (by omega), if_neg (by omega), if_neg (by omega),
    if_neg (by omega), table, code, marks]
  rfl

theorem Fits.ofBlob (fits : parts.Fits entries length) :
    ofBlob parts.toBytes = .ok (parts.program entries) := by
  have readEntries : decodeNatural parts.toBytes = some ⟨entries, parts.tableLength.size⟩ := by
    have := decodeNatural_append fits.readEntries
      (#[parts.width] ++ parts.codeLength ++ parts.table ++ parts.code ++ parts.marks)
    simpa [toBytes] using this
  have readWidth : parts.toBytes[parts.tableLength.size]? = some parts.width := by
    simp only [toBytes, Array.append_assoc]
    rw [Array.getElem?_append_right (Nat.le_refl _), Nat.sub_self, Array.getElem?_append_left (by simp)]
    rfl
  have few : parts.codeLength.size ≤ 9 := (consumed_le fits.readLength).2.1
  have codeLength : parts.toBytes.extract (parts.tableLength.size + 1)
      (parts.tableLength.size + 1 + parts.codeLength.size) = parts.codeLength :=
    extract_middle (a := parts.tableLength ++ #[parts.width])
      (c := parts.table ++ parts.code ++ parts.marks) (by simp [toBytes]) (by simp) (by simp)
  have readLength : decodeNatural (parts.toBytes.extract (parts.tableLength.size + 1)
      (parts.tableLength.size + 1 + 9)) = some ⟨length, parts.codeLength.size⟩ := by
    apply decodeNatural_congr fits.readLength
    dsimp only
    rw [Array.extract_extract, Nat.min_eq_left (Nat.add_le_add_left few _), Nat.add_zero, codeLength,
      Array.extract_size]
  rw [ofBlob_eq, readEntries]
  dsimp only
  rw [readWidth]
  dsimp only
  rw [readLength]
  exact fits.ofBody

/-- An accepted blob has parts that fit, and the program is the one they hold. -/
theorem exists_fits {blob : Bytes} {p : Program} (accepted : Program.ofBlob blob = .ok p) :
    ∃ parts entries length, Fits parts entries length ∧ blob = parts.toBytes ∧
      p = parts.program entries := by
  obtain ⟨entries, width, codeLength, readEntries, readWidth, readLength, bound, size, holds⟩ :=
    ofBlob_ok accepted
  generalize tableAt_eq : entries.consumed + 1 + codeLength.consumed = tableAt at size holds
  generalize codeAt_eq : tableAt + entries.value.toNat * width.toNat = codeAt at size holds
  generalize marksAt_eq : codeAt + codeLength.value.toNat = marksAt at size holds
  have few := consumed_le readEntries
  have inside : entries.consumed < blob.size := (Array.getElem?_eq_some_iff.mp readWidth).1
  refine ⟨⟨blob.extract 0 entries.consumed, width, blob.extract (entries.consumed + 1) tableAt,
    blob.extract tableAt codeAt, blob.extract codeAt marksAt, blob.drop marksAt⟩,
    entries.value, codeLength.value, ⟨?_, ?_, bound, ?_, ?_, ?_⟩, ?_, holds⟩
  · dsimp only
    rw [decodeNatural_extract readEntries (Nat.le_refl _), Array.size_extract, Nat.min_eq_left few.2.2]
    rfl
  · have nine := (consumed_le readLength).2.1
    have read := decodeNatural_extract readLength (Nat.le_refl _)
    rw [Array.extract_extract, Nat.add_zero, tableAt_eq, Nat.min_eq_left (by omega)] at read
    have taken : (blob.extract (entries.consumed + 1) tableAt).size = codeLength.consumed := by
      simp only [Array.size_extract]
      omega
    dsimp only
    rw [read, taken]
  · simp only [Array.size_extract]
    omega
  · simp only [Array.size_extract]
    omega
  · simp only [Bytes.drop, Array.size_extract]
    omega
  · simp only [toBytes, Bytes.drop, ← extract_one readWidth]
    rw [extract_join (by omega) (by omega), extract_join (by omega) (by omega),
      extract_join (by omega) (by omega), extract_join (by omega) (by omega),
      extract_join (by omega) (by omega), Array.extract_size]

end Parts

/-! Tags of a program that come from given marks. -/

theorem isInstructionStart_of_marks {p : Program} {marks : List Bool}
    (length : marks.length = p.code.size)
    (tags : p.tags = (Tagging.ofList (p.code.toList.zip marks)).tags) {i : Nat}
    (inside : i < p.code.size) :
    marks[i]? = some (p.isInstructionStart i) := by
  have marked : i < marks.length := by omega
  have entry : (p.code.toList.zip marks)[i]? = some (p.code[i], marks[i]) :=
    List.getElem?_zip_eq_some.mpr ⟨by simp [inside], List.getElem?_eq_getElem marked⟩
  simp only [isInstructionStart, tags, Tagging.ofList_tags, entry, Option.map_some]
  exact List.getElem?_eq_getElem marked

theorem Parts.isInstructionStart (parts : Parts) (entries : UInt64) {i : Nat}
    (inside : i < parts.code.size) :
    (parts.program entries).isInstructionStart i = bit parts.marks i := by
  have length : (unpackStarts parts.marks parts.code.size).toList.length =
      (parts.program entries).code.size := by simp [unpackStarts, program]
  have start := isInstructionStart_of_marks length (tagCode_eq _ _) inside
  simpa [unpackStarts, inside] using start.symm

end ServiceVm.Program

/-! Reading with operations that have a range. -/

namespace ServiceVm.Checked

open Codec hiding decodeNatural

def decodeNatural (data : Bytes) : Option (Option (Decoded UInt64)) :=
  match data[0]? with
  | none => some none
  | some lead => do
    let l := leadingOnes lead
    if data.size < l + 1 then return none
    let tail ← slice data 1 (l + 1)
    let high ← mul (lead.toNat % Nat.pow 2 (7 - l)) (Nat.pow 256 l)
    let value ← add high (LittleEndian.decode tail.toList)
    return some ⟨UInt64.ofNat value, l + 1⟩

/-- The first `count` bits of packed marks, each taken from a byte that is there. -/
def unpackStarts (packed : Bytes) (count : Nat) : Option (List Bool) :=
  (List.range count).mapM fun i => do
    let byte ← packed[i / 8]?
    return byte.toNat.testBit (i % 8)

/-- Reads what follows the two lengths of a blob. Lengths are compared as checked sums and products:
one that does not fit a word is refused like any other that is too large. -/
def ofBody (blob : Bytes) (entries : UInt64) (width : UInt8) (length : UInt64) (tableAt : Nat) :
    Option (Except ProgramError Program) := do
  let some tableSize := (mul entries.toNat width.toNat).filter (· < addressSpace)
    | return .error (.jumpTableTooLarge entries width)
  let some codeAt := (add tableAt tableSize).filter (· ≤ blob.size)
    | return .error (.truncated .jumpTable)
  let jumpTable ← slice blob tableAt codeAt
  let some marksAt := (add codeAt length.toNat).filter (· ≤ blob.size)
    | return .error (.truncated .code)
  let code ← slice blob codeAt marksAt
  let expected := (length.toNat + 7) / 8
  let actual ← sub blob.size marksAt
  if actual ≠ expected then
    return .error (.bitmaskLength expected actual)
  let marks ← slice blob marksAt blob.size
  let starts ← unpackStarts marks code.size
  return .ok {
    code
    tags := tagCode code starts.toArray
    jumpTable
    entries := UInt32.ofNat entries.toNat
    width }

def ofBlob (blob : Bytes) : Option (Except ProgramError Program) := do
  let some entries ← decodeNatural blob
    | return .error (.truncated .jumpTableLength)
  let some width := blob[entries.consumed]?
    | return .error (.truncated .jumpTableWidth)
  let lengthAt ← add entries.consumed 1
  let some length ← decodeNatural (← slice blob lengthAt blob.size)
    | return .error (.truncated .codeLength)
  let tableAt ← add lengthAt length.consumed
  ofBody blob entries.value width length.value tableAt

theorem decodeNatural_eq (data : Bytes) : decodeNatural data = some (Codec.decodeNatural data) := by
  rw [decodeNatural, Codec.decodeNatural]
  cases data[0]? with
  | none => rfl
  | some lead =>
    dsimp only
    by_cases short : data.size < leadingOnes lead + 1
    · rw [if_pos short, if_pos short]
      rfl
    have taken : (data.extract 1 (leadingOnes lead + 1)).toList.length = leadingOnes lead := by
      simp only [Array.length_toList, Array.size_extract]
      omega
    have fits := natural_lt lead (data.extract 1 (leadingOnes lead + 1)).toList
      (by rw [taken]; exact leadingOnes_le lead)
    rw [taken] at fits
    have high := Nat.lt_of_le_of_lt (Nat.le_add_right _ _) fits
    rw [if_neg short, if_neg short, slice_eq (by omega) (by omega)]
    simp only [Option.bind_eq_bind, Option.bind_some]
    rw [mul_eq high, Option.bind_some, add_eq fits]
    rfl

theorem unpackStarts_eq {marks : Bytes} {count : Nat} (enough : marks.size = (count + 7) / 8) :
    unpackStarts marks count = some (Program.unpackStarts marks count).toList := by
  have inside : ∀ i ∈ List.range count, (do
      let byte ← marks[i / 8]?
      return byte.toNat.testBit (i % 8)) = some (Program.bit marks i) := by
    intro i member
    have byte : i / 8 < marks.size := by
      have := List.mem_range.mp member
      omega
    simp [Program.bit, Array.getD, byte]
  rw [unpackStarts, mapM_eq_map inside]
  congr 1
  apply List.ext_getElem
  · simp [Program.unpackStarts]
  · intro i left right
    simp [Program.unpackStarts]

theorem ofBody_eq {blob : Bytes} (word : blob.size < UInt64.size) (entries : UInt64) (width : UInt8)
    (length : UInt64) (tableAt : Nat) :
    ofBody blob entries width length tableAt =
      some (Program.ofBody blob entries width length tableAt) := by
  rw [ofBody, Program.ofBody, filter_mul (by decide)]
  by_cases large : addressSpace ≤ entries.toNat * width.toNat
  · rw [if_pos large, if_pos large]
    rfl
  rw [if_neg large, if_neg large]
  dsimp only
  rw [filter_add word]
  by_cases noTable : blob.size < tableAt + entries.toNat * width.toNat
  · rw [if_pos noTable, if_pos noTable]
    rfl
  rw [if_neg noTable, if_neg noTable]
  dsimp only
  rw [slice_eq (Nat.le_add_right _ _) (Nat.le_of_not_lt noTable), filter_add word]
  by_cases noCode : blob.size < tableAt + entries.toNat * width.toNat + length.toNat
  · rw [if_pos noCode, if_pos noCode]
    rfl
  have fits := Nat.le_of_not_lt noCode
  rw [if_neg noCode, if_neg noCode]
  simp only [Option.bind_eq_bind, Option.bind_some]
  rw [slice_eq (Nat.le_add_right _ _) fits, sub_eq fits, Option.bind_some, Option.bind_some,
    slice_eq fits (Nat.le_refl _)]
  split
  · rfl
  · rename_i exactly
    rw [Option.bind_some, unpackStarts_eq]
    · rfl
    · simp only [Array.size_extract]
      omega

/-- A blob that fits memory is read without leaving the range of any operation. -/
theorem ofBlob_eq {blob : Bytes} (word : blob.size < UInt64.size) :
    ofBlob blob = some (Program.ofBlob blob) := by
  rw [ofBlob, Program.ofBlob_eq, decodeNatural_eq]
  cases readEntries : Codec.decodeNatural blob with
  | none => rfl
  | some entries =>
    simp only [Option.bind_eq_bind, Option.bind_some]
    cases readWidth : blob[entries.consumed]? with
    | none => rfl
    | some width =>
      have inside : entries.consumed < blob.size := (Array.getElem?_eq_some_iff.mp readWidth).1
      dsimp only
      rw [add_eq (by omega), Option.bind_some, slice_eq (by omega) (Nat.le_refl _), Option.bind_some,
        decodeNatural_eq, Option.bind_some, decodeNatural_slice]
      cases readLength : Codec.decodeNatural (blob.extract (entries.consumed + 1) blob.size) with
      | none => rfl
      | some length =>
        have taken := (consumed_le readLength).2.2
        simp only [Array.size_extract] at taken
        dsimp only
        rw [add_eq (by omega), Option.bind_some, ofBody_eq word]

end ServiceVm.Checked

namespace ServiceVm.Program

/-- Blobs are accepted exactly by their grammar: a blob is a program's iff it splits into two numbers,
a width and three strings of the announced lengths. The program then holds these strings; it has one
tag for each code byte, marks the instruction starts that the bits of the marks say, lowest bit first,
and starts blocks at the first byte and at instruction starts whose nearest one before holds a
terminator. Reading a blob performs no operation out of range. -/
theorem ofBlob_accepts_grammar (blob : Bytes) :
    ((∃ p, ofBlob blob = .ok p) ↔
      ∃ parts entries length, Parts.Fits parts entries length ∧ blob = parts.toBytes) ∧
    (∀ parts entries length, Parts.Fits parts entries length → blob = parts.toBytes →
      ∃ p, ofBlob blob = .ok p ∧ p.code = parts.code ∧ p.jumpTable = parts.table ∧
        p.width = parts.width ∧ p.entries = UInt32.ofNat entries.toNat ∧
        p.tags.size = parts.code.size ∧
        ∀ i < parts.code.size,
          p.tags[i]? = some ⟨p.isInstructionStart i, p.isBlockStart i⟩ ∧
          (∃ byte, parts.marks[i / 8]? = some byte ∧
            p.isInstructionStart i = byte.toNat.testBit (i % 8)) ∧
          (p.isBlockStart i = true ↔ i = 0 ∨ p.isInstructionStart i = true ∧
            ∃ j byte, j < i ∧ p.isInstructionStart j = true ∧ parts.code[j]? = some byte ∧
              isTerminatorByte byte = true ∧ ∀ k, j < k → k < i → p.isInstructionStart k = false)) ∧
    (blob.size < UInt64.size → Checked.ofBlob blob = some (ofBlob blob)) := by
  refine ⟨⟨?_, ?_⟩, ?_, Checked.ofBlob_eq⟩
  · rintro ⟨p, accepted⟩
    obtain ⟨parts, entries, length, fits, split, -⟩ := Parts.exists_fits accepted
    exact ⟨parts, entries, length, fits, split⟩
  · rintro ⟨parts, entries, length, fits, rfl⟩
    exact ⟨_, fits.ofBlob⟩
  · rintro parts entries length fits rfl
    have built : (parts.program entries).Built := .ofBlob fits.ofBlob
    refine ⟨parts.program entries, fits.ofBlob, rfl, rfl, rfl, rfl, built.size_tags, ?_⟩
    intro i inside
    have byte : i / 8 < parts.marks.size := by
      have := fits.marks
      rw [← fits.code] at this
      omega
    have tagged : i < (parts.program entries).tags.size := by rwa [built.size_tags]
    refine ⟨?_, ⟨parts.marks[i / 8], Array.getElem?_eq_getElem byte, ?_⟩, ?_⟩
    · simp [Program.isInstructionStart, isBlockStart, tagged]
    · rw [parts.isInstructionStart entries inside]
      simp [bit, Array.getD, byte]
    · exact (built.isBlockStart_iff i).trans (and_iff_right inside)

/-- A program of one `fallthrough` after the other, whose lengths and marks are not written the
shortest way. -/
def looseParts : Parts where
  tableLength := #[128, 1]
  width := 2
  codeLength := #[192, 9, 0]
  table := #[3, 0]
  code := #[1, 1, 1, 1, 1, 1, 1, 1, 1]
  marks := #[5, 255]

theorem looseParts_accepted : Parts.Fits looseParts 1 9 ∧
    ∃ p, ofBlob looseParts.toBytes = .ok p ∧ p.code = looseParts.code ∧ p.isBlockStart 8 = true := by
  have fits : Parts.Fits looseParts 1 9 := by constructor <;> decide +kernel
  obtain ⟨p, accepted, code, -, -, -, -, tags⟩ :=
    (ofBlob_accepts_grammar looseParts.toBytes).2.1 looseParts 1 9 fits rfl
  refine ⟨fits, p, accepted, code, ?_⟩
  have start (i : Nat) (inside : i < 9) : p.isInstructionStart i = bit looseParts.marks i := by
    obtain ⟨-, ⟨byte, found, start⟩, -⟩ := tags i inside
    rw [start, bit, Array.getD_eq_getD_getElem?, found, Option.getD_some]
  refine (tags 8 (by decide)).2.2.mpr (Or.inr ⟨?_, 2, 1, by decide, ?_, by decide, by decide, ?_⟩)
  · rw [start 8 (by decide)]
    decide
  · rw [start 2 (by decide)]
    decide
  · intro k after before
    rw [start k (by omega)]
    have unmarked : ∀ k < 8, 2 < k → bit looseParts.marks k = false := by decide
    exact unmarked k before after

end ServiceVm.Program
