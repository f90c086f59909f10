import ServiceVm.Program.Image
import ServiceVm.Proofs.Memory.Pages
import ServiceVm.Proofs.Program.Grammar
import ServiceVm.Proofs.Result

/-!
# Images and the memory they are loaded into

An image is its parts written one after the other, each length in a fixed number of bytes: reading one
gives the parts back and reads nothing else. Loading it maps four segments that have no address in
common, each with its content followed by zeros, and nothing outside of them.
-/
namespace ServiceVm

namespace Image

open Codec
open Program.Parts (extract_middle extract_join)

variable {image : Image} {data argument : Bytes}

/-! ## Reading -/

/-- The parts of an image are of sizes that their fields can hold. -/
structure Fits (image : Image) : Prop where
  readOnly : image.readOnly.size < Nat.pow 256 3
  readWrite : image.readWrite.size < Nat.pow 256 3
  heapPages : image.heapPages < Nat.pow 256 2
  stackSize : image.stackSize < Nat.pow 256 3
  blob : image.blob.size < Nat.pow 256 4

@[simp] theorem size_encodeFixed (value : UInt64) (len : Nat) : (encodeFixed value len).size = len :=
  Bytes.size_ofWord value len

theorem numberAt_ok {offset len number : Nat} {part : ProgramPart} (few : len ≤ 8) :
    numberAt data offset len part = .ok number ↔
      number < Nat.pow 256 len ∧ data.extract offset (offset + len) = encodeFixed (UInt64.ofNat number) len := by
  have room : (data.extract offset (offset + len)).size ≤ len := by
    rw [Array.size_extract]
    omega
  generalize bytes_eq : data.extract offset (offset + len) = bytes at room
  have word : Nat.pow 256 len ≤ UInt64.size := Nat.pow_le_pow_right (show 0 < 256 by decide) few
  simp only [numberAt, decodeFixed, bytes_eq]
  by_cases short : bytes.size < len
  · rw [if_pos short]
    refine ⟨nofun, ?_⟩
    rintro ⟨-, rfl⟩
    exact absurd (Bytes.size_ofWord _ _) (Nat.ne_of_lt short)
  · have size : bytes.size = len := by omega
    have all : bytes.extract 0 len = bytes := by rw [← size, Array.extract_size]
    simp only [if_neg short, all, Except.ok.injEq, Bytes.toNat_toWord (show bytes.size ≤ 8 by omega)]
    constructor
    · rintro rfl
      have bound := LittleEndian.decode_lt bytes.toList
      rw [Array.length_toList, size] at bound
      refine ⟨bound, ?_⟩
      rw [encodeFixed, Bytes.ofWord, UInt64.toNat_ofNat_of_lt' (Nat.lt_of_lt_of_le bound word), ← size,
        ← Array.length_toList, LittleEndian.encode_decode]
    · rintro ⟨bound, rfl⟩
      rw [encodeFixed, Bytes.ofWord, UInt64.toNat_ofNat_of_lt' (Nat.lt_of_lt_of_le bound word),
        LittleEndian.decode_encode, Nat.mod_eq_of_lt bound]

theorem bytesAt_ok {offset len : Nat} {part : ProgramPart} {bytes : Bytes} :
    bytesAt data offset len part = .ok bytes ↔
      offset + len ≤ data.size ∧ data.extract offset (offset + len) = bytes := by
  rw [bytesAt]
  split
  · rename_i short
    exact ⟨nofun, fun fits => absurd fits.1 (Nat.not_le.mpr short)⟩
  · rename_i enough
    simp [Nat.not_lt.mp enough]

theorem extract_piece {data a b c : Bytes} {start len : Nat} (split : data = a ++ b ++ c)
    (before : a.size = start) (size : b.size = len) : data.extract start (start + len) = b :=
  extract_middle split before.symm (by rw [before, size])

theorem eq_encode_of_decode (read : decode data = .ok image) : image.Fits ∧ data = image.encode := by
  simp only [decode, bind_ok, guard_ok, pure_ok, numberAt_ok (show 3 ≤ 8 by decide),
    numberAt_ok (show 2 ≤ 8 by decide), numberAt_ok (show 4 ≤ 8 by decide), bytesAt_ok] at read
  obtain ⟨o, ⟨oSmall, oAt⟩, w, ⟨wSmall, wAt⟩, z, ⟨zSmall, zAt⟩, s, ⟨sSmall, sAt⟩, readOnly, ⟨oFits, rfl⟩,
    readWrite, ⟨wFits, rfl⟩, c, ⟨cSmall, cAt⟩, blob, ⟨cFits, rfl⟩, nothing, rfl⟩ := read
  have oSize : (data.extract 11 (11 + o)).size = o := by
    rw [Array.size_extract]
    omega
  have wSize : (data.extract (11 + o) (11 + o + w)).size = w := by
    rw [Array.size_extract]
    omega
  have cSize : (data.extract (11 + o + w + 4) (11 + o + w + 4 + c)).size = c := by
    rw [Array.size_extract]
    omega
  have whole : 11 + o + w + 4 + c = data.size := Classical.not_not.mp nothing
  refine ⟨⟨?_, ?_, zSmall, sSmall, ?_⟩, ?_⟩
  · rwa [oSize]
  · rwa [wSize]
  · rwa [cSize]
  · simp only [encode, oSize, wSize, cSize, ← oAt, ← wAt, ← zAt, ← sAt, ← cAt]
    rw [extract_join (by omega) (by omega), extract_join (by omega) (by omega),
      extract_join (by omega) (by omega), extract_join (by omega) (by omega),
      extract_join (by omega) (by omega), extract_join (by omega) (by omega),
      extract_join (by omega) (by omega), whole, Array.extract_size]

theorem decode_encode (fits : image.Fits) : decode image.encode = .ok image := by
  obtain ⟨o, w, z, s, c⟩ := image
  have field (value len : Nat) :
      ∃ bytes : Bytes, encodeFixed (UInt64.ofNat value) len = bytes ∧ bytes.size = len :=
    ⟨_, rfl, size_encodeFixed _ _⟩
  obtain ⟨o3, o3_eq, o3_size⟩ := field o.size 3
  obtain ⟨w3, w3_eq, w3_size⟩ := field w.size 3
  obtain ⟨z2, z2_eq, z2_size⟩ := field z 2
  obtain ⟨s3, s3_eq, s3_size⟩ := field s 3
  obtain ⟨c4, c4_eq, c4_size⟩ := field c.size 4
  let header := o3 ++ w3 ++ z2 ++ s3
  have written : encode ⟨o, w, z, s, c⟩ = header ++ o ++ w ++ c4 ++ c := by
    simp only [encode, o3_eq, w3_eq, z2_eq, s3_eq, c4_eq, header]
  have header_size : header.size = 11 := by
    simp only [header, Array.size_append, o3_size, w3_size, z2_size, s3_size]
  have size : (header ++ o ++ w ++ c4 ++ c).size = 11 + o.size + w.size + 4 + c.size := by
    simp only [Array.size_append, header_size, c4_size]
  simp only [written, decode, bind_ok, guard_ok, pure_ok, numberAt_ok (show 3 ≤ 8 by decide),
    numberAt_ok (show 2 ≤ 8 by decide), numberAt_ok (show 4 ≤ 8 by decide), bytesAt_ok]
  refine ⟨o.size, ⟨fits.readOnly, ?_⟩, w.size, ⟨fits.readWrite, ?_⟩, z, ⟨fits.heapPages, ?_⟩,
    s, ⟨fits.stackSize, ?_⟩, o, ⟨by omega, ?_⟩, w, ⟨by omega, ?_⟩, c.size, ⟨fits.blob, ?_⟩, c, ⟨by omega, ?_⟩,
    by omega, rfl⟩
  · rw [o3_eq]
    exact extract_piece (a := #[]) (c := w3 ++ z2 ++ s3 ++ o ++ w ++ c4 ++ c) (by simp [header]) rfl o3_size
  · rw [w3_eq]
    exact extract_piece (c := z2 ++ s3 ++ o ++ w ++ c4 ++ c) (by simp [header]) o3_size w3_size
  · rw [z2_eq]
    exact extract_piece (a := o3 ++ w3) (c := s3 ++ o ++ w ++ c4 ++ c) (by simp [header])
      (by simp only [Array.size_append, o3_size, w3_size]) z2_size
  · rw [s3_eq]
    exact extract_piece (a := o3 ++ w3 ++ z2) (c := o ++ w ++ c4 ++ c) (by simp [header])
      (by simp only [Array.size_append, o3_size, w3_size, z2_size]) s3_size
  · exact extract_piece (c := w ++ c4 ++ c) (by simp) header_size rfl
  · exact extract_piece (a := header ++ o) (c := c4 ++ c) (by simp)
      (by rw [Array.size_append, header_size]) rfl
  · rw [c4_eq]
    exact extract_piece (a := header ++ o ++ w) rfl (by simp only [Array.size_append, header_size]) c4_size
  · exact extract_piece (a := header ++ o ++ w ++ c4) (c := #[]) (by simp)
      (by simp only [Array.size_append, header_size, c4_size]) rfl

/-- An image is read from exactly the bytes that its parts are written as. -/
theorem decode_ok : decode data = .ok image ↔ image.Fits ∧ data = image.encode := by
  refine ⟨eq_encode_of_decode, ?_⟩
  rintro ⟨fits, rfl⟩
  exact decode_encode fits

end Image

/-! ## Segments -/

/-- A range of addresses with the same rights, and what stands at its start. -/
structure Segment where
  start : Nat
  stop : Nat
  access : Access
  content : Bytes := #[]

namespace Segment

def Contains (s : Segment) (a : Nat) : Prop := s.start ≤ a ∧ a < s.stop

instance (s : Segment) (a : Nat) : Decidable (s.Contains a) := inferInstanceAs (Decidable (_ ∧ _))

/-- No address belongs to both segments. -/
def Apart (s t : Segment) : Prop := ∀ a, ¬(s.Contains a ∧ t.Contains a)

/-- The memory has the rights of the segment on all of it, and its content followed by zeros. -/
def Holds (s : Segment) (m : Memory) : Prop :=
  ∀ a, s.Contains a → m.access (pageOf a) = s.access ∧ m.byte a = s.content.getD (a - s.start) 0

/-- The segment is made of whole pages. -/
structure Paged (s : Segment) : Prop where
  start : pageSize ∣ s.start
  stop : pageSize ∣ s.stop
  inside : s.stop ≤ addressSpace

variable {s : Segment}

theorem Paged.touches_iff (paged : s.Paged) (a : Nat) :
    Touches s.start (min s.stop addressSpace) (pageOf a) ↔ s.Contains a := by
  obtain ⟨i, starts⟩ := paged.start
  obtain ⟨j, stops⟩ := paged.stop
  rw [Nat.min_eq_left paged.inside, ServiceVm.touches_iff, Contains, starts, stops]
  simp only [pageOf, pageSize]
  omega

end Segment

/-- The segments have no address in common, the memory holds them, and everything outside of them is
inaccessible and zero. -/
structure Memory.LaidOut (m : Memory) (segments : List Segment) : Prop where
  apart : segments.Pairwise Segment.Apart
  holds : ∀ s ∈ segments, s.Holds m
  elsewhere : ∀ a, (∀ s ∈ segments, ¬s.Contains a) → m.access (pageOf a) = .none ∧ m.byte a = 0

namespace Memory

variable {m : Memory} {segments : List Segment} {s t : Segment}

theorem laidOut_empty : empty.LaidOut [] where
  apart := .nil
  holds := nofun
  elsewhere a _ := by simp [access, byte, empty]

theorem byte_place_paged (paged : s.Paged) (a : Nat) (fresh : s.Contains a → m.byte a = 0) :
    (s.Contains a → (m.place s.start s.stop s.content s.access).byte a = s.content.getD (a - s.start) 0) ∧
    (¬s.Contains a → (m.place s.start s.stop s.content s.access).byte a = m.byte a) := by
  rw [byte_place]
  cases given : s.content.isEmpty with
  | true =>
    refine ⟨fun inside => ?_, fun _ => if_neg (by simp)⟩
    rw [if_neg (by simp), fresh inside, Array.isEmpty_iff.mp given]
    rfl
  | false =>
    refine ⟨fun inside => ?_, fun outside => if_neg fun both => outside ((paged.touches_iff a).mp both.2)⟩
    rw [if_pos ⟨rfl, (paged.touches_iff a).mpr inside⟩, Nat.min_eq_left paged.inside]
    obtain ⟨low, high⟩ := inside
    by_cases copied : a < s.start + s.content.size
    · rw [if_pos (by omega)]
    · rw [if_neg (by omega), Bytes.getD_of_size_le (by omega)]

theorem LaidOut.setHeapPointer (laid : m.LaidOut segments) (pointer : Nat) :
    ({ m with heapPointer := pointer } : Memory).LaidOut segments :=
  ⟨laid.apart, laid.holds, laid.elsewhere⟩

/-- Allocation adds a segment that stands above those before it. -/
theorem LaidOut.place (laid : m.LaidOut segments) (paged : s.Paged)
    (above : ∀ t ∈ segments, t.stop ≤ s.start) :
    (m.place s.start s.stop s.content s.access).LaidOut (s :: segments) := by
  have apart : ∀ t ∈ segments, s.Apart t := by
    rintro t member a ⟨inside, old⟩
    have := above t member
    exact absurd inside.1 (Nat.not_le.mpr (Nat.lt_of_lt_of_le old.2 this))
  have free (a : Nat) (inside : s.Contains a) : m.byte a = 0 :=
    (laid.elsewhere a fun t member both => apart t member a ⟨inside, both⟩).2
  have bytes (a : Nat) := byte_place_paged paged a (free a)
  have rights (a : Nat) : (m.place s.start s.stop s.content s.access).access (pageOf a) =
      if s.Contains a then s.access else m.access (pageOf a) := by
    simp only [access_place, paged.touches_iff]
  refine ⟨.cons apart laid.apart, ?_, ?_⟩
  · intro t member a inside
    rcases List.mem_cons.mp member with rfl | old
    · exact ⟨by rw [rights, if_pos inside], (bytes a).1 inside⟩
    · have outside : ¬s.Contains a := fun both => apart t old a ⟨both, inside⟩
      rw [rights, if_neg outside, (bytes a).2 outside]
      exact laid.holds t old a inside
  · intro a outside
    obtain ⟨notNew, notOld⟩ := List.forall_mem_cons.mp outside
    rw [rights, if_neg notNew, (bytes a).2 notNew]
    exact laid.elsewhere a notOld

/-- A segment without content continues the one that ends where it starts. -/
theorem LaidOut.join (laid : m.LaidOut (t :: s :: segments)) (meet : t.start = s.stop)
    (fits : s.start + s.content.size ≤ s.stop) (order : s.stop ≤ t.stop) (same : t.access = s.access)
    (plain : t.content = #[]) : m.LaidOut ({ s with stop := t.stop } :: segments) := by
  obtain ⟨apart, holds, elsewhere⟩ := laid
  obtain ⟨fromT, apartS⟩ := List.pairwise_cons.mp apart
  obtain ⟨fromS, apart⟩ := List.pairwise_cons.mp apartS
  have contains (a : Nat) : { s with stop := t.stop : Segment }.Contains a ↔ t.Contains a ∨ s.Contains a := by
    simp only [Segment.Contains]
    omega
  refine ⟨.cons ?_ apart, ?_, ?_⟩
  · rintro u member a ⟨joined, other⟩
    rcases (contains a).mp joined with inT | inS
    · exact fromT u (List.mem_cons_of_mem _ member) a ⟨inT, other⟩
    · exact fromS u member a ⟨inS, other⟩
  · intro u member a inside
    rcases List.mem_cons.mp member with rfl | old
    · rcases (contains a).mp inside with inT | inS
      · obtain ⟨rights, byte⟩ := holds t (by simp) a inT
        have past : s.content.size ≤ a - s.start := by have := inT.1; omega
        rw [same] at rights
        rw [plain] at byte
        refine ⟨rights, ?_⟩
        rw [byte, Array.getD_eq_getD_getElem?, Array.getD_eq_getD_getElem?, Array.getElem?_eq_none past]
        simp
      · exact holds s (by simp) a inS
    · exact holds u (by simp [old]) a inside
  · intro a outside
    obtain ⟨notJoined, notOld⟩ := List.forall_mem_cons.mp outside
    obtain ⟨notT, notS⟩ := not_or.mp (mt (contains a).mpr notJoined)
    exact elsewhere a (List.forall_mem_cons.mpr ⟨notT, List.forall_mem_cons.mpr ⟨notS, notOld⟩⟩)

end Memory

namespace Image

/-! ## The segments of an image -/

def readOnlySegment (image : Image) : Segment where
  start := zoneSize
  stop := zoneSize + alignToPage image.readOnly.size
  access := .readOnly
  content := image.readOnly

/-- Read-write data, the heap pages that the image asks for, and the page where the heap starts to
grow. -/
def readWriteSegment (image : Image) : Segment where
  start := 2 * zoneSize + alignToZone image.readOnly.size
  stop := 2 * zoneSize + alignToZone image.readOnly.size + alignToPage image.readWrite.size +
    image.heapPages * pageSize + pageSize
  access := .readWrite
  content := image.readWrite

def stackSegment (image : Image) : Segment where
  start := stackEnd - alignToPage image.stackSize
  stop := stackEnd
  access := .readWrite

def argumentSegment (argument : Bytes) : Segment where
  start := argumentStart
  stop := haltAddress
  access := .readOnly
  content := argument

example : stackEnd = 0xfefe0000 ∧ argumentStart = 0xfeff0000 ∧ haltAddress = 0xffff0000 := by decide

/-- All that is mapped when an image is loaded, from the top down. -/
def segments (image : Image) (argument : Bytes) : List Segment :=
  [argumentSegment argument, image.stackSegment, image.readWriteSegment, image.readOnlySegment]

variable {image : Image} {data argument : Bytes}

theorem Fits.bounds (fits : image.Fits) : image.readOnly.size < 16777216 ∧
    image.readWrite.size < 16777216 ∧ image.heapPages < 65536 ∧ image.stackSize < 16777216 :=
  ⟨fits.readOnly, fits.readWrite, fits.heapPages, fits.stackSize⟩

theorem Fits.extent_le (fits : image.Fits) : image.extent ≤ addressSpace := by
  have bounds := fits.bounds
  simp only [extent, alignToZone, alignTo, zoneSize, pageSize, inputSize, addressSpace]
  omega

/-- Where the segments stand, with room between any two of them. -/
structure Ordered (image : Image) : Prop where
  readOnly : zoneSize + image.readOnly.size ≤ image.readOnlySegment.stop
  readWrite : image.readOnlySegment.stop ≤ image.readWriteSegment.start
  data : image.readWriteSegment.start + image.readWrite.size ≤ image.heapStart
  stack : image.heapStart + pageSize ≤ image.stackSegment.start

theorem Fits.ordered (fits : image.Fits) : image.Ordered := by
  have bounds := fits.bounds
  constructor <;>
    simp only [readOnlySegment, readWriteSegment, stackSegment, heapStart, readWriteStart, stackEnd,
      alignToZone, alignToPage, alignTo, zoneSize, pageSize, inputSize, addressSpace] <;>
    omega

theorem dvd_alignToPage (size : Nat) : pageSize ∣ alignToPage size := Nat.dvd_mul_left _ _

theorem dvd_alignToZone (size : Nat) : pageSize ∣ alignToZone size :=
  Nat.dvd_trans (by decide : pageSize ∣ zoneSize) (Nat.dvd_mul_left _ _)

theorem dvd_readWriteStart (image : Image) : pageSize ∣ image.readWriteStart :=
  Nat.dvd_add (by decide : pageSize ∣ 2 * zoneSize) (dvd_alignToZone _)

theorem dvd_heapStart (image : Image) : pageSize ∣ image.heapStart :=
  Nat.dvd_add (Nat.dvd_add image.dvd_readWriteStart (dvd_alignToPage _)) (Nat.dvd_mul_left _ _)

theorem readOnlySegment_paged (image : Image) (inside : image.readOnlySegment.stop ≤ addressSpace) :
    image.readOnlySegment.Paged where
  start := (by decide : pageSize ∣ zoneSize)
  stop := Nat.dvd_add (by decide : pageSize ∣ zoneSize) (dvd_alignToPage _)
  inside := inside

theorem stackSegment_paged (image : Image) : image.stackSegment.Paged where
  start := Nat.dvd_sub (by decide : pageSize ∣ stackEnd) (dvd_alignToPage _)
  stop := (by decide : pageSize ∣ stackEnd)
  inside := (by decide : stackEnd ≤ addressSpace)

theorem argumentSegment_paged (argument : Bytes) : (argumentSegment argument).Paged where
  start := (by decide : pageSize ∣ argumentStart)
  stop := (by decide : pageSize ∣ haltAddress)
  inside := (by decide : haltAddress ≤ addressSpace)

def layout (image : Image) (argument : Bytes) : Memory :=
  let m := Memory.empty.place zoneSize image.readOnlyEnd image.readOnly .readOnly
  let m := m.place image.readWriteStart image.heapStart image.readWrite .readWrite
  let m := m.place image.heapStart (image.heapStart + pageSize) #[] .readWrite
  let m := { m with heapPointer := image.heapStart }
  let m := m.place (stackEnd - alignToPage image.stackSize) stackEnd #[] .readWrite
  m.place argumentStart (argumentStart + inputSize) argument .readOnly

/-- No segment starts past the address space, so that all of them are allocated. -/
theorem Fits.layout?_eq (fits : image.Fits) (argument : Bytes) :
    image.layout? argument = some (image.layout argument) := by
  obtain ⟨-, readWrite, data, stack⟩ := fits.ordered
  have stackTop : image.stackSegment.start ≤ stackEnd := Nat.sub_le _ _
  have top : stackEnd ≤ addressSpace := by decide
  have heap : image.heapStart ≤ addressSpace := by omega
  have start : image.readWriteStart ≤ addressSpace := by
    have : image.readWriteSegment.start = image.readWriteStart := rfl
    omega
  have below : stackEnd - alignToPage image.stackSize ≤ addressSpace := Nat.le_trans stackTop top
  have zone : zoneSize ≤ addressSpace := by decide
  have argumentBelow : argumentStart ≤ addressSpace := by decide
  simp only [layout?, layout, Memory.allocate_of_le _ _ _ zone, Memory.allocate_of_le _ _ _ start,
    Memory.allocate_of_le _ _ _ heap, Memory.allocate_of_le _ _ _ below,
    Memory.allocate_of_le _ _ _ argumentBelow, Option.bind_eq_bind, Option.bind_some]

theorem Fits.laidOut_layout (fits : image.Fits) (argument : Bytes) :
    (image.layout argument).LaidOut (image.segments argument) := by
  obtain ⟨-, readWrite, data, stack⟩ := fits.ordered
  have stackTop : image.stackSegment.start ≤ stackEnd := Nat.sub_le _ _
  have argumentAbove : stackEnd ≤ argumentStart := by decide
  have top : stackEnd ≤ addressSpace := by decide
  have rest : image.readWriteSegment.start ≤ image.heapStart := by omega
  -- The read-write segment is mapped in two parts.
  let dataSegment : Segment := { image.readWriteSegment with stop := image.heapStart }
  let heapSegment : Segment := ⟨image.heapStart, image.heapStart + pageSize, .readWrite, #[]⟩
  have dataPaged : dataSegment.Paged :=
    ⟨image.dvd_readWriteStart, image.dvd_heapStart, show image.heapStart ≤ addressSpace by omega⟩
  have heapPaged : heapSegment.Paged :=
    ⟨image.dvd_heapStart, Nat.dvd_add image.dvd_heapStart (Nat.dvd_refl _),
      show image.heapStart + pageSize ≤ addressSpace by omega⟩
  have mapped := Memory.laidOut_empty.place (image.readOnlySegment_paged (by omega)) nofun
  have mapped := mapped.place dataPaged (List.forall_mem_singleton.mpr readWrite)
  have mapped := mapped.place heapPaged (List.forall_mem_cons.mpr ⟨Nat.le_refl _,
    List.forall_mem_singleton.mpr (show image.readOnlySegment.stop ≤ image.heapStart by omega)⟩)
  have mapped := (mapped.join rfl data (Nat.le_add_right _ _) rfl rfl).setHeapPointer image.heapStart
  have mapped := mapped.place image.stackSegment_paged (List.forall_mem_cons.mpr ⟨stack,
    List.forall_mem_singleton.mpr (by omega)⟩)
  refine mapped.place (argumentSegment_paged argument) (List.forall_mem_cons.mpr ⟨argumentAbove,
    List.forall_mem_cons.mpr ⟨?_, List.forall_mem_singleton.mpr ?_⟩⟩)
  · exact show image.heapStart + pageSize ≤ argumentStart by omega
  · exact show image.readOnlySegment.stop ≤ argumentStart by omega

/-! ## Loading -/

theorem load_eq_ok {loaded : LoadedImage} : load data argument = .ok loaded ↔
    ∃ image : Image, image.Fits ∧ data = image.encode ∧ argument.size ≤ inputSize ∧
      ∃ program, Program.ofBlob image.blob = .ok program ∧
        ⟨program, image.layout argument, entryRegisters argument⟩ = loaded := by
  simp only [load, bind_ok, guard_ok, decode_ok]
  constructor
  · rintro ⟨image, ⟨fits, written⟩, -, short, program, accepted, done⟩
    simp only [fits.layout?_eq argument, pure_ok] at done
    exact ⟨image, fits, written, Nat.not_lt.mp short, program, accepted, done⟩
  · rintro ⟨image, fits, written, short, program, accepted, done⟩
    refine ⟨image, ⟨fits, written⟩, Nat.not_lt.mpr fits.extent_le, Nat.not_lt.mpr short, program, accepted, ?_⟩
    simpa only [fits.layout?_eq argument, pure_ok] using done

theorem numberAt_ne_exceeded (data : Bytes) (offset len : Nat) (part : ProgramPart) :
    numberAt data offset len part ≠ .error .addressSpaceExceeded := by
  rw [numberAt]
  split <;> simp

theorem bytesAt_ne_exceeded (data : Bytes) (offset len : Nat) (part : ProgramPart) :
    bytesAt data offset len part ≠ .error .addressSpaceExceeded := by
  rw [bytesAt]
  split <;> simp

theorem decode_ne_exceeded (data : Bytes) : decode data ≠ .error .addressSpaceExceeded := by
  rw [decode]
  refine bind_ne_error (numberAt_ne_exceeded data _ _ _) fun o _ => ?_
  refine bind_ne_error (numberAt_ne_exceeded data _ _ _) fun w _ => ?_
  refine bind_ne_error (numberAt_ne_exceeded data _ _ _) fun z _ => ?_
  refine bind_ne_error (numberAt_ne_exceeded data _ _ _) fun s _ => ?_
  refine bind_ne_error (bytesAt_ne_exceeded data _ _ _) fun readOnly _ => ?_
  refine bind_ne_error (bytesAt_ne_exceeded data _ _ _) fun readWrite _ => ?_
  refine bind_ne_error (numberAt_ne_exceeded data _ _ _) fun c _ => ?_
  refine bind_ne_error (bytesAt_ne_exceeded data _ _ _) fun blob _ => ?_
  exact guard_ne_error (fun _ => nofun) fun _ => nofun

theorem ofBody_ne_exceeded (blob : Bytes) (entries : UInt64) (width : UInt8) (length : UInt64) (tableAt : Nat) :
    Program.ofBody blob entries width length tableAt ≠ .error .addressSpaceExceeded := by
  simp only [Program.ofBody]
  split
  · simp
  · split
    · simp
    · split
      · simp
      · split
        · simp
        · simp

theorem ofBlob_ne_exceeded (blob : Bytes) : Program.ofBlob blob ≠ .error .addressSpaceExceeded := by
  rw [Program.ofBlob_eq]
  cases Codec.decodeNatural blob with
  | none => simp
  | some entries =>
    dsimp only
    cases blob[entries.consumed]? with
    | none => simp
    | some width =>
      dsimp only
      cases Codec.decodeNatural (blob.extract (entries.consumed + 1) (entries.consumed + 1 + 9)) with
      | none => simp
      | some length => exact ofBody_ne_exceeded _ _ _ _ _

theorem load_ne_exceeded (data argument : Bytes) : load data argument ≠ .error .addressSpaceExceeded := by
  rw [load]
  refine bind_ne_error (decode_ne_exceeded data) fun image read => ?_
  have fits := (decode_ok.mp read).1
  refine guard_ne_error (fun exceeds => absurd fits.extent_le (Nat.not_le.mpr exceeds)) fun _ => ?_
  refine guard_ne_error (fun _ => nofun) fun _ => ?_
  refine bind_ne_error (ofBlob_ne_exceeded _) fun program _ => ?_
  simp only [fits.layout?_eq argument]
  nofun

theorem heapPointer_layout (image : Image) (argument : Bytes) :
    (image.layout argument).heapPointer = image.heapStart := by
  simp only [layout, Memory.heapPointer_place]

theorem get_entryRegisters (argument : Bytes) (r : Reg) : (entryRegisters argument).get r =
    if Reg.r8 = r then UInt64.ofNat argument.size
    else if Reg.r7 = r then UInt64.ofNat argumentStart
    else if Reg.r1 = r then UInt64.ofNat stackEnd
    else if Reg.r0 = r then UInt64.ofNat haltAddress
    else 0 := by
  have zero : Registers.zero.get r = 0 := by simp [Registers.zero, Vector.get]
  simp only [entryRegisters, RegFile.get_put, zero]

/-- What an image and its argument are loaded into. -/
structure Realises (image : Image) (argument : Bytes) (loaded : LoadedImage) : Prop where
  program : Program.ofBlob image.blob = .ok loaded.program
  memory : loaded.memory.LaidOut (image.segments argument)
  heapPointer : loaded.memory.heapPointer = 2 * zoneSize + alignToZone image.readOnly.size +
    alignToPage image.readWrite.size + image.heapPages * pageSize
  returnAddress : loaded.registers.get Reg.r0 = 0xffff0000
  stackPointer : loaded.registers.get Reg.r1 = 0xfefe0000
  argumentPointer : loaded.registers.get Reg.r7 = 0xfeff0000
  argumentSize : (loaded.registers.get Reg.r8).toNat = argument.size
  otherRegisters : ∀ r, r ∉ [Reg.r0, Reg.r1, Reg.r7, Reg.r8] → loaded.registers.get r = 0

theorem Fits.realises (fits : image.Fits) (short : argument.size ≤ inputSize) {program : Program}
    (accepted : Program.ofBlob image.blob = .ok program) :
    image.Realises argument ⟨program, image.layout argument, entryRegisters argument⟩ where
  program := accepted
  memory := fits.laidOut_layout argument
  heapPointer := image.heapPointer_layout argument
  returnAddress := get_entryRegisters argument Reg.r0
  stackPointer := get_entryRegisters argument Reg.r1
  argumentPointer := get_entryRegisters argument Reg.r7
  argumentSize := by
    have word : inputSize < UInt64.size := by decide
    rw [get_entryRegisters, if_pos rfl, UInt64.toNat_ofNat_of_lt' (Nat.lt_of_le_of_lt short word)]
  otherRegisters r other := by
    simp only [List.mem_cons, List.not_mem_nil, or_false, not_or] at other
    obtain ⟨not0, not1, not7, not8⟩ := other
    rw [get_entryRegisters, if_neg (Ne.symm not8), if_neg (Ne.symm not7), if_neg (Ne.symm not1),
      if_neg (Ne.symm not0)]

/-- Images are loaded exactly by their grammar, and as their segments say. An image is accepted iff it is
its parts written one after the other, with nothing left over, the argument fits its segment and the
blob is a program's; the layout never exceeds the address space. The memory then holds the argument,
the stack, the read-write data with the heap, and the read-only data in segments of whole pages, and
all of the rest is inaccessible; the registers tell the program where it returns, where its stack ends
and where its argument stands. Every image whose parts fit their fields is accepted with these
parts. -/
theorem load_realises_layout (data argument : Bytes) :
    ((∃ loaded, load data argument = .ok loaded) ↔
      ∃ image : Image, image.Fits ∧ data = image.encode ∧ argument.size ≤ inputSize ∧
        ∃ program, Program.ofBlob image.blob = .ok program) ∧
    load data argument ≠ .error .addressSpaceExceeded ∧
    (∀ loaded, load data argument = .ok loaded →
      ∃ image : Image, image.Fits ∧ data = image.encode ∧ image.Realises argument loaded) ∧
    ∀ image : Image, image.Fits → argument.size ≤ inputSize →
      ∀ program, Program.ofBlob image.blob = .ok program →
        decode image.encode = .ok image ∧
        ∃ loaded, load image.encode argument = .ok loaded ∧ loaded.program = program ∧
          image.Realises argument loaded := by
  refine ⟨⟨?_, ?_⟩, load_ne_exceeded data argument, ?_, ?_⟩
  · rintro ⟨loaded, accepted⟩
    obtain ⟨image, fits, written, short, program, built, -⟩ := load_eq_ok.mp accepted
    exact ⟨image, fits, written, short, program, built⟩
  · rintro ⟨image, fits, written, short, program, built⟩
    exact ⟨_, load_eq_ok.mpr ⟨image, fits, written, short, program, built, rfl⟩⟩
  · intro loaded accepted
    obtain ⟨image, fits, written, short, program, built, rfl⟩ := load_eq_ok.mp accepted
    exact ⟨image, fits, written, fits.realises short built⟩
  · intro image fits short program built
    exact ⟨decode_encode fits, _, load_eq_ok.mpr ⟨image, fits, rfl, short, program, built, rfl⟩, rfl,
      fits.realises short built⟩

def smallImage : Image where
  readOnly := #[1, 2]
  readWrite := #[3]
  heapPages := 1
  stackSize := 4096
  blob := #[0, 0, 1, 0, 1]

theorem smallImage_realises_layout :
    smallImage.encode = #[2, 0, 0, 1, 0, 0, 1, 0, 0, 16, 0, 1, 2, 3, 5, 0, 0, 0, 0, 0, 1, 0, 1] ∧
      ∃ loaded, load smallImage.encode #[97] = .ok loaded ∧ loaded.memory.heapPointer = 0x32000 ∧
        smallImage.readOnlySegment.Holds loaded.memory ∧ smallImage.readWriteSegment.Holds loaded.memory := by
  have fits : smallImage.Fits := ⟨by decide, by decide, by decide, by decide, by decide⟩
  have built : Program.ofBlob smallImage.blob = .ok (Program.ofCode #[0] #[true] #[] 0) := by decide +kernel
  obtain ⟨-, loaded, accepted, -, realises⟩ :=
    (load_realises_layout smallImage.encode #[97]).2.2.2 smallImage fits (by decide) _ built
  exact ⟨by decide +kernel, loaded, accepted, realises.heapPointer,
    realises.memory.holds _ (by simp [segments]), realises.memory.holds _ (by simp [segments])⟩

end Image

end ServiceVm
