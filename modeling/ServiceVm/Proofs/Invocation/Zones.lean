import ServiceVm.Proofs.Host.Visits
import ServiceVm.Proofs.Invocation.Guests

/-!
# What a guest cannot touch

The writeable pages of a guest lie between its read-only data and its argument, as long as the heap
stays below the argument. Stores and host calls write only between writeable pages, and the heap grows
upwards from where the image has put it; so the first zone and the read-only data keep their rights
and their bytes for as long as the guest runs. Above the stack this holds of the pages that the heap has
not reached, but nothing keeps the heap from growing over the argument and the last zone.
-/
namespace ServiceVm

theorem pageOf_mul (k : Nat) : pageOf (k * pageSize) = k := Nat.mul_div_cancel k (by decide : 0 < pageSize)

namespace Memory

variable {initial m m' : Memory} {low high : Nat}

theorem SamePage.refl (m : Memory) (k : Nat) : m.SamePage m k := ⟨rfl, fun _ _ => rfl⟩

theorem SamePage.trans {m'' : Memory} {k : Nat} (first : m.SamePage m' k) (second : m'.SamePage m'' k) :
    m.SamePage m'' k :=
  ⟨second.1.trans first.1, fun a here => (second.2 a here).trans (first.2 a here)⟩

theorem samePage_write (m : Memory) {start k : Nat} (data : Bytes)
    (outside : ¬Touches start (start + data.size) k) : m.SamePage (m.write start data) k := by
  refine ⟨m.access_write start data k, ?_⟩
  rintro a rfl
  rw [byte_write, if_neg fun inside => outside ⟨a, inside.1, by omega, rfl⟩]

/-- The writeable pages of `m` and its heap start at page `low`. They end at the address `high` or, if it
is further up, at the end of the heap. The other pages are as in the `initial` memory. -/
structure Confined (initial : Memory) (low high : Nat) (m : Memory) : Prop where
  heap : low ≤ pageOf m.heapPointer
  writeable : ∀ k, m.access k = .readWrite → low ≤ k ∧ k * pageSize < max high m.heapPointer
  same : ∀ k, k < low ∨ max high m.heapPointer ≤ k * pageSize → initial.SamePage m k

/-- A host looks at the first and the last page only, but the pages between them lie between writeable
ones. -/
theorem Confined.write (confined : Confined initial low high m) {start : Nat} {data : Bytes}
    (writeable : m.isWriteable start data.size = true) :
    Confined initial low high (m.write start data) := by
  refine ⟨by rw [heapPointer_write]; exact confined.heap, fun k rights => ?_, fun k outside => ?_⟩
  · rw [heapPointer_write]
    rw [access_write] at rights
    exact confined.writeable k rights
  · rw [heapPointer_write] at outside
    refine (confined.same k outside).trans (m.samePage_write data fun touched => ?_)
    obtain ⟨nonempty, from', upto⟩ := (touches_iff _ _ _).mp touched
    rcases (m.isWriteable_iff _ _).mp writeable with empty | ⟨-, first, last⟩
    · omega
    · have above := (confined.writeable _ first).1
      have below := (confined.writeable _ last).2
      have order : k * pageSize ≤ pageOf (start + data.size - 1) * pageSize :=
        Nat.mul_le_mul_right _ (by omega)
      omega

theorem Confined.sbrk (confined : Confined initial low high m) (amount : Nat) :
    Confined initial low high (m.sbrk amount).2 := by
  have order := m.heapPointer_le_sbrk amount
  -- Pages that the heap passes lie above its old end, and below its new one.
  have passed {k : Nat} (touched : Touches m.heapPointer (m.sbrk amount).2.heapPointer k) :
      low ≤ k ∧ k * pageSize < (m.sbrk amount).2.heapPointer := by
    obtain ⟨a, above, below, here⟩ := touched
    have start := (pageOf_eq_iff a k).mp here
    exact ⟨here ▸ Nat.le_trans confined.heap (Nat.div_le_div_right above), by omega⟩
  refine ⟨Nat.le_trans confined.heap (Nat.div_le_div_right order), fun k writeable => ?_, fun k outside => ?_⟩
  · rcases m.access_sbrk_cases amount k with kept | ⟨-, touched⟩
    · rw [kept] at writeable
      have before := confined.writeable k writeable
      omega
    · have now := passed touched
      omega
  · refine (confined.same k (by omega)).trans ⟨?_, fun a _ => m.byte_sbrk amount a⟩
    rcases m.access_sbrk_cases amount k with kept | ⟨-, touched⟩
    · exact kept
    · have now := passed touched
      omega

theorem Confined.used (confined : Confined initial low high m) (used : m.Used m') :
    Confined initial low high m' := by
  cases used with
  | same => exact confined
  | written start data writeable => exact confined.write writeable
  | grown amount => exact confined.sbrk amount

end Memory

theorem Segment.Holds.of_samePage {s : Segment} {m m' : Memory} (holds : s.Holds m)
    (same : ∀ a, s.Contains a → m.SamePage m' (pageOf a)) : s.Holds m' := by
  intro a inside
  obtain ⟨rights, bytes⟩ := same a inside
  rw [rights, bytes a rfl]
  exact holds a inside

theorem Memory.LaidOut.holds_gap {m : Memory} {segments : List Segment} (laid : m.LaidOut segments)
    {gap : Segment} (unmapped : gap.access = .none) (plain : gap.content = #[])
    (apart : ∀ s ∈ segments, gap.Apart s) : gap.Holds m := by
  intro a inside
  rw [unmapped, plain, Array.getD_eq_getD_getElem?, Array.getElem?_empty]
  exact laid.elsewhere a fun s member other => apart s member a ⟨inside, other⟩

/-! ## Zones of an image -/

namespace Image

variable {image : Image} {data argument : Bytes} {m : Memory}

def firstZone : Segment := ⟨0, zoneSize, .none, #[]⟩

def lastZone : Segment := ⟨haltAddress, addressSpace, .none, #[]⟩

/-- What holds of the memory of a guest that has run the image for a while. -/
def Keeps (image : Image) (argument : Bytes) (m : Memory) : Prop :=
  Memory.Confined (image.layout argument) (pageOf image.readWriteSegment.start) stackEnd m

/-- At first the read-write data, the heap and the stack are writeable, and nothing else. -/
theorem Fits.between_of_writeable (fits : image.Fits) {a : Nat}
    (writeable : (image.layout argument).access (pageOf a) = .readWrite) :
    image.readWriteSegment.start ≤ a ∧ a < stackEnd := by
  obtain ⟨readOnly, readWrite, data, stack⟩ := fits.ordered
  have stackTop : image.stackSegment.start ≤ stackEnd := Nat.sub_le _ _
  have laid := fits.laidOut_layout argument
  by_cases unmapped : ∀ s ∈ image.segments argument, ¬s.Contains a
  · rw [(laid.elsewhere a unmapped).1] at writeable
    contradiction
  · obtain ⟨s, member, inside⟩ : ∃ s ∈ image.segments argument, s.Contains a := by simpa using unmapped
    rw [(laid.holds s member a inside).1] at writeable
    simp only [segments, List.mem_cons, List.not_mem_nil, or_false] at member
    rcases member with rfl | rfl | rfl | rfl
    · contradiction
    · exact ⟨Nat.le_trans (by omega) inside.1, inside.2⟩
    · exact ⟨inside.1, Nat.lt_of_lt_of_le inside.2 (Nat.le_trans stack stackTop)⟩
    · contradiction

theorem Fits.keeps_layout (fits : image.Fits) (argument : Bytes) :
    image.Keeps argument (image.layout argument) := by
  have data := fits.ordered.data
  refine ⟨?_, fun k writeable => ?_, fun k _ => .refl _ k⟩
  · rw [heapPointer_layout]
    exact Nat.div_le_div_right (by omega)
  · rw [← pageOf_mul k] at writeable
    obtain ⟨above, below⟩ := fits.between_of_writeable writeable
    refine ⟨?_, by omega⟩
    rw [← pageOf_mul k]
    exact Nat.div_le_div_right above

theorem Fits.zones_free (fits : image.Fits) :
    ∀ s ∈ image.segments argument, zoneSize ≤ s.start ∧ s.stop ≤ haltAddress := by
  obtain ⟨readOnly, readWrite, data, stack⟩ := fits.ordered
  have stackTop : image.stackSegment.start ≤ stackEnd := Nat.sub_le _ _
  have order : zoneSize ≤ argumentStart ∧ stackEnd ≤ haltAddress := by decide
  have heap : image.readWriteSegment.stop = image.heapStart + pageSize := rfl
  intro s member
  simp only [segments, List.mem_cons, List.not_mem_nil, or_false] at member
  rcases member with rfl | rfl | rfl | rfl
  · exact ⟨order.1, Nat.le_refl _⟩
  · exact ⟨by omega, order.2⟩
  · omega
  · exact ⟨Nat.le_refl _, by omega⟩

theorem Fits.firstZone_holds (fits : image.Fits) (argument : Bytes) :
    firstZone.Holds (image.layout argument) := by
  refine (fits.laidOut_layout argument).holds_gap rfl rfl fun s member a both => ?_
  exact absurd (Nat.le_trans (fits.zones_free s member).1 both.2.1) (Nat.not_le.mpr both.1.2)

theorem Fits.lastZone_holds (fits : image.Fits) (argument : Bytes) :
    lastZone.Holds (image.layout argument) := by
  refine (fits.laidOut_layout argument).holds_gap rfl rfl fun s member a both => ?_
  exact absurd (Nat.le_trans (fits.zones_free s member).2 both.1.1) (Nat.not_le.mpr both.2.2)

theorem Keeps.holds_below (keeps : image.Keeps argument m) {s : Segment}
    (below : s.stop ≤ image.readWriteSegment.start) (holds : s.Holds (image.layout argument)) : s.Holds m := by
  refine holds.of_samePage fun a inside => keeps.same _ (.inl ?_)
  exact Nat.div_lt_div_of_lt_of_dvd image.dvd_readWriteStart (Nat.lt_of_lt_of_le inside.2 below)

theorem Keeps.holds_above (keeps : image.Keeps argument m) {s : Segment} (above : stackEnd ≤ s.start)
    (holds : s.Holds (image.layout argument)) {a : Nat} (inside : s.Contains a)
    (clear : m.heapPointer ≤ pageOf a * pageSize) :
    m.access (pageOf a) = s.access ∧ m.byte a = s.content.getD (a - s.start) 0 := by
  have page : stackEnd ≤ pageOf a * pageSize := by
    have low := Nat.le_trans above inside.1
    simp only [stackEnd, addressSpace, zoneSize, inputSize, pageOf, pageSize] at low ⊢
    omega
  obtain ⟨rights, bytes⟩ := keeps.same (pageOf a) (.inr (by omega))
  rw [rights, bytes a rfl]
  exact holds a inside

end Image

/-! ## Guests -/

theorem imageGuest?_keeps {data argument : Bytes} {pc : UInt32} {gas : UInt64} {context : HostContext}
    {g : Guest} (loads : imageGuest? data pc gas argument context = some g) (config : Config) :
    ∃ image : Image, image.Fits ∧ data = image.encode ∧
      ∀ exit g', g.Visits config exit g' → image.Keeps argument g'.machine.cpu.memory := by
  obtain ⟨image, fits, written, -, program, -, rfl⟩ := imageGuest?_eq_some loads
  refine ⟨image, fits, written, fun exit g' visited => ?_⟩
  exact visited.memory_invariant (fits.keeps_layout argument) Memory.Confined.used

/-! ## A guest whose heap grows over everything -/

/-- Code that moves the end of its heap to the end of the address space and then writes to its
argument. -/
def growingProgram : Program :=
  .ofCode #[20, 2, 0, 0, 253, 255, 0, 0, 0, 0, 101, 35, 120, 120, 50, 0]
    #[true, false, false, false, false, false, false, false, false, false, true, false, true, false, true,
      false] #[] 0

def growingImage : Image where
  readOnly := #[1, 2]
  readWrite := #[]
  heapPages := 0
  stackSize := 0
  blob := #[0, 0, 16, 20, 2, 0, 0, 253, 255, 0, 0, 0, 0, 101, 35, 120, 120, 50, 0, 1, 84]

def growingGuest : Guest where
  machine := ⟨growingProgram, ⟨0, Image.entryRegisters #[97], growingImage.layout #[97]⟩, 100, {}⟩
  context := .refinement {}

theorem growingImage_fits : growingImage.Fits := ⟨by decide, by decide, by decide, by decide, by decide⟩

theorem growingGuest_loads :
    imageGuest? growingImage.encode 0 100 #[97] (.refinement {}) = some growingGuest := by
  have built : Program.ofBlob growingImage.blob = .ok growingProgram := by decide +kernel
  exact imageGuest?_encode growingImage_fits (by decide) built

def growingGuestReady : Guest := growingGuest.withMachine
  ⟨growingProgram, ⟨10, (Image.entryRegisters #[97]).put 2 0xfffd0000, growingImage.layout #[97]⟩, 99, {}⟩

def growingGuestGrown : Guest := growingGuestReady.withMachine
  ⟨growingProgram, ⟨12, growingGuestReady.machine.cpu.registers.put 3 0x100000000,
    ((growingImage.layout #[97]).sbrk 0xfffd0000).2⟩, 98, {}⟩

theorem growingGuest_visits_ready : growingGuest.Visits {} .continue growingGuestReady := by
  have fetched : growingProgram.fetch? 0 = some ⟨.loadImm64 2 0xfffd0000, 9⟩ := by decide +kernel
  refine Guest.Visits.start.step_cpu rfl (by decide) ?_
  simp only [growingGuest, Cpu.step, fetched, Instr.exec]
  rfl

theorem heapPointer_growingImage : (growingImage.layout #[97]).heapPointer = 0x30000 :=
  (growingImage.heapPointer_layout #[97]).trans (by decide)

theorem sbrk_growingImage : (growingImage.layout #[97]).sbrk 0xfffd0000 =
    (0x100000000, { (growingImage.layout #[97]).growHeap 0xfffd0000 with heapPointer := 0x100000000 }) := by
  rw [Memory.sbrk_eq, if_neg (by decide), heapPointer_growingImage, if_neg (by decide)]

theorem growingGuest_visits_grown : growingGuest.Visits {} .continue growingGuestGrown := by
  have fetched : growingProgram.fetch? 10 = some ⟨.sbrk 3 2, 1⟩ := by decide +kernel
  have amount : (growingGuestReady.machine.cpu.registers.get 2).toNat = 0xfffd0000 := by decide +kernel
  refine growingGuest_visits_ready.step_cpu rfl (by decide) ?_
  simp only [growingGuestReady, Guest.withMachine] at amount ⊢
  simp only [Cpu.step, fetched, Instr.exec, amount, sbrk_growingImage]
  rfl

theorem access_growingGuestGrown {k : Nat} (above : 0x30 ≤ k) (inside : k < pageCount) :
    growingGuestGrown.machine.cpu.memory.access k = .readWrite := by
  have grows : (growingImage.layout #[97]).HeapGrows 0xfffd0000 := by
    rw [Memory.HeapGrows, heapPointer_growingImage]
    decide
  have touched : Touches 0x30000 (0x30000 + 0xfffd0000) k := by
    rw [touches_iff]
    simp only [pageOf, pageSize, pageCount, addressSpace] at inside ⊢
    omega
  refine Memory.access_sbrk grows ?_
  rw [heapPointer_growingImage]
  exact touched

/-! ## What guests leave alone -/

/-- Write protection. In every state that a guest visits, the first sixteen pages are inaccessible, and
the pages of the read-only data are read-only and hold these data followed by zeros. The run of the guest
ends in such a state. -/
theorem read_only_data_protected (config : Config) (data : Bytes) (pc : UInt32) (gas : UInt64)
    (argument : Bytes) (context : HostContext) (g : Guest)
    (loads : imageGuest? data pc gas argument context = some g) :
    g.Visits config (g.run config).1 (g.run config).2 ∧
    ∃ image : Image, Image.decode data = .ok image ∧
      ∀ exit g', g.Visits config exit g' →
        (∀ k < 16, g'.machine.cpu.memory.access k = .none) ∧
        image.readOnlySegment.Holds g'.machine.cpu.memory := by
  obtain ⟨image, fits, written, keeps⟩ := imageGuest?_keeps loads config
  refine ⟨g.run_visits config, image, Image.decode_ok.mpr ⟨fits, written⟩, fun exit g' visited => ?_⟩
  have kept := keeps exit g' visited
  obtain ⟨readOnly, readWrite, -, -⟩ := fits.ordered
  have firstZone := kept.holds_below (s := Image.firstZone) (show zoneSize ≤ _ by omega)
    (fits.firstZone_holds argument)
  refine ⟨fun k low => ?_, kept.holds_below readWrite ?_⟩
  · rw [← pageOf_mul k]
    refine (firstZone (k * pageSize) ⟨Nat.zero_le _, ?_⟩).1
    simp only [Image.firstZone, pageSize, zoneSize]
    omega
  · exact (fits.laidOut_layout argument).holds _ (by simp [Image.segments])

/-- A heap that has grown over everything else leaves the read-only data alone. -/
theorem growingGuest_data_protected :
    growingGuest.Visits {} .continue growingGuestGrown ∧
      (∀ k < 16, growingGuestGrown.machine.cpu.memory.access k = .none) ∧
      growingImage.readOnlySegment.Holds growingGuestGrown.machine.cpu.memory := by
  obtain ⟨-, image, read, kept⟩ :=
    read_only_data_protected {} growingImage.encode 0 100 #[97] (.refinement {}) growingGuest growingGuest_loads
  obtain rfl := Except.ok.inj ((Image.decode_encode growingImage_fits).symm.trans read)
  exact ⟨growingGuest_visits_grown, kept _ _ growingGuest_visits_grown⟩

/-- The argument and the last zone are kept from the end of the heap on. In every state that a guest
visits, each of their pages that the heap has not reached has the rights and the bytes it started with:
the argument can be read only, and the last zone is inaccessible. As long as the heap ends below the
argument that is all of both. -/
theorem zones_above_heap_kept (config : Config) (data : Bytes) (pc : UInt32) (gas : UInt64)
    (argument : Bytes) (context : HostContext) (g : Guest)
    (loads : imageGuest? data pc gas argument context = some g) (exit : Exit) (g' : Guest)
    (visited : g.Visits config exit g') :
    (∀ s ∈ [Image.argumentSegment argument, Image.lastZone], ∀ a, s.Contains a →
      g'.machine.cpu.memory.heapPointer ≤ pageOf a * pageSize →
      g'.machine.cpu.memory.access (pageOf a) = s.access ∧
        g'.machine.cpu.memory.byte a = s.content.getD (a - s.start) 0) ∧
    (g'.machine.cpu.memory.heapPointer ≤ argumentStart →
      (Image.argumentSegment argument).Holds g'.machine.cpu.memory ∧
        Image.lastZone.Holds g'.machine.cpu.memory) := by
  obtain ⟨image, fits, -, keeps⟩ := imageGuest?_keeps loads config
  have kept := keeps exit g' visited
  have argumentHeld : (Image.argumentSegment argument).Holds (image.layout argument) :=
    (fits.laidOut_layout argument).holds _ (by simp [Image.segments])
  have above : stackEnd ≤ argumentStart ∧ stackEnd ≤ haltAddress ∧ argumentStart ≤ haltAddress := by decide
  have argumentKept (a : Nat) := kept.holds_above (a := a) above.1 argumentHeld
  have lastKept (a : Nat) := kept.holds_above (a := a) above.2.1 (fits.lastZone_holds argument)
  refine ⟨?_, fun clear => ?_⟩
  · intro s member a inside
    simp only [List.mem_cons, List.not_mem_nil, or_false] at member
    rcases member with rfl | rfl
    · exact argumentKept a inside
    · exact lastKept a inside
  · have page (a : Nat) (past : argumentStart ≤ a) :
        g'.machine.cpu.memory.heapPointer ≤ pageOf a * pageSize := by
      simp only [argumentStart, addressSpace, zoneSize, inputSize, pageOf, pageSize] at clear past ⊢
      omega
    exact ⟨fun a inside => argumentKept a inside (page a inside.1),
      fun a inside => lastKept a inside (page a (Nat.le_trans above.2.2 inside.1))⟩

/-- Before its heap grows, the guest has its argument and the last zone as they were loaded. -/
theorem growingGuestReady_zones_kept :
    growingGuest.Visits {} .continue growingGuestReady ∧
      growingGuestReady.machine.cpu.memory.heapPointer ≤ argumentStart ∧
      (Image.argumentSegment #[97]).Holds growingGuestReady.machine.cpu.memory ∧
      Image.lastZone.Holds growingGuestReady.machine.cpu.memory := by
  have clear : growingGuestReady.machine.cpu.memory.heapPointer ≤ argumentStart := by
    rw [show growingGuestReady.machine.cpu.memory.heapPointer = 0x30000 from heapPointer_growingImage]
    decide
  exact ⟨growingGuest_visits_ready, clear,
    (zones_above_heap_kept {} growingImage.encode 0 100 #[97] (.refinement {}) growingGuest growingGuest_loads
      .continue growingGuestReady growingGuest_visits_ready).2 clear⟩

/-- Once its heap has grown, the guest may write to both. -/
theorem heap_grows_over_zones :
    imageGuest? growingImage.encode 0 100 #[97] (.refinement {}) = some growingGuest ∧
      growingGuest.Visits {} .continue growingGuestGrown ∧
      growingGuestGrown.machine.cpu.memory.access (pageOf argumentStart) = .readWrite ∧
      growingGuestGrown.machine.cpu.memory.access (pageOf haltAddress) = .readWrite :=
  ⟨growingGuest_loads, growingGuest_visits_grown, access_growingGuestGrown (by decide) (by decide),
    access_growingGuestGrown (by decide) (by decide)⟩

end ServiceVm
