import ServiceVm.Proofs.Host.Visits
import ServiceVm.Proofs.Invocation.Guests

/-!
# What a growing heap hands out

A guest asks for memory by moving the end of its heap. Pages are mapped once the end leaves the page it
was on, in the belief that this page is mapped already. That is so when the guest is loaded, and stays so
while the end of the heap lies inside of a page; all that is handed out can then be written. An end that
comes to lie between two pages breaks the belief: what is handed out next may be inaccessible.
-/
namespace ServiceVm

namespace Memory

variable {m m' : Memory} {amount start : Nat}

/-- Whether the pages of a range can all be written. -/
def Mapped (m : Memory) (start stop : Nat) : Prop := ∀ k, Touches start stop k → m.access k = .readWrite

/-! ## One call -/

theorem sbrk_asked (m : Memory) (asked : 0 < amount) :
    m.sbrk amount = (0, m) ∨
      (m.heapPointer + amount ≤ addressSpace ∧
        m.sbrk amount = (m.heapPointer + amount,
          { m.growHeap amount with heapPointer := m.heapPointer + amount })) := by
  rw [sbrk_eq, if_neg (Nat.ne_of_gt asked)]
  by_cases leaves : addressSpace < m.heapPointer + amount
  · exact .inl (if_pos leaves)
  · exact .inr ⟨Nat.le_of_not_lt leaves, if_neg leaves⟩

theorem sbrk_refused (asked : 0 < amount) (refused : (m.sbrk amount).1 = 0) : (m.sbrk amount).2 = m := by
  rcases m.sbrk_asked asked with none | ⟨-, grown⟩
  · rw [none]
  · rw [grown] at refused
    dsimp only at refused
    omega

theorem access_sbrk_same (stays : ¬m.HeapGrows amount) (k : Nat) : (m.sbrk amount).2.access k = m.access k := by
  rcases m.sbrk_cases amount with same | grown
  · rw [same]
  · rw [grown]
    exact (m.access_growHeap amount k).trans (if_neg fun both => stays both.1)

theorem Mapped.sbrk {stop : Nat} (mapped : m.Mapped start stop) (amount : Nat) :
    (m.sbrk amount).2.Mapped start stop := by
  intro k touched
  rcases m.access_sbrk_cases amount k with kept | ⟨now, -⟩
  · rw [kept, mapped k touched]
  · exact now

/-- What is handed out can be written iff the end of the heap has left its page, or this page could be
written before. -/
theorem mapped_sbrk_iff (asked : 0 < amount) (fits : m.heapPointer + amount ≤ addressSpace) :
    (m.sbrk amount).2.Mapped m.heapPointer (m.heapPointer + amount) ↔
      (pageOf m.heapPointer + 1) * pageSize < m.heapPointer + amount ∨
        m.access (pageOf m.heapPointer) = .readWrite := by
  have here : Touches m.heapPointer (m.heapPointer + amount) (pageOf m.heapPointer) :=
    ⟨m.heapPointer, Nat.le_refl _, by omega, rfl⟩
  by_cases leaves : (pageOf m.heapPointer + 1) * pageSize < m.heapPointer + amount
  · simp only [leaves, true_or, iff_true]
    exact fun k touched => access_sbrk ⟨Nat.ne_of_gt asked, fits, leaves⟩ touched
  · have rights := access_sbrk_same (m := m) (fun grows => leaves grows.2.2) (pageOf m.heapPointer)
    simp only [leaves, false_or, ← rights]
    -- The heap still ends on its page, so no other page is touched.
    refine ⟨fun mapped => mapped _ here, fun writeable k touched => ?_⟩
    have only : k = pageOf m.heapPointer := by
      obtain ⟨a, above, below, rfl⟩ := touched
      refine Nat.le_antisymm (Nat.lt_succ_iff.mp ?_) (Nat.div_le_div_right above)
      exact (Nat.div_lt_iff_lt_mul (by decide : 0 < pageSize)).mpr
        (show a < (pageOf m.heapPointer + 1) * pageSize by omega)
    rw [only, writeable]

/-- What a call that is answered does. -/
structure Handed (m : Memory) (amount : Nat) : Prop where
  answer : (m.sbrk amount).1 = m.heapPointer + amount
  heapPointer : (m.sbrk amount).2.heapPointer = (m.sbrk amount).1
  bytes : ∀ a, (m.sbrk amount).2.byte a = m.byte a
  others : ∀ k, ¬Touches m.heapPointer (m.sbrk amount).1 k → (m.sbrk amount).2.access k = m.access k
  mapped : (m.sbrk amount).2.Mapped ((m.sbrk amount).1 - amount) (m.sbrk amount).1 ↔
    (pageOf m.heapPointer + 1) * pageSize < (m.sbrk amount).1 ∨
      m.access (pageOf m.heapPointer) = .readWrite

theorem handed_of_answered (asked : 0 < amount) (answered : (m.sbrk amount).1 ≠ 0) : m.Handed amount := by
  rcases m.sbrk_asked asked with none | ⟨fits, grown⟩
  · rw [none] at answered
    contradiction
  have answer : (m.sbrk amount).1 = m.heapPointer + amount := congrArg Prod.fst grown
  have heapPointer : (m.sbrk amount).2.heapPointer = m.heapPointer + amount := by rw [grown]
  refine ⟨answer, heapPointer.trans answer.symm, m.byte_sbrk amount, fun k apart => ?_, ?_⟩
  · rcases m.access_sbrk_cases amount k with kept | ⟨-, touched⟩
    · exact kept
    · rw [answer, ← heapPointer] at apart
      exact absurd touched apart
  · rw [answer, Nat.add_sub_cancel]
    exact mapped_sbrk_iff asked fits

/-! ## Many calls -/

/-- From `start` to its end, and on the page where it ends, the heap can be written. -/
structure HeapMapped (start : Nat) (m : Memory) : Prop where
  above : start ≤ m.heapPointer
  mapped : m.Mapped start (m.heapPointer + 1)

theorem HeapMapped.mapped_sbrk (heap : HeapMapped start m) (asked : 0 < amount)
    (answered : (m.sbrk amount).1 ≠ 0) :
    (m.sbrk amount).2.Mapped ((m.sbrk amount).1 - amount) (m.sbrk amount).1 :=
  (handed_of_answered asked answered).mapped.mpr
    (.inr (heap.mapped _ ⟨m.heapPointer, heap.above, Nat.lt_succ_self _, rfl⟩))

theorem HeapMapped.sbrk (heap : HeapMapped start m) (amount : Nat)
    (inside : (m.sbrk amount).2.heapPointer = start ∨ ¬pageSize ∣ (m.sbrk amount).2.heapPointer) :
    HeapMapped start (m.sbrk amount).2 := by
  rcases Nat.eq_zero_or_pos amount with rfl | asked
  · exact heap
  by_cases answered : (m.sbrk amount).1 = 0
  · rw [sbrk_refused asked answered]
    exact heap
  have handed := handed_of_answered asked answered
  have above := heap.above
  have pointer : (m.sbrk amount).2.heapPointer = m.heapPointer + amount := handed.heapPointer.trans handed.answer
  rw [pointer] at inside
  have partly : ¬pageSize ∣ m.heapPointer + amount := inside.resolve_left (by omega)
  refine ⟨by omega, fun k touched => ?_⟩
  rw [pointer] at touched
  obtain ⟨a, low, high, rfl⟩ := touched
  by_cases old : a ≤ m.heapPointer
  · exact heap.mapped.sbrk amount _ ⟨a, low, by omega, rfl⟩
  -- The last page is also that of the byte before the end.
  have last : pageOf (m.heapPointer + amount) = pageOf (m.heapPointer + amount - 1) := by
    simp only [pageOf, pageSize, Nat.dvd_iff_mod_eq_zero] at partly ⊢
    omega
  refine heap.mapped_sbrk asked answered _ ?_
  rw [handed.answer, Nat.add_sub_cancel]
  by_cases final : a = m.heapPointer + amount
  · rw [final, last]
    exact ⟨_, by omega, by omega, rfl⟩
  · exact ⟨a, by omega, by omega, rfl⟩

theorem HeapMapped.used (heap : HeapMapped start m) (used : m.Used m')
    (inside : m'.heapPointer = start ∨ ¬pageSize ∣ m'.heapPointer) : HeapMapped start m' := by
  cases used with
  | same => exact heap
  | written place data _ =>
    refine ⟨by rw [heapPointer_write]; exact heap.above, fun k touched => ?_⟩
    rw [heapPointer_write] at touched
    rw [access_write, heap.mapped k touched]
  | grown amount => exact heap.sbrk amount inside

end Memory

/-! ## Guests -/

namespace Guest

variable {config : Config} {g g' : Guest} {exit : Exit}

def heapEnd (g : Guest) : Nat := g.machine.cpu.memory.heapPointer

/-- A guest that never leaves the end of its heap between two pages has all of its heap mapped. -/
theorem Visits.heapMapped (loaded : Memory.HeapMapped g.heapEnd g.machine.cpu.memory)
    (inside : ∀ exit g', g.Visits config exit g' → g'.heapEnd = g.heapEnd ∨ ¬pageSize ∣ g'.heapEnd)
    (visited : g.Visits config exit g') : Memory.HeapMapped g.heapEnd g'.machine.cpu.memory := by
  induction visited with
  | start => exact loaded
  | @step last before ih =>
    exact ih.used (last.machine.step_memory config.gasMode).used (inside _ _ before.step)
  | @call last id before ih =>
    exact ih.used (last.dispatch_spec config id).memory (inside _ _ before.call)

end Guest

theorem imageGuest?_heapMapped {data argument : Bytes} {pc : UInt32} {gas : UInt64} {context : HostContext}
    {g : Guest} (loads : imageGuest? data pc gas argument context = some g) :
    Memory.HeapMapped g.heapEnd g.machine.cpu.memory := by
  obtain ⟨image, fits, -, -, program, -, rfl⟩ := imageGuest?_eq_some loads
  have order := fits.ordered.data
  have holds : image.readWriteSegment.Holds (image.layout argument) :=
    (fits.laidOut_layout argument).holds _ (by simp [Image.segments])
  refine ⟨Nat.le_refl _, ?_⟩
  rintro k ⟨a, low, high, rfl⟩
  simp only [Guest.heapEnd, image.heapPointer_layout argument] at low high
  obtain rfl : a = image.heapStart := by omega
  exact (holds image.heapStart ⟨by omega, Nat.lt_add_of_pos_right (by decide)⟩).1

/-! ## Guests that ask for memory -/

/-- An image without data. Its heap starts on the only page that is mapped for it. -/
def bareImage (blob : Bytes) : Image where
  readOnly := #[]
  readWrite := #[]
  heapPages := 0
  stackSize := 0
  blob := blob

def bareGuest (program : Program) (blob : Bytes) : Guest where
  machine := ⟨program, ⟨0, Image.entryRegisters #[], (bareImage blob).layout #[]⟩, 100, {}⟩
  context := .refinement {}

def choosingGuest (program : Program) (blob : Bytes) (amount : UInt64) : Guest :=
  (bareGuest program blob).withMachine
    ⟨program, ⟨4, (Image.entryRegisters #[]).put Reg.r9 amount, (bareImage blob).layout #[]⟩,
      100 - instructionGas, {}⟩

def askingGuest (program : Program) (blob : Bytes) (amount : UInt64) : Guest :=
  let answer := ((bareImage blob).layout #[]).sbrk amount.toNat
  let registers := ((Image.entryRegisters #[]).put Reg.r9 amount).put Reg.r10 (UInt64.ofNat answer.1)
  (bareGuest program blob).withMachine
    ⟨program, ⟨6, registers, answer.2⟩, 100 - instructionGas - instructionGas, {}⟩

/-- Whether code begins by choosing an amount and asking for it. -/
structure Program.AsksFor (program : Program) (amount : UInt64) : Prop where
  chooses : program.fetch? 0 = some ⟨.loadImm Reg.r9 amount, 3⟩
  asks : program.fetch? 4 = some ⟨.sbrk Reg.r10 Reg.r9, 1⟩

section Asking

variable {program : Program} {blob : Bytes} {amount : UInt64}

theorem bareImage_fits (short : blob.size < Nat.pow 256 4) : (bareImage blob).Fits where
  readOnly := show 0 < Nat.pow 256 3 by decide
  readWrite := show 0 < Nat.pow 256 3 by decide
  heapPages := show 0 < Nat.pow 256 2 by decide
  stackSize := show 0 < Nat.pow 256 3 by decide
  blob := short

theorem bareGuest_loads (short : blob.size < Nat.pow 256 4) (built : Program.ofBlob blob = .ok program) :
    imageGuest? (bareImage blob).encode 0 100 #[] (.refinement {}) = some (bareGuest program blob) :=
  imageGuest?_encode (bareImage_fits short) (by decide) built

theorem heapPointer_bareImage (blob : Bytes) : ((bareImage blob).layout #[]).heapPointer = 0x20000 :=
  ((bareImage blob).heapPointer_layout #[]).trans (show (bareImage #[]).heapStart = 0x20000 by decide)

theorem heapEnd_askingGuest (asked : amount.toNat ≠ 0) (fits : 0x20000 + amount.toNat ≤ addressSpace) :
    (askingGuest program blob amount).heapEnd = 0x20000 + amount.toNat := by
  change (((bareImage blob).layout #[]).sbrk amount.toNat).2.heapPointer = _
  rw [Memory.sbrk_eq, if_neg asked, heapPointer_bareImage, if_neg (Nat.not_lt.mpr fits)]

theorem bareGuest_step (asking : program.AsksFor amount) :
    (bareGuest program blob).machine.step .perInstruction =
      (.continue, (choosingGuest program blob amount).machine) := by
  have stepped : (bareGuest program blob).machine.cpu.step program =
      (.continue, (choosingGuest program blob amount).machine.cpu) := by
    simp only [bareGuest, Cpu.step, asking.chooses, Instr.exec]
    rfl
  have funded : instructionGas ≤ (bareGuest program blob).machine.gas := show (1 : UInt64) ≤ 100 by decide
  exact Machine.step_perInstruction funded stepped

theorem choosingGuest_step (asking : program.AsksFor amount) :
    (choosingGuest program blob amount).machine.step .perInstruction =
      (.continue, (askingGuest program blob amount).machine) := by
  have stepped : (choosingGuest program blob amount).machine.cpu.step program =
      (.continue, (askingGuest program blob amount).machine.cpu) := by
    simp only [choosingGuest, Guest.withMachine, Cpu.step, asking.asks, Instr.exec, RegFile.get_put]
    rfl
  have funded : instructionGas ≤ (choosingGuest program blob amount).machine.gas :=
    show (1 : UInt64) ≤ 100 - 1 by decide
  exact Machine.step_perInstruction funded stepped

theorem askingGuest_step (stops : program.fetch? 6 = some ⟨.trap, 0⟩) :
    (askingGuest program blob amount).machine.step .perInstruction =
      (.panic, { (askingGuest program blob amount).machine with
        gas := (askingGuest program blob amount).machine.gas - instructionGas }) := by
  have stepped : (askingGuest program blob amount).machine.cpu.step program =
      (.panic, (askingGuest program blob amount).machine.cpu) := by
    simp only [askingGuest, Guest.withMachine, Cpu.step, stops, Instr.exec]
  have funded : instructionGas ≤ (askingGuest program blob amount).machine.gas :=
    show (1 : UInt64) ≤ 100 - 1 - 1 by decide
  exact Machine.step_perInstruction funded stepped

theorem bareGuest_visits_asking (asking : program.AsksFor amount) :
    (bareGuest program blob).Visits {} .continue (askingGuest program blob amount) := by
  have chosen : (bareGuest program blob).Visits {} .continue (choosingGuest program blob amount) :=
    Guest.Visits.start.step_machine (bareGuest_step asking)
  exact chosen.step_machine (choosingGuest_step asking)

/-- All that such a guest visits if it then stops. -/
theorem bareGuest_visits (asking : program.AsksFor amount) (stops : program.fetch? 6 = some ⟨.trap, 0⟩)
    {exit : Exit} {g : Guest} (visited : (bareGuest program blob).Visits {} exit g) :
    exit = .continue ∧ g = bareGuest program blob ∨
    exit = .continue ∧ g = choosingGuest program blob amount ∨
    exit = .continue ∧ g = askingGuest program blob amount ∨
    exit = .panic ∧ g.heapEnd = (askingGuest program blob amount).heapEnd := by
  induction visited with
  | start => exact .inl ⟨rfl, rfl⟩
  | step _ ih =>
    obtain ⟨-, rfl⟩ | ⟨-, rfl⟩ | ⟨-, rfl⟩ | ⟨panics, -⟩ := ih
    · rw [bareGuest_step asking]
      exact .inr (.inl ⟨rfl, rfl⟩)
    · rw [choosingGuest_step asking]
      exact .inr (.inr (.inl ⟨rfl, rfl⟩))
    · rw [askingGuest_step stops]
      exact .inr (.inr (.inr ⟨rfl, rfl⟩))
    · contradiction
  | call _ ih => simp at ih

end Asking

def modestProgram : Program :=
  .ofCode #[51, 9, 100, 0, 101, 154, 0] #[true, false, false, false, true, false, true] #[] 0

def modestBlob : Bytes := #[0, 0, 7, 51, 9, 100, 0, 101, 154, 0, 81]

theorem modestProgram_asks : modestProgram.AsksFor 100 where
  chooses := by with_unfolding_all rfl
  asks := by with_unfolding_all rfl

/-- Code that asks for one page, then for one byte, and writes to this byte. -/
def fillingProgram : Program :=
  .ofCode #[51, 9, 0, 16, 101, 154, 51, 9, 1, 101, 154, 120, 169, 255, 50, 0]
    #[true, false, false, false, true, false, true, false, false, true, false, true, false, false, true,
      false] #[] 0

def fillingBlob : Bytes :=
  #[0, 0, 16, 51, 9, 0, 16, 101, 154, 51, 9, 1, 101, 154, 120, 169, 255, 50, 0, 81, 74]

theorem fillingProgram_asks : fillingProgram.AsksFor 4096 where
  chooses := by with_unfolding_all rfl
  asks := by with_unfolding_all rfl

/-! ## What guests are handed -/

/-- Growth of the heap. In every state that a guest visits, a call for more memory that answers 0 changes
nothing. Any other call moves the end of the heap to the number it answers, keeps all bytes and the rights
of all other pages, and leaves what it hands out writeable iff the end of the heap has left its page or
this page could be written before. A guest that never leaves the end of its heap between two pages can
write to all of its heap, however it has asked for it. -/
theorem heap_hands_out_pages (config : Config) (data : Bytes) (pc : UInt32) (gas : UInt64)
    (argument : Bytes) (context : HostContext) (g : Guest)
    (loads : imageGuest? data pc gas argument context = some g) :
    (∀ exit g', g.Visits config exit g' → ∀ amount, 0 < amount →
      ((g'.machine.cpu.memory.sbrk amount).1 = 0 →
        (g'.machine.cpu.memory.sbrk amount).2 = g'.machine.cpu.memory) ∧
      ((g'.machine.cpu.memory.sbrk amount).1 ≠ 0 → g'.machine.cpu.memory.Handed amount)) ∧
    ((∀ exit g', g.Visits config exit g' → g'.heapEnd = g.heapEnd ∨ ¬pageSize ∣ g'.heapEnd) →
      ∀ exit g', g.Visits config exit g' →
        g'.machine.cpu.memory.Mapped g.heapEnd g'.heapEnd ∧
        ∀ amount, 0 < amount → (g'.machine.cpu.memory.sbrk amount).1 ≠ 0 →
          (g'.machine.cpu.memory.sbrk amount).2.Mapped
            ((g'.machine.cpu.memory.sbrk amount).1 - amount) (g'.machine.cpu.memory.sbrk amount).1) := by
  refine ⟨fun exit g' _ amount asked => ⟨Memory.sbrk_refused asked, Memory.handed_of_answered asked⟩, ?_⟩
  intro inside exit g' visited
  have heap := visited.heapMapped (imageGuest?_heapMapped loads) inside
  refine ⟨fun k ⟨a, low, high, here⟩ => heap.mapped k ⟨a, low, Nat.lt_succ_of_lt high, here⟩, ?_⟩
  exact fun amount asked answered => heap.mapped_sbrk asked answered

theorem modestGuest_gets_page :
    imageGuest? (bareImage modestBlob).encode 0 100 #[] (.refinement {}) =
        some (bareGuest modestProgram modestBlob) ∧
      (bareGuest modestProgram modestBlob).Visits {} .continue (askingGuest modestProgram modestBlob 100) ∧
      (askingGuest modestProgram modestBlob 100).machine.cpu.memory.Mapped 0x20000 0x20064 ∧
      ((askingGuest modestProgram modestBlob 100).machine.cpu.memory.sbrk 4096).1 = 0x21064 ∧
      ((askingGuest modestProgram modestBlob 100).machine.cpu.memory.sbrk 4096).2.Mapped 0x20064 0x21064 := by
  have built : Program.ofBlob modestBlob = .ok modestProgram := by with_unfolding_all rfl
  have stops : modestProgram.fetch? 6 = some ⟨.trap, 0⟩ := by with_unfolding_all rfl
  have loads := bareGuest_loads (by decide) built
  have start : (bareGuest modestProgram modestBlob).heapEnd = 0x20000 := heapPointer_bareImage modestBlob
  have grown : (askingGuest modestProgram modestBlob 100).heapEnd = 0x20064 :=
    heapEnd_askingGuest (by decide) (by decide)
  have partly : ¬pageSize ∣ (askingGuest modestProgram modestBlob 100).heapEnd := by
    rw [grown]
    decide
  have asked : (bareGuest modestProgram modestBlob).Visits {} .continue
      (askingGuest modestProgram modestBlob 100) := bareGuest_visits_asking modestProgram_asks
  have inside : ∀ exit g, (bareGuest modestProgram modestBlob).Visits {} exit g →
      g.heapEnd = (bareGuest modestProgram modestBlob).heapEnd ∨ ¬pageSize ∣ g.heapEnd := by
    intro exit g visited
    obtain ⟨-, rfl⟩ | ⟨-, rfl⟩ | ⟨-, rfl⟩ | ⟨-, same⟩ :=
      bareGuest_visits modestProgram_asks stops visited
    · exact .inl rfl
    · exact .inl rfl
    · exact .inr partly
    · exact .inr (same.symm ▸ partly)
  obtain ⟨heap, more⟩ :=
    (heap_hands_out_pages {} _ 0 100 #[] (.refinement {}) _ loads).2 inside _ _ asked
  have answer : ((askingGuest modestProgram modestBlob 100).machine.cpu.memory.sbrk 4096).1 = 0x21064 := by
    rw [Memory.sbrk_eq, if_neg (by decide), show Memory.heapPointer _ = _ from grown, if_neg (by decide)]
  have got := more 4096 (by decide) (by rw [answer]; decide)
  rw [answer] at got
  rw [start, grown] at heap
  exact ⟨loads, asked, heap, answer, got⟩

/-- Once its heap ends between two pages, a guest is handed a byte that it cannot write. -/
theorem heap_hands_out_unmapped_page :
    imageGuest? (bareImage fillingBlob).encode 0 100 #[] (.refinement {}) =
        some (bareGuest fillingProgram fillingBlob) ∧
      (bareGuest fillingProgram fillingBlob).Visits {} .continue (askingGuest fillingProgram fillingBlob 4096) ∧
      ((askingGuest fillingProgram fillingBlob 4096).machine.cpu.memory.sbrk 1).1 = 0x21001 ∧
      ((askingGuest fillingProgram fillingBlob 4096).machine.cpu.memory.sbrk 1).2.access (pageOf 0x21000) =
        .none := by
  have built : Program.ofBlob fillingBlob = .ok fillingProgram := by with_unfolding_all rfl
  have grown : (askingGuest fillingProgram fillingBlob 4096).machine.cpu.memory.heapPointer = 0x21000 :=
    heapEnd_askingGuest (by decide) (by decide)
  have answer : ((askingGuest fillingProgram fillingBlob 4096).machine.cpu.memory.sbrk 1).1 = 0x21001 := by
    rw [Memory.sbrk_eq, if_neg (by decide), grown, if_neg (by decide)]
  have first : ¬((bareImage fillingBlob).layout #[]).HeapGrows 4096 := by
    rw [Memory.HeapGrows, heapPointer_bareImage]
    decide
  have second : ¬(askingGuest fillingProgram fillingBlob 4096).machine.cpu.memory.HeapGrows 1 := by
    rw [Memory.HeapGrows, grown]
    decide
  refine ⟨bareGuest_loads (by decide) built, bareGuest_visits_asking fillingProgram_asks, answer, ?_⟩
  -- Neither call maps a page, and the image has none there.
  rw [Memory.access_sbrk_same second]
  refine (Memory.access_sbrk_same first 0x21).trans ?_
  exact (((bareImage_fits (by decide)).laidOut_layout #[]).elsewhere 0x21000 (by decide)).1

end ServiceVm
