import ServiceVm.Proofs.Host.Permission

/-!
# Slices of reported values

Five calls report a value and write the slice of it that the guest asks for. However large the offset and
the length are, the slice is cut to the value; a slice with bytes is written to exactly its range or the
guest panics, and register 7 says how long the whole value is. So a guest can collect a value that it has
no room to ask for at once: windows that follow each other in the value and in memory add up to it.
-/
namespace ServiceVm

theorem Slice.first_add_count_le (slice : Slice) : slice.first + slice.count ≤ slice.value.size := by
  have first : slice.first ≤ slice.value.size := Nat.min_le_right _ _
  have count : slice.count ≤ slice.value.size - slice.first := Nat.min_le_right _ _
  omega

namespace HostState

variable {s s' : HostState} {slice : Slice}

/-- Only register 7 and the memory may differ. -/
structure Agrees (s s' : HostState) : Prop where
  registers : ∀ r, r ≠ Reg.r7 → s'.registers.get r = s.registers.get r
  gas : s'.gas = s.gas
  context : s'.context = s.context

/-- Register 7 holds `answer`, and nothing else differs. -/
structure Replied (s : HostState) (answer : UInt64) (s' : HostState) : Prop extends Agrees s s' where
  answer : s'.r7 = answer
  memory : s'.memory = s.memory

/-- The bytes of the slice are in its range, register 7 holds the size of the whole value, and nothing else
differs. -/
structure Delivered (s : HostState) (slice : Slice) (s' : HostState) : Prop extends Agrees s s' where
  answer : s'.r7 = UInt64.ofNat slice.value.size
  written : ∀ i < slice.count,
    slice.value[slice.first + i]? = some (s'.memory.byte (slice.output.toNat + i))
  unwritten : ∀ a, a < slice.output.toNat ∨ slice.output.toNat + slice.count ≤ a →
    s'.memory.byte a = s.memory.byte a
  access : ∀ k, s'.memory.access k = s.memory.access k
  heapPointer : s'.memory.heapPointer = s.memory.heapPointer

/-- The exit and the state after a slice was to be written. -/
def deliver (s : HostState) (slice : Slice) : Exit × HostState :=
  ((Host.writeSlice slice.value slice.output slice.offset slice.len).perform s).settle

theorem get_reply (s : HostState) (answer : UInt64) {r : Reg} (other : r ≠ Reg.r7) :
    (s.reply answer).registers.get r = s.registers.get r := by
  rw [reply, RegFile.get_put, if_neg other.symm]

theorem replied_reply (s : HostState) (answer : UInt64) : s.Replied answer (s.reply answer) where
  registers _ other := s.get_reply answer other
  gas := rfl
  context := rfl
  answer := s.r7_reply answer
  memory := rfl

theorem Replied.delivered (replied : s.Replied (UInt64.ofNat slice.value.size) s') (empty : slice.count = 0) :
    s.Delivered slice s' where
  toAgrees := replied.toAgrees
  answer := replied.answer
  written i below := by omega
  unwritten a _ := by rw [replied.memory]
  access k := by rw [replied.memory]
  heapPointer := by rw [replied.memory]

theorem delivered_write (nonempty : 0 < slice.count)
    (writeable : s.memory.isWriteable slice.output.toNat slice.count = true) :
    s.Delivered slice
      (({ s with memory := s.memory.write slice.output.toNat slice.bytes } : HostState).reply
        (UInt64.ofNat slice.value.size)) where
  registers _ other := get_reply _ _ other
  gas := rfl
  context := rfl
  answer := r7_reply _ _
  access k := s.memory.access_write _ _ k
  heapPointer := s.memory.heapPointer_write _ _
  written i below := by
    have inside := slice.first_add_count_le
    have room : slice.output.toNat + slice.count ≤ addressSpace := by
      rcases (s.memory.isWriteable_iff _ _).mp writeable with empty | ⟨room, -⟩
      · omega
      · exact room
    change _ = some ((s.memory.write slice.output.toNat slice.bytes).byte _)
    rw [Memory.byte_write, slice.size_bytes, if_pos (by omega), Nat.add_sub_cancel_left, Slice.bytes,
      Array.getD_eq_getD_getElem?, Array.getElem?_extract, if_pos (by omega),
      Array.getElem?_eq_getElem (by omega), Option.getD_some]
  unwritten a outside := by
    change (s.memory.write slice.output.toNat slice.bytes).byte a = _
    rw [Memory.byte_write, slice.size_bytes, if_neg (by omega)]

theorem deliver_of_empty (empty : slice.count = 0) :
    s.deliver slice = (.continue, s.reply (UInt64.ofNat slice.value.size)) := by
  rw [deliver, perform_writeSlice, if_pos empty, HostResult.settle]

theorem deliver_of_writeable (nonempty : 0 < slice.count)
    (writeable : s.memory.isWriteable slice.output.toNat slice.count = true) :
    s.deliver slice =
      (.continue, ({ s with memory := s.memory.write slice.output.toNat slice.bytes } : HostState).reply
        (UInt64.ofNat slice.value.size)) := by
  rw [deliver, perform_writeSlice, if_neg (Nat.ne_of_gt nonempty), if_pos writeable, HostResult.settle]

theorem deliver_of_refused (nonempty : 0 < slice.count)
    (refused : s.memory.isWriteable slice.output.toNat slice.count = false) :
    s.deliver slice = (.panic, s.reply Refusal.oob.code) := by
  rw [deliver, perform_writeSlice, if_neg (Nat.ne_of_gt nonempty), refused]
  rfl

theorem delivered_of_accepted (accepted : (s.deliver slice).1 = .continue) :
    s.Delivered slice (s.deliver slice).2 := by
  rcases Nat.eq_zero_or_pos slice.count with empty | nonempty
  · rw [deliver_of_empty empty]
    exact (s.replied_reply _).delivered empty
  · cases writeable : s.memory.isWriteable slice.output.toNat slice.count with
    | true =>
      rw [deliver_of_writeable nonempty writeable]
      exact delivered_write nonempty writeable
    | false =>
      rw [deliver_of_refused nonempty writeable] at accepted
      contradiction

end HostState

/-! ## Calls that report a value -/

namespace HostCall

open HostAction

variable {config : Config} {call : HostCall}

theorem reports_or_refused (config : Config) (s : HostState) (reports : call ∈ reporting) :
    (∃ slice, call.Reports config s slice) ∨ ∃ refusal, call.result config s = .error refusal s := by
  cases done : call.result config s with
  | ok s' =>
    obtain ⟨slice, reports, -⟩ := Host.reports_of_ok reports done
    exact .inl ⟨slice, reports⟩
  | error refusal s' =>
    obtain rfl := state_of_result_error done
    exact .inr ⟨refusal, rfl⟩

end HostCall

namespace Guest

variable {config : Config} {g g' : Guest} {id : UInt32} {call : HostCall} {slice : Slice}

theorem dispatch_of_reports (granted : g.granted? id = some call)
    (reports : call.Reports config (g.callState id) slice) :
    g.dispatch config id =
      (((g.callState id).deliver slice).1, (g.charged id).resume ((g.callState id).deliver slice).2) := by
  obtain ⟨enough, permitted⟩ := granted?_eq_some granted
  rw [dispatch_eq_execute permitted enough, execute_eq, ← callState, reports.result_eq]
  rfl

/-! ## Collecting a value -/

/-- A guest collects a value at `place`: it asks for windows that follow each other in the value and in
memory, whatever their lengths and whichever call reports the value, and its host accepts them. Between its
calls it may do anything that leaves the bytes it has collected alone. The number says how many there are. -/
inductive Collects (config : Config) (value : Bytes) (place : Nat) (g : Guest) : Nat → Guest → Prop where
  | start : Collects config value place g 0 g
  | window {taken : Nat} {last : Guest} {id : UInt32} {call : HostCall} {output offset len : UInt64} :
      Collects config value place g taken last → last.granted? id = some call →
      call.Reports config (last.callState id) ⟨value, output, offset, len⟩ →
      output.toNat = place + taken → offset.toNat = taken → (last.dispatch config id).1 = .continue →
      Collects config value place g (taken + Slice.count ⟨value, output, offset, len⟩)
        (last.dispatch config id).2
  | other {taken : Nat} {last next : Guest} : Collects config value place g taken last →
      (∀ a, place ≤ a → a < place + taken →
        next.machine.cpu.memory.byte a = last.machine.cpu.memory.byte a) →
      Collects config value place g taken next

/-- The first bytes of the value are at `place`. -/
structure Holds (g : Guest) (value : Bytes) (place taken : Nat) : Prop where
  inside : taken ≤ value.size
  bytes : ∀ i < taken, value[i]? = some (g.machine.cpu.memory.byte (place + i))

theorem Holds.window {value : Bytes} {place taken : Nat} {output offset len : UInt64}
    (holds : g.Holds value place taken) (granted : g.granted? id = some call)
    (reports : call.Reports config (g.callState id) ⟨value, output, offset, len⟩)
    (behind : output.toNat = place + taken) (next : offset.toNat = taken)
    (accepted : (g.dispatch config id).1 = .continue) :
    (g.dispatch config id).2.Holds value place (taken + Slice.count ⟨value, output, offset, len⟩) := by
  have first : Slice.first ⟨value, output, offset, len⟩ = taken := by
    rw [Slice.first, next, Nat.min_eq_left holds.inside]
  have inside := Slice.first_add_count_le ⟨value, output, offset, len⟩
  rw [dispatch_of_reports granted reports] at accepted ⊢
  have delivered := HostState.delivered_of_accepted accepted
  refine ⟨by rwa [first] at inside, fun i below => ?_⟩
  -- The range of the window starts right behind the bytes that are there.
  rcases Nat.lt_or_ge i taken with old | new
  · rw [holds.bytes i old]
    exact congrArg some (delivered.unwritten (place + i) (.inl (show _ < output.toNat by omega))).symm
  · have written := delivered.written (i - taken) (by omega)
    rwa [first, behind, Nat.add_sub_cancel' new, Nat.add_assoc, Nat.add_sub_cancel' new] at written

theorem Collects.holds {value : Bytes} {place taken : Nat}
    (collects : g.Collects config value place taken g') :
    g'.Holds value place taken := by
  induction collects with
  | start => exact ⟨Nat.zero_le _, fun i below => absurd below (Nat.not_lt_zero i)⟩
  | window _ granted reports behind next accepted ih => exact ih.window granted reports behind next accepted
  | other _ kept ih =>
    refine ⟨ih.inside, fun i below => ?_⟩
    rw [kept (place + i) (by omega) (by omega)]
    exact ih.bytes i below

theorem Holds.bytesAt_eq {value : Bytes} {place : Nat} (holds : g.Holds value place value.size) :
    g.machine.cpu.memory.bytesAt place value.size = value := by
  refine Array.ext (by rw [Memory.bytesAt, Array.size_ofFn]) fun i _ below => ?_
  have here := holds.bytes i below
  rw [Array.getElem?_eq_getElem below, Option.some.injEq] at here
  rw [here]
  simp only [Memory.bytesAt, Array.getElem_ofFn]

end Guest

/-- Slices are exact. A slice that is empty once it is cut to the value changes register 7 only; one whose
range passes is written to exactly this range; both answer the size of the whole value. Any other slice makes
the guest panic with the code for bad memory in register 7 and everything else as it was. The five calls that
report a value deliver a slice in this way, or have none and are refused. A guest that collects all of a
value window by window ends up with exactly that value in its memory. -/
theorem slices_written_exactly (config : Config) :
    (∀ (s : HostState) (slice : Slice),
      (slice.count = 0 →
        (s.deliver slice).1 = .continue ∧
          s.Replied (UInt64.ofNat slice.value.size) (s.deliver slice).2) ∧
      (0 < slice.count → s.memory.isWriteable slice.output.toNat slice.count = true →
        (s.deliver slice).1 = .continue ∧ s.Delivered slice (s.deliver slice).2) ∧
      (0 < slice.count → s.memory.isWriteable slice.output.toNat slice.count = false →
        (s.deliver slice).1 = .panic ∧ s.Replied Refusal.oob.code (s.deliver slice).2)) ∧
    (∀ (g : Guest) (id : UInt32), ∀ call ∈ HostCall.reporting, g.granted? id = some call →
      (∃ slice, call.Reports config (g.callState id) slice ∧
        g.dispatch config id =
          (((g.callState id).deliver slice).1,
            (g.charged id).resume ((g.callState id).deliver slice).2)) ∨
      ∃ refusal : Refusal, (∀ slice, ¬ call.Reports config (g.callState id) slice) ∧
        g.Answered config id refusal.exit refusal.code) ∧
    ∀ (value : Bytes) (place : Nat) (g g' : Guest), g.Collects config value place value.size g' →
      g'.machine.cpu.memory.bytesAt place value.size = value := by
  refine ⟨fun s slice => ⟨?_, ?_, ?_⟩, ?_, ?_⟩
  · intro empty
    rw [HostState.deliver_of_empty empty]
    exact ⟨rfl, s.replied_reply _⟩
  · intro nonempty writeable
    rw [HostState.deliver_of_writeable nonempty writeable]
    exact ⟨rfl, HostState.delivered_write nonempty writeable⟩
  · intro nonempty refused
    rw [HostState.deliver_of_refused nonempty refused]
    exact ⟨rfl, s.replied_reply _⟩
  · intro g id call member granted
    by_cases reported : ∃ slice, call.Reports config (g.callState id) slice
    · obtain ⟨slice, reports⟩ := reported
      exact .inl ⟨slice, reports, Guest.dispatch_of_reports granted reports⟩
    · obtain ⟨refusal, refused⟩ :=
        (HostCall.reports_or_refused config (g.callState id) member).resolve_left reported
      exact .inr ⟨refusal, not_exists.mp reported, Guest.answered_of_refusal granted refused⟩
  · intro value place g g' collects
    exact collects.holds.bytesAt_eq

/-- An authorizer that wants a window of the authorization of its package, which is three bytes long. -/
def collectingGuest (memory : Memory) (offset len : UInt64) : Guest where
  machine := ⟨Program.ofCode #[0] #[true] #[] 0,
    ⟨0, (((Registers.zero.put Reg.r7 (0x20ffd + offset)).put Reg.r8 offset).put Reg.r9 len).put Reg.r10 9,
      memory⟩, 100, {}⟩
  context := .authorization ⟨{ authorization := #[1, 2, 3] }, 0⟩

def oneByteCollected : Memory := ((collectingGuest threePages 0 1).dispatch {} 1).2.machine.cpu.memory

/-- It asks for more than the two bytes that are left, which end its page. -/
theorem two_windows_collect :
    ((collectingGuest oneByteCollected 1 7).dispatch {} 1).2.machine.cpu.memory.bytesAt 0x20ffd 3 =
      #[1, 2, 3] := by
  have first : (collectingGuest threePages 0 1).Collects {} #[1, 2, 3] 0x20ffd 1
      ((collectingGuest threePages 0 1).dispatch {} 1).2 :=
    .window .start rfl (.fetch rfl) rfl rfl (by decide +kernel)
  have paused : (collectingGuest threePages 0 1).Collects {} #[1, 2, 3] 0x20ffd 1
      (collectingGuest oneByteCollected 1 7) := first.other fun _ _ _ => rfl
  have second : (collectingGuest threePages 0 1).Collects {} #[1, 2, 3] 0x20ffd 3
      ((collectingGuest oneByteCollected 1 7).dispatch {} 1).2 :=
    .window paused rfl (.fetch rfl) rfl rfl (by decide +kernel)
  exact (slices_written_exactly {}).2.2 #[1, 2, 3] 0x20ffd _ _ second

end ServiceVm
