import ServiceVm.Proofs.Host.Atomicity
import ServiceVm.Proofs.Host.Nested

/-!
# Rights of the memory that host calls write

A host looks at the first and the last page of a range before it writes there. A call whose range
fails this check is refused and changes nothing; a call whose range passes writes all of it, and does
not look at the pages between the two ends. So bytes of a page that is not writeable can change, but
only strictly between two writeable pages of one range.
-/
namespace ServiceVm

namespace Memory

variable {m : Memory} {start len a : Nat} {data : Bytes}

/-- The range leaves the address space, or has a page that is not writeable where a host looks: at its
ends. A range of one page and a byte has no other pages. -/
def Refuses (m : Memory) (start len : Nat) : Prop :=
  addressSpace < start + len ∨
    ∃ k, Touches start (start + len) k ∧ m.access k ≠ .readWrite ∧
      (k = pageOf start ∨ k = pageOf (start + len - 1) ∨ len ≤ pageSize + 1)

theorem Refuses.isWriteable_eq_false (refuses : m.Refuses start len) (nonempty : 0 < len) :
    m.isWriteable start len = false := by
  refine Bool.eq_false_iff.mpr fun passes => ?_
  rcases (m.isWriteable_iff start len).mp passes with empty | ⟨inRange, first, last⟩
  · omega
  · rcases refuses with leaves | ⟨k, touched, refused, place⟩
    · omega
    · have ends : k = pageOf start ∨ k = pageOf (start + len - 1) := by
        rcases place with atFirst | atLast | short
        · exact .inl atFirst
        · exact .inr atLast
        · have page := (touches_iff _ _ _).mp touched
          simp only [pageOf, pageSize] at page short ⊢
          omega
      rcases ends with rfl | rfl
      · exact refused first
      · exact refused last

/-- The page of the address lies strictly between the ends of the range, which are writeable. -/
structure Between (m : Memory) (start len a : Nat) : Prop where
  first : m.access (pageOf start) = .readWrite
  last : m.access (pageOf (start + len - 1)) = .readWrite
  above : pageOf start < pageOf a
  below : pageOf a < pageOf (start + len - 1)

theorem byte_write_differs (writeable : m.isWriteable start data.size = true)
    (differs : (m.write start data).byte a ≠ m.byte a) :
    m.access (pageOf a) = .readWrite ∨ m.Between start data.size a := by
  rw [byte_write] at differs
  split at differs
  · rename_i written
    rcases (m.isWriteable_iff _ _).mp writeable with empty | ⟨-, first, last⟩
    · omega
    · have low : pageOf start ≤ pageOf a := Nat.div_le_div_right written.1
      have high : pageOf a ≤ pageOf (start + data.size - 1) := Nat.div_le_div_right (by omega)
      rcases Nat.eq_or_lt_of_le low with atFirst | above
      · exact .inl (atFirst ▸ first)
      · rcases Nat.eq_or_lt_of_le high with atLast | below
        · exact .inl (atLast ▸ last)
        · exact .inr ⟨first, last, above, below⟩
  · exact absurd rfl differs

end Memory

theorem Host.poke_byte_differs {s s' : HostState} {c c' : RefinementContext} {handle : UInt64}
    {n n' : NestedMachine} {a : Nat} (done : poke.perform s = .ok s') (context : s.context = .refinement c)
    (after : s'.context = .refinement c') (old : c.machines[handle]? = some n)
    (new : c'.machines[handle]? = some n') (differs : n'.memory.byte a ≠ n.memory.byte a) :
    n.memory.access (pageOf a) = .readWrite ∨ n.memory.Between s.r9.toNat s.r10.toNat a := by
  obtain ⟨data, held, named, read, found, here, writeable, rfl⟩ := poke_ok done
  obtain rfl := HostContext.refinement.inj (found.symm.trans context)
  obtain rfl := HostContext.refinement.inj after
  rcases insert_machine new with ⟨rfl, rfl⟩ | kept
  · obtain rfl := Option.some.inj (here.symm.trans old)
    rw [← (HostState.readBytes_ok read).1]
    exact Memory.byte_write_differs writeable differs
  · exact absurd (by rw [Option.some.inj (kept.symm.trans old)]) differs

theorem Host.poke_refused {s : HostState} {c : RefinementContext} {n : NestedMachine} {data : Bytes}
    (read : s.readBytes s.r8 s.r10 = .ok data) (context : s.context = .refinement c)
    (named : c.machines[s.r7]? = some n) (refused : n.memory.isWriteable s.r9.toNat s.r10.toNat = false) :
    poke.perform s = .error .oob s := by
  simp only [poke, HostAction.perform_get, read, HostState.refinement, context, require, named, refused,
    HostAction.perform_ok]
  rfl

namespace Guest

variable {config : Config} {g g' : Guest} {id : UInt32} {exit : Exit} {call : HostCall}

def callState (g : Guest) (id : UInt32) : HostState := (g.charged id).hostState

/-- The call with the given number ends with `exit`, register 7 holds `answer`, and nothing else has
changed but that the call is paid for. -/
structure Answered (config : Config) (g : Guest) (id : UInt32) (exit : Exit) (answer : UInt64) : Prop where
  exit : (g.dispatch config id).1 = exit
  answer : (g.dispatch config id).2.machine.cpu.registers.get Reg.r7 = answer
  unchanged : g.OnlyReplied id [Reg.r7] (g.dispatch config id).2

theorem answered_of_refusal {refusal : Refusal} {s : HostState} (granted : g.granted? id = some call)
    (refused : call.result config (g.callState id) = .error refusal s) :
    g.Answered config id refusal.exit refusal.code := by
  obtain rfl := HostCall.state_of_result_error refused
  obtain ⟨enough, permitted⟩ := granted?_eq_some granted
  have ended : g.dispatch config id =
      (refusal.exit, (g.charged id).resume ((g.callState id).reply refusal.code)) := by
    rw [dispatch_eq_execute permitted enough, execute_eq, ← callState, refused]
    rfl
  refine ⟨by rw [ended], ?_, ?_⟩
  · rw [ended]
    exact HostState.r7_reply _ _
  · rw [ended]
    exact onlyReplied_reply enough (List.mem_singleton.mpr rfl) _

/-- Bytes of the guest's memory that a call changes are in writeable pages, or strictly between the ends
of the range that the call writes. -/
theorem Dispatch.byte_differs (dispatch : Dispatch config g id exit g') {a : Nat}
    (differs : g'.machine.cpu.memory.byte a ≠ g.machine.cpu.memory.byte a) :
    g.machine.cpu.memory.access (pageOf a) = .readWrite ∨
      ∃ call start len, g.granted? id = some call ∧
        call.Writes config (g.callState id) start len ∧ g.machine.cpu.memory.Between start len a := by
  cases dispatch with
  | unpaid => contradiction
  | unknown => contradiction
  | refused => contradiction
  | @served call s permitted enough done =>
    have served := Host.served (s := g.callState id) (permitted?_eq_some permitted).2 done
    have wrote := served.memory
    generalize memory : s.memory = m at wrote
    cases wrote with
    | nothing => exact absurd (congrArg (Memory.byte · a) memory) differs
    | @bytes start data writes writeable =>
      rw [show ((g.charged id).resume s).machine.cpu.memory = s.memory from rfl, memory] at differs
      rcases Memory.byte_write_differs writeable differs with here | between
      · exact .inl here
      · exact .inr ⟨call, start, data.size, by rw [granted?, if_pos enough, permitted], writes, between⟩

/-- Bytes in the memory of a nested machine that a call changes are in writeable pages, or strictly between
the ends of the range that is copied into it, or the call sets the rights of pages, or it runs the machine,
whose own instructions may make the page writeable. -/
theorem Dispatch.nested_byte_differs (dispatch : Dispatch config g id exit g') {c c' : RefinementContext}
    {handle free : UInt64} {n n' : NestedMachine} {a : Nat} (context : g.context = .refinement c)
    (after : g'.context = .refinement c') (room : c.machines[free]? = none)
    (old : c.machines[handle]? = some n) (new : c'.machines[handle]? = some n')
    (differs : n'.memory.byte a ≠ n.memory.byte a) :
    n.memory.access (pageOf a) = .readWrite ∨ g.granted? id = some .pages ∨
      (g.granted? id = some .poke ∧
        n.memory.Between (g.callState id).r9.toNat (g.callState id).r10.toNat a) ∨
      (g.granted? id = some .invoke ∧ n'.memory.access (pageOf a) = .readWrite) := by
  have unchanged (same : g'.context = g.context) : False := by
    rw [after, context] at same
    obtain rfl := HostContext.refinement.inj same
    exact differs (by rw [Option.some.inj (new.symm.trans old)])
  cases dispatch with
  | unpaid => exact (unchanged rfl).elim
  | unknown => exact (unchanged rfl).elim
  | refused => exact (unchanged rfl).elim
  | @served call s permitted enough done =>
    have granted : g.granted? id = some call := by rw [granted?, if_pos enough, permitted]
    have served := (Host.served (s := g.callState id) (permitted?_eq_some permitted).2 done).context
    have held : (g.callState id).context = .refinement c := context
    have left : s.context = .refinement c' := after
    rw [held, left] at served
    -- The changes that calls make to machines do not tell where a copy goes; its registers do.
    by_cases poked : call = .poke
    · subst poked
      rcases Host.poke_byte_differs done held left old new differs with here | between
      · exact .inl here
      · exact .inr (.inr (.inl ⟨granted, between⟩))
    · cases served with
      | observed => exact (unchanged (by rw [after, context])).elim
      | refinement change =>
        rcases change.nested room old new with same | rfl | rfl | ⟨rfl, worked⟩
        · exact absurd (by rw [same]) differs
        · contradiction
        · exact .inr (.inl granted)
        · exact .inr (.inr (.inr ⟨granted, worked.changed a differs⟩))

end Guest

/-- Host calls respect the rights of memory at the ends of what they write. A call that is about to write a
range of the guest's memory which is refused there panics with the code for bad memory, and a copy into a
nested machine is answered with that code; neither changes anything else. This covers every page of a range
of one page and a byte, such as the block of an `invoke` call. Bytes of the guest's memory change in
writeable pages, and else only strictly between two of them, within the range of the call. So do bytes of
nested machines, but for calls that set the rights of pages, and for what a machine does when it runs: the
pages it changes are writeable once it stops. -/
theorem host_writes_respect_ends (config : Config) (g : Guest) (id : UInt32) :
    (∀ call start len, g.granted? id = some call → call.Writes config (g.callState id) start len → 0 < len →
      g.machine.cpu.memory.Refuses start len → g.Answered config id .panic Refusal.oob.code) ∧
    (∀ (c : RefinementContext) (n : NestedMachine) (data : Bytes), g.granted? id = some .poke →
      g.context = .refinement c → c.machines[(g.callState id).r7]? = some n →
      (g.callState id).readBytes (g.callState id).r8 (g.callState id).r10 = .ok data →
      0 < (g.callState id).r10.toNat →
      n.memory.Refuses (g.callState id).r9.toNat (g.callState id).r10.toNat →
      g.Answered config id .continue Refusal.oob.code) ∧
    (∀ a, (g.dispatch config id).2.machine.cpu.memory.byte a ≠ g.machine.cpu.memory.byte a →
      g.machine.cpu.memory.access (pageOf a) = .readWrite ∨
        ∃ call start len, g.granted? id = some call ∧ call.Writes config (g.callState id) start len ∧
          g.machine.cpu.memory.Between start len a) ∧
    ∀ (c c' : RefinementContext) (handle : UInt64) (n n' : NestedMachine) (a : Nat),
      g.context = .refinement c → (g.dispatch config id).2.context = .refinement c' →
      (∃ free : UInt64, c.machines[free]? = none) → c.machines[handle]? = some n →
      c'.machines[handle]? = some n' → n'.memory.byte a ≠ n.memory.byte a →
      n.memory.access (pageOf a) = .readWrite ∨ g.granted? id = some .pages ∨
        (g.granted? id = some .poke ∧
          n.memory.Between (g.callState id).r9.toNat (g.callState id).r10.toNat a) ∨
        (g.granted? id = some .invoke ∧ n'.memory.access (pageOf a) = .readWrite) := by
  have dispatch := g.dispatch_spec config id
  refine ⟨?_, ?_, fun a differs => dispatch.byte_differs differs, ?_⟩
  · intro call start len granted writes nonempty refuses
    exact Guest.answered_of_refusal granted
      (writes.result_eq_badMemory nonempty (refuses.isWriteable_eq_false nonempty))
  · intro c n data granted context named read nonempty refuses
    exact Guest.answered_of_refusal granted
      (Host.poke_refused (s := g.callState id) read context named
        (refuses.isWriteable_eq_false nonempty))
  · rintro c c' handle n n' a context after ⟨free, room⟩ old new differs
    exact dispatch.nested_byte_differs context after room old new differs

/-! ## A range with a read-only page -/

def threePages : Memory :=
  ((Memory.empty.place 0x20000 0x21000 #[] .readWrite).place 0x21000 0x22000 #[] .readOnly).place
    0x22000 0x23000 #[] .readWrite

theorem access_threePages :
    threePages.access 0x20 = .readWrite ∧ threePages.access 0x21 = .readOnly ∧
      threePages.access 0x22 = .readWrite := by decide +kernel

/-- An authorizer that wants the authorization of its package, a page and two bytes, to be written at
`output`. -/
def fetchingGuest (output : UInt64) : Guest where
  machine := ⟨Program.ofCode #[0] #[true] #[] 0,
    ⟨0, ((Registers.zero.put Reg.r7 output).put Reg.r9 4098).put Reg.r10 9, threePages⟩, 100, {}⟩
  context := .authorization ⟨{ authorization := Array.replicate 4098 7 }, 0⟩

def fetchedSlice (output : UInt64) : Slice := ⟨Array.replicate 4098 7, output, 0, 4098⟩

theorem count_fetchedSlice (output : UInt64) : (fetchedSlice output).count = 4098 := by
  simp [fetchedSlice, Slice.count, Slice.first]

theorem bytes_fetchedSlice (output : UInt64) : (fetchedSlice output).bytes = Array.replicate 4098 7 := by
  simp [fetchedSlice, Slice.bytes, Slice.first, Slice.count]

theorem fetchingGuest_granted (output : UInt64) : (fetchingGuest output).granted? 1 = some .fetch := rfl

theorem fetchingGuest_reports (output : UInt64) :
    HostCall.fetch.Reports {} ((fetchingGuest output).callState 1) (fetchedSlice output) := .fetch rfl

theorem fetchingGuest_writes (output : UInt64) :
    HostCall.fetch.Writes {} ((fetchingGuest output).callState 1) output.toNat 4098 := by
  have writes := HostCall.Writes.slice (fetchingGuest_reports output)
  rw [count_fetchedSlice] at writes
  exact writes

theorem fetchingGuest_served (output : UInt64) (writeable : threePages.isWriteable output.toNat 4098 = true) :
    ((fetchingGuest output).dispatch {} 1).1 = .continue ∧
      ((fetchingGuest output).dispatch {} 1).2.machine.cpu.memory =
        threePages.write output.toNat (Array.replicate 4098 7) := by
  obtain ⟨enough, permitted⟩ := Guest.granted?_eq_some (fetchingGuest_granted output)
  rw [← count_fetchedSlice output] at writeable
  rw [Guest.dispatch_eq_execute permitted enough, Guest.execute_eq, ← Guest.callState,
    (fetchingGuest_reports output).result_eq_ok (by rw [count_fetchedSlice]; decide) writeable,
    bytes_fetchedSlice]
  exact ⟨rfl, rfl⟩

theorem fetchingGuest_refused : (fetchingGuest 0x21000).Answered {} 1 .panic Refusal.oob.code := by
  refine (host_writes_respect_ends {} (fetchingGuest 0x21000) 1).1 .fetch 0x21000 4098
    (fetchingGuest_granted _) (fetchingGuest_writes _) (by decide) (.inr ⟨0x21, by decide, ?_, .inl rfl⟩)
  rw [show (fetchingGuest 0x21000).machine.cpu.memory.access 0x21 = .readOnly from access_threePages.2.1]
  nofun

/-- From the writeable page before it on the call succeeds, and writes to the read-only page. -/
theorem fetch_changes_read_only_page :
    HostCall.fetch.Writes {} ((fetchingGuest 0x20fff).callState 1) 0x20fff 4098 ∧
      Touches 0x20fff (0x20fff + 4098) 0x21 ∧
      (fetchingGuest 0x20fff).machine.cpu.memory.access 0x21 = .readOnly ∧
      ((fetchingGuest 0x20fff).dispatch {} 1).1 = .continue ∧
      (fetchingGuest 0x20fff).machine.cpu.memory.byte 0x21000 = 0 ∧
      ((fetchingGuest 0x20fff).dispatch {} 1).2.machine.cpu.memory.byte 0x21000 = 7 := by
  have writeable : threePages.isWriteable 0x20fff 4098 = true :=
    (threePages.isWriteable_iff _ _).mpr
      (.inr ⟨by decide, access_threePages.1, access_threePages.2.2⟩)
  have before : threePages.byte 0x21000 = 0 := by
    rw [threePages, Memory.byte_place_empty _ _ _ _ rfl, Memory.byte_place_empty _ _ _ _ rfl,
      Memory.byte_place_empty _ _ _ _ rfl]
    rfl
  obtain ⟨goesOn, memory⟩ := fetchingGuest_served 0x20fff writeable
  refine ⟨fetchingGuest_writes _, by decide, access_threePages.2.1, goesOn, before, ?_⟩
  rw [memory, Memory.byte_write, Array.size_replicate, if_pos (by decide)]
  simp

end ServiceVm
