import ServiceVm.Invocation.Refinement
import ServiceVm.Proofs.Invocation.GasUsed

/-!
# What a refinement exports

A guest that refines an item exports one segment with each call that succeeds. `Guest.exports` lists
these calls along a run, and `RefinementContext.Exported` says what a stretch of the run has exported:
the segments of its calls in order, numbered without a gap from those of earlier items on. The numbers
stay below the limit of a package, so they never wrap around.
-/
namespace ServiceVm

theorem toNat_min (a b : UInt64) : (min a b).toNat = min a.toNat b.toNat := by
  simp only [Std.min_eq_if, UInt64.le_iff_toNat_le, apply_ite UInt64.toNat]

/-- An export that has succeeded: the state it was asked for in, and the reply. -/
structure Export where
  asked : HostState
  answer : UInt64

/-- The bytes that were named, at most a segment of them, and zeros up to a whole segment. -/
def Export.segment (e : Export) : Bytes :=
  (e.asked.memory.bytesAt e.asked.r7.toNat (min e.asked.r8.toNat segmentSize)).resize segmentSize

theorem Export.size_segment (e : Export) : e.segment.size = segmentSize := Bytes.size_resize _ _

namespace RefinementContext

variable {c c' c'' : RefinementContext} {calls later : List Export}

/-- Nothing has been exported yet, or the next segment still gets a number that is at most the limit. -/
def Numbered (c : RefinementContext) : Prop :=
  c.exports.size = 0 ∨ c.exportOffset.toNat + c.exports.size ≤ maxPackageExports

theorem Numbered.lt_size (numbered : c.Numbered) : c.exportOffset.toNat + c.exports.size < UInt64.size := by
  have word : c.exportOffset.toNat < UInt64.size := c.exportOffset.toNat_lt
  have limit : maxPackageExports < UInt64.size := by decide
  rcases numbered with none | few
  · omega
  · omega

theorem Numbered.toNat_index (numbered : c.Numbered) :
    (c.exportOffset + UInt64.ofNat c.exports.size).toNat = c.exportOffset.toNat + c.exports.size := by
  have fits := numbered.lt_size
  rw [UInt64.toNat_add, UInt64.toNat_ofNat_of_lt' (by omega)]
  exact Nat.mod_eq_of_lt fits

/-- From `c` to `c'` the segments of the calls have been exported. Each call was answered with the number
of its segment, and all these numbers are below the limit. -/
structure Exported (c : RefinementContext) (calls : List Export) (c' : RefinementContext) : Prop where
  offset : c'.exportOffset = c.exportOffset
  segments : c'.exports.toList = c.exports.toList ++ calls.map Export.segment
  answers : ∀ k e, calls[k]? = some e → e.answer.toNat = c.exportOffset.toNat + (c.exports.size + k)
  below : calls ≠ [] → c.exportOffset.toNat + c'.exports.size ≤ maxPackageExports

theorem Exported.of_same (offset : c'.exportOffset = c.exportOffset) (exports : c'.exports = c.exports) :
    c.Exported [] c' :=
  ⟨offset, by rw [exports, List.map_nil, List.append_nil], nofun, fun some => absurd rfl some⟩

theorem Exported.size (exported : c.Exported calls c') : c'.exports.size = c.exports.size + calls.length := by
  have lengths := congrArg List.length exported.segments
  rwa [List.length_append, List.length_map, Array.length_toList, Array.length_toList] at lengths

theorem Exported.trans (first : c.Exported calls c') (second : c'.Exported later c'') :
    c.Exported (calls ++ later) c'' where
  offset := second.offset.trans first.offset
  segments := by rw [second.segments, first.segments, List.map_append, List.append_assoc]
  answers k e found := by
    rw [List.getElem?_append] at found
    split at found
    · exact first.answers k e found
    · have answer := second.answers _ e found
      rw [first.offset, first.size] at answer
      omega
  below some := by
    have size := second.size
    by_cases none : later = []
    · subst none
      have few := first.below (by simpa using some)
      rw [List.length_nil] at size
      omega
    · have few := second.below none
      rwa [first.offset] at few

theorem Exported.numbered (exported : c.Exported calls c') (numbered : c.Numbered) : c'.Numbered := by
  have size := exported.size
  rw [Numbered, exported.offset]
  by_cases none : calls = []
  · subst none
    rw [size]
    exact numbered
  · exact .inr (exported.below none)

theorem Served.exported {config : Config} {call : HostCall} (served : c.Served config call c')
    (other : call ≠ .exportSegment) : c.Exported [] c' := by
  cases served with
  | exportSegment => contradiction
  | machine => exact .of_same rfl rfl
  | poke => exact .of_same rfl rfl
  | pages => exact .of_same rfl rfl
  | invoke => exact .of_same rfl rfl
  | expunge => exact .of_same rfl rfl

end RefinementContext

theorem Host.exportSegment_exported {s s' : HostState} {c : RefinementContext}
    (done : exportSegment.perform s = .ok s') (held : s.context = .refinement c) (numbered : c.Numbered) :
    ∃ c', s'.context = .refinement c' ∧ c.Exported [⟨s, s'.r7⟩] c' := by
  simp only [exportSegment, HostAction.perform_get, HostAction.perform_lift_eq_ok,
    HostAction.perform_guard_eq_ok, HostAction.perform_updateRefinement, HostAction.perform_reply_eq_ok,
    HostState.refinement_ok, HostState.mapRefinement_eq held] at done
  obtain ⟨segment, read, found, same, room, rfl⟩ := done
  obtain rfl := HostContext.refinement.inj (held.symm.trans same)
  have bytes := HostState.readBytes_eq_bytesAt read
  rw [toNat_min] at bytes
  have number := numbered.toNat_index
  have free := UInt64.lt_iff_toNat_lt.mp (UInt64.not_le.mp room)
  rw [number] at free
  refine ⟨_, rfl, rfl, ?_, ?_, ?_⟩
  · rw [Array.toList_push, bytes]
    rfl
  · intro k e asked
    obtain ⟨rfl, rfl⟩ : 0 = k ∧ _ = e := by simpa [List.getElem?_singleton, eq_comm] using asked
    dsimp only
    rw [HostState.r7_reply]
    exact number
  · intro _
    rw [Array.size_push]
    exact free

namespace Guest

variable {config : Config} {g g' : Guest} {exit : Exit} {c : RefinementContext}

def exported? (g : Guest) (config : Config) : Option Export :=
  match g.nextCall? config, HostCall.exportSegment.result config (g.asked config .exportSegment) with
  | some .exportSegment, .ok _ =>
    some ⟨g.asked config .exportSegment, (g.turn config).2.machine.cpu.registers.get Reg.r7⟩
  | _, _ => none

/-- The exports that succeed while the guest runs, in order. -/
def exportsFor (config : Config) : (fuel : Nat) → Guest → List Export
  | 0, _ => []
  | fuel + 1, g =>
    (g.exported? config).toList ++
      if (g.turn config).1 = .continue then exportsFor config fuel (g.turn config).2 else []

def exports (g : Guest) (config : Config) : List Export := exportsFor config g.machine.stepBound g

theorem turn_exported (config : Config) (held : g.context = .refinement c) (numbered : c.Numbered) :
    ∃ c', (g.turn config).2.context = .refinement c' ∧ c.Exported (g.exported? config).toList c' := by
  by_cases next : g.nextCall? config = some .exportSegment
  · have turned := turn_of_nextCall? next
    cases done : HostCall.exportSegment.result config (g.asked config .exportSegment) with
    | error refusal s =>
      obtain rfl := HostCall.state_of_result_error done
      rw [done] at turned
      rw [turned, exported?, next, done]
      exact ⟨c, held, .of_same rfl rfl⟩
    | ok s =>
      rw [done] at turned
      obtain ⟨c', after, exported⟩ := Host.exportSegment_exported done held numbered
      rw [exported?, next, done, turned]
      exact ⟨c', after, exported⟩
  · have none : g.exported? config = none := by
      rw [exported?]
      split
      · contradiction
      · rfl
    rw [none]
    rcases g.turn_context config with same | ⟨call, made, served⟩
    · exact ⟨c, same.trans held, .of_same rfl rfl⟩
    · rw [held] at served
      generalize (g.turn config).2.context = after at served
      cases served with
      | observed => exact ⟨c, rfl, .of_same rfl rfl⟩
      | refinement change => exact ⟨_, rfl, change.exported fun same => next (same ▸ made)⟩

theorem runFor_exported (config : Config) (fuel : Nat) (held : g.context = .refinement c) (numbered : c.Numbered) :
    ∃ c', (runFor config fuel g).2.context = .refinement c' ∧ c.Exported (exportsFor config fuel g) c' := by
  induction fuel generalizing g c with
  | zero => exact ⟨c, held, .of_same rfl rfl⟩
  | succ fuel ih =>
    obtain ⟨next, turned, first⟩ := turn_exported config held numbered
    rw [runFor_succ, exportsFor]
    by_cases goesOn : (g.turn config).1 = .continue
    · rw [if_pos goesOn, if_pos goesOn]
      obtain ⟨last, ran, rest⟩ := ih turned (first.numbered numbered)
      exact ⟨last, ran, first.trans rest⟩
    · rw [if_neg goesOn, if_neg goesOn, List.append_nil]
      exact ⟨next, turned, first⟩

theorem Reaches.numbered (held : g.context = .refinement c) (numbered : c.Numbered)
    (reached : Reaches config g exit g') :
    ∃ c', g'.context = .refinement c' ∧ c'.exportOffset = c.exportOffset ∧ c'.Numbered := by
  induction reached with
  | start => exact ⟨c, held, rfl, numbered⟩
  | turn _ ih =>
    obtain ⟨last, before, same, counts⟩ := ih
    obtain ⟨next, turned, exported⟩ := turn_exported config before counts
    exact ⟨next, turned, exported.offset.trans same, exported.numbered counts⟩

end Guest

/-! ## Refinements -/

/-- The guest that a refinement runs: the package has the item, and the service of the item has code
that is not too long and can be loaded. -/
def RefinementContext.guest? (c : RefinementContext) : Option Guest :=
  match c.package.items[c.itemIndex]? with
  | none => none
  | some item =>
    match (c.start item).itemCode? item with
    | none => none
    | some code =>
      if maxServiceCode < code.size then none
      else imageGuest? code 0 item.refineGasLimit ((c.start item).argument item) (.refinement (c.start item))

section Refinement

variable {config : Config} {c : RefinementContext} {item : WorkItem}

theorem RefinementContext.guest?_context {g : Guest} (named : c.package.items[c.itemIndex]? = some item)
    (runs : c.guest? = some g) : g.context = .refinement (c.start item) := by
  simp only [guest?, named] at runs
  split at runs
  · contradiction
  · split at runs
    · contradiction
    · exact imageGuest?_context runs

theorem invokeImage_ok {image argument output : Bytes} {pc : UInt32} {gas : UInt64} {context : HostContext}
    (done : (invokeImage config image pc gas argument context).result = .ok output) :
    ∃ g, imageGuest? image pc gas argument context = some g ∧
      (invokeImage config image pc gas argument context).context = (g.run config).2.context := by
  cases loads : imageGuest? image pc gas argument context with
  | none =>
    rw [invokeImage_none config loads] at done
    contradiction
  | some g => exact ⟨g, rfl, by rw [invokeImage_some config loads]⟩

/-- A refinement fails with as many zero segments as were promised, or its guest halts having exported
that many. -/
theorem refine_cases (config : Config) (named : c.package.items[c.itemIndex]? = some item) :
    (∃ result gasUsed, (∀ output, result ≠ .ok output) ∧ gasUsed ≤ item.refineGasLimit ∧
      refine config c = .failed result gasUsed item.exportCount) ∨
    ∃ g output gasUsed, c.guest? = some g ∧ gasUsed ≤ item.refineGasLimit ∧
      (g.run config).2.context.exports.size = item.exportCount.toNat ∧
      refine config c = ⟨.ok output, gasUsed, (g.run config).2.context.exports⟩ := by
  cases found : (c.start item).itemCode? item with
  | none =>
    refine .inl ⟨.badCode, 0, nofun, UInt64.zero_le, ?_⟩
    simp only [refine, named, found]
  | some code =>
    by_cases long : maxServiceCode < code.size
    · refine .inl ⟨.codeOversize, 0, nofun, UInt64.zero_le, ?_⟩
      simp only [refine, named, found, if_pos long]
    · have guest : c.guest? = imageGuest? code 0 item.refineGasLimit ((c.start item).argument item)
          (.refinement (c.start item)) := by
        simp only [RefinementContext.guest?, named, found, if_neg long]
      have spent := invokeImage_gasUsed_le config code 0 item.refineGasLimit ((c.start item).argument item)
        (.refinement (c.start item))
      have ran (output : Bytes) := @invokeImage_ok config code ((c.start item).argument item) output 0
        item.refineGasLimit (.refinement (c.start item))
      rw [← guest] at ran
      simp only [refine, named, found, if_neg long]
      generalize invokeImage config code 0 item.refineGasLimit _ _ = outcome at ran spent
      obtain ⟨result, gasUsed, context⟩ := outcome
      cases result with
      | ok output =>
        obtain ⟨g, runs, rfl⟩ := ran output rfl
        by_cases promised : (g.run config).2.context.exports.size = item.exportCount.toNat
        · exact .inr ⟨g, output, gasUsed, runs, spent, promised, if_pos promised⟩
        · exact .inl ⟨.badExports, gasUsed, nofun, spent, if_neg promised⟩
      | outOfGas => exact .inl ⟨.outOfGas, gasUsed, nofun, spent, rfl⟩
      | panic => exact .inl ⟨.panic, gasUsed, nofun, spent, rfl⟩

theorem RefinementContext.guest?_exports {g : Guest} (config : Config) (named : c.package.items[c.itemIndex]? = some item)
    (runs : c.guest? = some g) :
    (g.run config).2.context.exports.toList = (g.exports config).map Export.segment ∧
      ∀ k e, (g.exports config)[k]? = some e →
        e.answer.toNat = c.exportOffset.toNat + k ∧ c.exportOffset.toNat + k < maxPackageExports := by
  obtain ⟨c', left, exported⟩ := Guest.runFor_exported config g.machine.stepBound
    (c.guest?_context named runs) (.inl rfl)
  have size : c'.exports.size = (g.exports config).length := exported.size.trans (Nat.zero_add _)
  rw [Guest.run, left]
  refine ⟨exported.segments, fun k e found => ?_⟩
  have answer : e.answer.toNat = c.exportOffset.toNat + (0 + k) := exported.answers k e found
  have place : k < (g.exports config).length := (List.getElem?_eq_some_iff.mp found).1
  have below : c.exportOffset.toNat + c'.exports.size ≤ maxPackageExports :=
    exported.below (List.ne_nil_of_length_pos (Nat.zero_lt_of_lt place))
  omega

theorem refine_of_fields (config : Config) (c : RefinementContext) (exports : Array Bytes)
    (machines : Std.TreeMap UInt64 NestedMachine) (service : ServiceId) (lookupSlot : TimeSlot) :
    refine config { c with exports, machines, service, lookupSlot } = refine config c := rfl

end Refinement

/-- A refinement of an item of its package answers as many segments as the item promised, each of the
size of a segment, and spends no more gas than the item allows. If it succeeds, the segments are those of
the exports that its guest was served, in order: the first of them got the number of the first segment
past those of earlier items, and each later one the next, below the limit of a package. These numbers do
not wrap around in any state of the guest. If the refinement fails, its segments are zeros. What the data
of the refinement say about exports, machines, the service and the time of lookups does not matter. -/
theorem refine_exports_promised (config : Config) (c : RefinementContext) (item : WorkItem)
    (named : c.package.items[c.itemIndex]? = some item) :
    (refine config c).exports.size = item.exportCount.toNat ∧
    (∀ segment ∈ (refine config c).exports, segment.size = 4104) ∧
    (refine config c).gasUsed ≤ item.refineGasLimit ∧
    (∀ output, (refine config c).result = .ok output → ∃ g, c.guest? = some g ∧
      (refine config c).exports.toList = (g.exports config).map Export.segment ∧
      ∀ k e, (g.exports config)[k]? = some e →
        e.answer.toNat = c.exportOffset.toNat + k ∧ c.exportOffset.toNat + k < 3072) ∧
    (∀ g exit g', c.guest? = some g → g.Reaches config exit g' →
      ∃ c', g'.context = .refinement c' ∧ c'.exportOffset = c.exportOffset ∧
        c.exportOffset.toNat + c'.exports.size < 2 ^ 64) ∧
    ((∀ output, (refine config c).result ≠ .ok output) →
      ∀ segment ∈ (refine config c).exports, segment = Bytes.zeros 4104) ∧
    ∀ exports machines service lookupSlot,
      refine config { c with exports, machines, service, lookupSlot } = refine config c := by
  have numbers (g : Guest) (exit : Exit) (g' : Guest) (runs : c.guest? = some g)
      (reached : g.Reaches config exit g') : ∃ c', g'.context = .refinement c' ∧
        c'.exportOffset = c.exportOffset ∧ c.exportOffset.toNat + c'.exports.size < 2 ^ 64 := by
    obtain ⟨c', held, same, numbered⟩ := reached.numbered (c.guest?_context named runs) (.inl rfl)
    have fits := numbered.lt_size
    rw [same] at fits
    exact ⟨c', held, same, fits⟩
  have fields := refine_of_fields config c
  rcases refine_cases config named with
    ⟨result, gasUsed, fails, spent, failed⟩ | ⟨g, output, gasUsed, runs, spent, promised, done⟩
  -- A refinement fails with segments of zeros, whatever its guest has exported by then.
  · have zeros : ∀ segment ∈ (refine config c).exports, segment = Bytes.zeros segmentSize := by
      rw [failed]
      exact fun segment member => (Array.mem_replicate.mp member).2
    refine ⟨?_, ?_, ?_, ?_, numbers, fun _ => zeros, fields⟩
    · rw [failed]
      exact Array.size_replicate
    · intro segment member
      rw [zeros segment member]
      exact Array.size_replicate
    · rw [failed]
      exact spent
    · intro output succeeds
      rw [failed] at succeeds
      exact absurd succeeds (fails output)
  · obtain ⟨segments, answers⟩ := c.guest?_exports config named runs
    rw [show (g.run config).2.context.exports = (refine config c).exports by rw [done]] at segments
    refine ⟨?_, ?_, ?_, fun _ _ => ⟨g, runs, segments, answers⟩, numbers, ?_, fields⟩
    · rw [done]
      exact promised
    · intro segment member
      have listed := Array.mem_def.mp member
      rw [segments] at listed
      obtain ⟨e, -, rfl⟩ := List.mem_map.mp listed
      exact e.size_segment
    · rw [done]
      exact spent
    · intro fails
      exact absurd (congrArg RefinementOutcome.result done) (fails output)

def exportingItem : WorkItem where
  service := 4
  refineGasLimit := 1000
  exportCount := 2

def exportingCode : Bytes := #[0] ++ Image.encode
  { readOnly := #[], readWrite := #[], heapPages := 0, stackSize := 0,
    blob := #[0, 0, 9, 51, 8, 0, 10, 7, 10, 7, 50, 0, 169, 0] }

/-- Earlier items of the package have exported three segments. -/
def exportingContext : RefinementContext where
  package := { items := #[exportingItem] }
  exportOffset := 3
  accounts := (∅ : Accounts).insert 4
    { preimages := (∅ : Std.TreeMap Hash Bytes).insert Hash.zero exportingCode
      requests := (∅ : Std.TreeMap Request History).insert
        ⟨Hash.zero, UInt32.ofNat exportingCode.size⟩ [0] }

theorem exportingContext_numbers :
    (refine {} exportingContext).result = .ok #[] ∧ (refine {} exportingContext).exports.size = 2 ∧
      ∃ g, exportingContext.guest? = some g ∧ (g.exports {}).length = 2 ∧
        ∀ k e, (g.exports {})[k]? = some e → e.answer.toNat = 3 + k := by
  have done : (refine {} exportingContext).result = .ok #[] := by decide +kernel
  obtain ⟨size, -, -, succeeds, -⟩ := refine_exports_promised {} exportingContext exportingItem rfl
  obtain ⟨g, runs, segments, answers⟩ := succeeds #[] done
  have length := congrArg List.length segments
  rw [List.length_map, Array.length_toList, size] at length
  exact ⟨done, size, g, runs, length.symm, fun k e found => (answers k e found).1⟩

end ServiceVm
