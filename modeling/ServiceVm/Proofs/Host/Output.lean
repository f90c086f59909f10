import ServiceVm.Proofs.Host.Action
import ServiceVm.Proofs.Memory.Pages

/-!
# What calls write to the memory of the guest

Seven calls write to the memory of the guest that makes them. Five of them report a value, of which
the guest asks for a slice; `peek` copies bytes out of a nested machine, and `invoke` puts gas and
registers back where it has found them. `HostCall.Writes` says which range a call is about to write,
before its rights are looked at.
-/
namespace ServiceVm

/-- A value that a call reports, the place it goes to, and the part of it that is asked for. -/
structure Slice where
  value : Bytes
  output : UInt64
  offset : UInt64
  len : UInt64

namespace Slice

def first (slice : Slice) : Nat := min slice.offset.toNat slice.value.size

def count (slice : Slice) : Nat := min slice.len.toNat (slice.value.size - slice.first)

def bytes (slice : Slice) : Bytes := slice.value.extract slice.first (slice.first + slice.count)

theorem size_bytes (slice : Slice) : slice.bytes.size = slice.count := by
  simp only [bytes, Array.size_extract, count, first]
  omega

end Slice

namespace HostCall

/-- The slice that a call reports if it may be written. -/
inductive Reports (config : Config) (s : HostState) : HostCall → Slice → Prop where
  | fetch {value : Bytes} :
      s.context.fetch? config.params s.r10.toNat s.r11.toNat s.r12.toNat = some value →
      Reports config s .fetch ⟨value, s.r7, s.r8, s.r9⟩
  | lookup {account : Account} {hash : Hash} {value : Bytes} : s.context.resolve? s.r7 = some account →
      s.readHash s.r8 = .ok hash → account.preimages[hash]? = some value →
      Reports config s .lookup ⟨value, s.r9, s.r10, s.r11⟩
  | read {account : Account} {key value : Bytes} : s.readBytes s.r8 s.r9 = .ok key →
      s.context.resolve? s.r7 = some account → account.storage[key]? = some value →
      Reports config s .read ⟨value, s.r10, s.r11, s.r12⟩
  | info {account : Account} : s.context.resolve? s.r7 = some account →
      Reports config s .info ⟨account.encodeInfo, s.r8, s.r9, s.r10⟩
  | historicalLookup {c : RefinementContext} {account : Account} {hash : Hash} {value : Bytes} :
      s.readHash s.r8 = .ok hash → s.context = .refinement c →
      c.accounts.resolve? s.r7 c.service = some account → account.lookupAt? c.lookupSlot hash = some value →
      Reports config s .historicalLookup ⟨value, s.r9, s.r10, s.r11⟩

def reporting : List HostCall := [.fetch, .lookup, .read, .info, .historicalLookup]

/-- The range of the guest's memory that a call is about to write. -/
inductive Writes (config : Config) (s : HostState) : HostCall → (start len : Nat) → Prop where
  | slice {call : HostCall} {slice : Slice} : Reports config s call slice →
      Writes config s call slice.output.toNat slice.count
  | peek : Writes config s .peek s.r8.toNat s.r10.toNat
  | invoke : Writes config s .invoke s.r8.toNat InvokeBlock.size

end HostCall

theorem Memory.size_of_read {m : Memory} {start len : Nat} {data : Bytes} (read : m.read start len = .ok data) :
    data.size = len := by
  rw [((m.read_eq_ok start len data).mp read).2.2, Memory.bytesAt, Array.size_ofFn]

theorem InvokeBlock.size_encode (b : InvokeBlock) : b.encode.size = InvokeBlock.size := by
  have appended : ∀ (values : List UInt64) (out : Bytes),
      (values.foldl (fun out value => out ++ Bytes.ofWord value 8) out).size = out.size + 8 * values.length := by
    intro values
    induction values with
    | nil => simp
    | cons value rest ih =>
      intro out
      rw [List.foldl_cons, ih, Array.size_append, Bytes.size_ofWord, List.length_cons]
      omega
  rw [encode, ← Vector.foldl_toList, appended, Bytes.size_ofWord, Vector.length_toList, size]

namespace HostState

variable {config : Config} {call : HostCall} {s s' : HostState} {slice : Slice}

/-- What a successful call makes of the guest's memory. -/
inductive Wrote (config : Config) (s : HostState) (call : HostCall) : Memory → Prop where
  | nothing : Wrote config s call s.memory
  | bytes {start : Nat} (data : Bytes) : call.Writes config s start data.size →
      s.memory.isWriteable start data.size = true → Wrote config s call (s.memory.write start data)

theorem r7_reply (s : HostState) (value : UInt64) : (s.reply value).r7 = value := by
  rw [r7, reply, RegFile.get_put, if_pos rfl]

theorem perform_writeSlice (s : HostState) (slice : Slice) :
    (Host.writeSlice slice.value slice.output slice.offset slice.len).perform s =
      if slice.count = 0 then .ok (s.reply (UInt64.ofNat slice.value.size))
      else if s.memory.isWriteable slice.output.toNat slice.count then
        .ok (({ s with memory := s.memory.write slice.output.toNat slice.bytes } : HostState).reply
          (UInt64.ofNat slice.value.size))
      else .error .badMemory s := by
  simp only [Host.writeSlice, HostAction.perform_get, HostAction.perform_ite, HostAction.perform_writeMemory,
    HostAction.perform_reply, HostAction.perform_throw, Slice.count, Slice.first, Slice.bytes]
  rfl

theorem writeSlice_ok (reports : call.Reports config s slice)
    (done : (Host.writeSlice slice.value slice.output slice.offset slice.len).perform s = .ok s') :
    s'.context = s.context ∧ s'.gas = s.gas ∧ s'.r7 = UInt64.ofNat slice.value.size ∧
      Wrote config s call s'.memory := by
  rw [perform_writeSlice] at done
  split at done
  · obtain rfl := HostResult.ok.inj done
    exact ⟨rfl, rfl, r7_reply .., .nothing⟩
  · split at done
    · rename_i writeable
      obtain rfl := HostResult.ok.inj done
      rw [← slice.size_bytes] at writeable
      have range := HostCall.Writes.slice reports
      rw [← slice.size_bytes] at range
      exact ⟨rfl, rfl, r7_reply .., .bytes slice.bytes range writeable⟩
    · contradiction

theorem writeSlice?_ok {value : Option Bytes} {output offset len : UInt64}
    (done : (Host.writeSlice? value output offset len).perform s = .ok s') :
    ∃ found, value = some found ∧ (Host.writeSlice found output offset len).perform s = .ok s' := by
  cases value with
  | some found => exact ⟨found, rfl, done⟩
  | none => contradiction

end HostState

namespace HostCall

open HostState

variable {config : Config} {call : HostCall} {s : HostState} {slice : Slice} {start len : Nat}

theorem Reports.result_eq (reports : call.Reports config s slice) :
    call.result config s = (Host.writeSlice slice.value slice.output slice.offset slice.len).perform s := by
  cases reports with
  | fetch found => simp only [result, action, Host.fetch, HostAction.perform_get, found, Host.writeSlice?]
  | info known =>
    simp only [result, action, Host.info, HostAction.perform_get, known, Option.map_some, Host.writeSlice?]
  | lookup known named found =>
    simp only [result, action, Host.lookup, HostAction.perform_get, known, require, named,
      HostAction.perform_ok, found, Host.writeSlice?]
  | read named known found =>
    simp only [result, action, Host.read, HostAction.perform_get, named, known, require,
      HostAction.perform_ok, found, Host.writeSlice?]
  | historicalLookup named held known found =>
    simp only [result, action, Host.historicalLookup, HostAction.perform_get, named, refinement, held, known,
      require, HostAction.perform_ok, found, Host.writeSlice?]

theorem Reports.result_eq_ok (reports : call.Reports config s slice) (nonempty : 0 < slice.count)
    (writeable : s.memory.isWriteable slice.output.toNat slice.count = true) :
    call.result config s =
      .ok (({ s with memory := s.memory.write slice.output.toNat slice.bytes } : HostState).reply
        (UInt64.ofNat slice.value.size)) := by
  rw [reports.result_eq, perform_writeSlice, if_neg (Nat.ne_of_gt nonempty), if_pos writeable]

/-- A call looks at the ends of the range it is about to write before it changes anything. -/
theorem Writes.result_eq_badMemory (writes : call.Writes config s start len) (nonempty : 0 < len)
    (refused : s.memory.isWriteable start len = false) : call.result config s = .error .badMemory s := by
  cases writes with
  | slice reports =>
    rw [reports.result_eq, perform_writeSlice, if_neg (Nat.ne_of_gt nonempty), refused]
    rfl
  | peek =>
    simp only [result, action, Host.peek, HostAction.perform_get, refused]
    rfl
  | invoke =>
    simp only [result, action, Host.invoke, HostAction.perform_get, refused]
    rfl

end HostCall

end ServiceVm
