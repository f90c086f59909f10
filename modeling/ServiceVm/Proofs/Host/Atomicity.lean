import ServiceVm.Proofs.Host.Run

/-!
# Calls that fail change nothing

A guest that cannot pay for a call is left as it is. A guest that names memory it may not use, or
whose call is refused, loses the fee and finds a code in register 7. What successful calls reply lies
below all codes, because sizes, handles and ids do not reach that far, so the code tells a refusal;
only `query` replies a code of its own, and it changes nothing either.
-/
namespace ServiceVm

/-- Byte strings and tables that a host holds have fewer elements: no allocation takes as many bytes. -/
def sizeLimit : Nat := 9223372036854775808

/-- What the host holds for an invocation is of a size that it can hold. -/
structure HostContext.Sized (params : Params) (c : HostContext) : Prop where
  fetched : ∀ (selector i j : Nat) (value : Bytes), c.fetch? params selector i j = some value →
    value.size < sizeLimit
  storage : ∀ (accounts : Accounts) (id : ServiceId) (account : Account) (key value : Bytes),
    c.accounts? = some accounts → accounts[id]? = some account → account.storage[key]? = some value →
    value.size < sizeLimit
  preimages : ∀ (accounts : Accounts) (id : ServiceId) (account : Account) (hash : Hash) (value : Bytes),
    c.accounts? = some accounts → accounts[id]? = some account → account.preimages[hash]? = some value →
    value.size < sizeLimit
  machines : ∀ refinement : RefinementContext, c = .refinement refinement →
    refinement.machines.size < sizeLimit

/-! ## Replies below the codes -/

/-- Replies that lie below the codes of refusals. -/
def IsAnswer (value : UInt64) : Prop := value < Refusal.huh.code

instance (value : UInt64) : Decidable (IsAnswer value) := inferInstanceAs (Decidable (_ < _))

theorem IsAnswer.ne_code {value : UInt64} (answer : IsAnswer value) (refusal : Refusal) :
    value ≠ refusal.code := by
  rintro rfl
  cases refusal <;> exact absurd answer (by decide)

theorem isAnswer_of_toNat_lt {value : UInt64} (small : value.toNat < sizeLimit) : IsAnswer value := by
  have code : Refusal.huh.code.toNat = 18446744073709551607 := rfl
  rw [IsAnswer, UInt64.lt_iff_toNat_lt, code]
  rw [sizeLimit] at small
  omega

theorem isAnswer_ofNat {n : Nat} (small : n < sizeLimit) : IsAnswer (UInt64.ofNat n) := by
  apply isAnswer_of_toNat_lt
  rw [UInt64.toNat_ofNat_of_lt' (Nat.lt_trans small (by decide))]
  exact small

theorem isAnswer_toUInt64 (n : UInt32) : IsAnswer n.toUInt64 := by
  apply isAnswer_of_toNat_lt
  rw [UInt32.toNat_toUInt64]
  exact Nat.lt_trans n.toNat_lt (by decide)

theorem toNat_foldl_handle_le (entries : List (UInt64 × NestedMachine)) (handle : UInt64) :
    (entries.foldl (fun handle entry => if entry.1 = handle then handle + 1 else handle) handle).toNat ≤
      handle.toNat + entries.length := by
  induction entries generalizing handle with
  | nil => exact Nat.le_refl _
  | cons entry entries ih =>
    rw [List.foldl_cons, List.length_cons]
    split
    · have next := ih (handle + 1)
      have step : (handle + 1).toNat ≤ handle.toNat + 1 := by
        rw [UInt64.toNat_add]
        exact Nat.mod_le _ _
      omega
    · have next := ih handle
      omega

theorem toNat_unusedHandle_le (machines : Std.TreeMap UInt64 NestedMachine) :
    (unusedHandle machines).toNat ≤ machines.size := by
  have bound := toNat_foldl_handle_le machines.toList 0
  rw [Std.TreeMap.length_toList] at bound
  rw [unusedHandle, Std.TreeMap.foldl_eq_foldl_toList]
  simpa using bound

theorem Exit.isAnswer_status (exit : Exit) : IsAnswer exit.status.1 := by
  cases exit <;> simp [Exit.status, IsAnswer, Refusal.code]

theorem Host.toNat_add_wide {count : UInt64} (slot : TimeSlot) (small : count.toNat < UInt32.size) :
    (count + wide slot).toNat = count.toNat + slot.toNat * UInt32.size := by
  have bound := slot.toNat_lt
  have size : UInt32.size = 4294967296 := rfl
  have word : UInt64.size = 18446744073709551616 := rfl
  rw [size] at small ⊢
  have high : (wide slot).toNat = slot.toNat * 4294967296 := by
    rw [wide, size, UInt64.toNat_ofNat_of_lt' (by omega)]
  rw [UInt64.toNat_add, high, Nat.mod_eq_of_lt (by omega)]

theorem Host.isAnswer_packHistory? {slots : History} {packed : UInt64 × UInt64}
    (packs : packHistory? slots = some packed) : IsAnswer packed.1 := by
  have counted : ∀ (count : UInt64) (slot : TimeSlot), count.toNat ≤ 3 → IsAnswer (count + wide slot) := by
    intro count slot few
    have bound := slot.toNat_lt
    have size : UInt32.size = 4294967296 := rfl
    have code : Refusal.huh.code.toNat = 18446744073709551607 := rfl
    rw [IsAnswer, UInt64.lt_iff_toNat_lt, toNat_add_wide slot (by omega), code, size]
    omega
  match slots, packs with
  | [], rfl => exact isAnswer_of_toNat_lt (by decide)
  | [x], rfl => exact counted 1 x (by decide)
  | [x, y], rfl => exact counted 2 x (by decide)
  | [x, y, w], rfl => exact counted 3 x (by decide)

theorem Account.size_encodeInfo (account : Account) : account.encodeInfo.size = 96 := by
  simp [Account.encodeInfo, Codec.encodeFixed, Bytes.size_ofWord, Hash.toBytes]

/-! ## Replies of calls -/

theorem Accounts.resolve?_eq_some {accounts : Accounts} {selector : UInt64} {caller : ServiceId}
    {account : Account} (found : accounts.resolve? selector caller = some account) :
    ∃ id : ServiceId, accounts[id]? = some account := by
  rw [Accounts.resolve?] at found
  split at found
  · exact ⟨_, found⟩
  · contradiction

theorem HostContext.resolve?_eq_some {c : HostContext} {selector : UInt64} {account : Account}
    (found : c.resolve? selector = some account) :
    ∃ (accounts : Accounts) (id : ServiceId), c.accounts? = some accounts ∧ accounts[id]? = some account := by
  rw [HostContext.resolve?] at found
  split at found
  · rename_i accounts seen
    obtain ⟨id, known⟩ := Accounts.resolve?_eq_some found
    exact ⟨accounts, id, seen, known⟩
  · contradiction

theorem Account.preimage_of_lookupAt? {account : Account} {slot : TimeSlot} {hash : Hash} {value : Bytes}
    (found : account.lookupAt? slot hash = some value) : account.preimages[hash]? = some value := by
  simp only [Account.lookupAt?, Option.bind_eq_bind, Option.bind_eq_some_iff] at found
  obtain ⟨preimage, held, _, -, _, -, available⟩ := found
  split at available
  · obtain rfl := Option.some.inj available
    exact held
  · contradiction

namespace HostCall

variable {config : Config} {call : HostCall} {s : HostState} {answer : UInt64} {refusal : Refusal}

/-- Whether the guest can tell from the reply to the call that it was refused for the given reason.
Replies of `gas`, `checkpoint` and `log` may be any word; in calls that look something up, and
only there, the code of `Refusal.none` stands for a refusal. -/
def tells (call : HostCall) (refusal : Refusal) : Bool :=
  match call with
  | .gas | .checkpoint | .log => false
  | .fetch | .lookup | .read | .info | .historicalLookup | .query => true
  | _ => refusal ≠ .none

/-- Successful calls that tell refusals reply below the codes, but for the code for nothing that `write`
and `query` may reply. -/
theorem Answers.isAnswer (answers : call.Answers config s answer) (sized : s.context.Sized config.params)
    (tells : call.tells refusal = true) :
    IsAnswer answer ∨ (answer = Refusal.none.code ∧ (call = .write ∨ call = .query)) := by
  have ok : IsAnswer replyOk := isAnswer_of_toNat_lt (by decide)
  cases call with
  | gas => exact absurd tells Bool.false_ne_true
  | checkpoint => exact absurd tells Bool.false_ne_true
  | log => exact absurd tells Bool.false_ne_true
  | fetch =>
    obtain ⟨value, found, rfl⟩ := answers
    exact .inl (isAnswer_ofNat (sized.fetched _ _ _ value found))
  | lookup =>
    obtain ⟨account, hash, value, known, found, rfl⟩ := answers
    obtain ⟨accounts, id, seen, held⟩ := HostContext.resolve?_eq_some known
    exact .inl (isAnswer_ofNat (sized.preimages accounts id account hash value seen held found))
  | read =>
    obtain ⟨account, key, value, known, found, rfl⟩ := answers
    obtain ⟨accounts, id, seen, held⟩ := HostContext.resolve?_eq_some known
    exact .inl (isAnswer_ofNat (sized.storage accounts id account key value seen held found))
  | info =>
    obtain ⟨account, rfl⟩ := answers
    rw [Account.size_encodeInfo]
    exact .inl (isAnswer_ofNat (by decide))
  | historicalLookup =>
    obtain ⟨c, account, hash, value, held, known, found, rfl⟩ := answers
    obtain ⟨id, present⟩ := Accounts.resolve?_eq_some known
    have seen : s.context.accounts? = some c.accounts := by rw [held]; rfl
    exact .inl (isAnswer_ofNat (sized.preimages c.accounts id account hash value seen present
      (Account.preimage_of_lookupAt? found)))
  | write =>
    rcases answers with rfl | ⟨service, accounts, account, key, previous, seen, known, stored, rfl⟩
    · exact .inr ⟨rfl, .inl rfl⟩
    · exact .inl (isAnswer_ofNat (sized.storage accounts service account key previous seen known stored))
  | exportSegment => exact .inl (UInt64.lt_trans answers (by decide))
  | machine =>
    obtain ⟨c, held, rfl⟩ := answers
    exact .inl (isAnswer_of_toNat_lt (Nat.lt_of_le_of_lt (toNat_unusedHandle_le _) (sized.machines c held)))
  | invoke =>
    obtain ⟨exit, rfl⟩ := answers
    exact .inl exit.isAnswer_status
  | expunge =>
    obtain ⟨pc, rfl⟩ := answers
    exact .inl (isAnswer_toUInt64 pc)
  | new =>
    obtain ⟨id, rfl⟩ := answers
    exact .inl (isAnswer_toUInt64 id)
  | query =>
    rcases answers with rfl | ⟨slots, packed, packs, rfl⟩
    · exact .inr ⟨rfl, .inr rfl⟩
    · exact .inl (Host.isAnswer_packHistory? packs)
  | _ =>
    obtain rfl : answer = replyOk := answers
    exact .inl ok

theorem Answers.query_of_told (answers : call.Answers config s answer)
    (sized : s.context.Sized config.params) (tells : call.tells refusal = true)
    (told : answer = refusal.code) : call = .query := by
  rcases answers.isAnswer sized tells with below | ⟨nothing, rfl | rfl⟩
  · exact absurd told (below.ne_code refusal)
  · -- Only `Refusal.none` has the code for nothing, and `write` does not tell that one.
    have other : refusal ≠ .none := by simpa [HostCall.tells] using tells
    cases refusal <;> simp_all [Refusal.code]
  · rfl

end HostCall

theorem Host.query_frame {s s' : HostState} (done : query.perform s = .ok s') :
    (∀ r, r ∉ [Reg.r7, Reg.r8] → s'.registers.get r = s.registers.get r) ∧ s'.memory = s.memory ∧
      s'.gas = s.gas ∧ s'.context = s.context := by
  simp only [query, HostAction.perform_get, HostAction.perform_lift_eq_ok, HostAction.perform_modify,
    HostAction.perform_reply_eq_ok] at done
  obtain ⟨hash, -, c, -, rfl⟩ := done
  refine ⟨?_, rfl, rfl, rfl⟩
  intro r other
  simp only [List.mem_cons, List.not_mem_nil, or_false, not_or] at other
  simp only [HostState.reply, RegFile.get_put, if_neg (Ne.symm other.1), if_neg (Ne.symm other.2)]

namespace Guest

variable {config : Config} {g g' : Guest} {id : UInt32} {exit : Exit}

/-- The guest `g'` is the guest `g` once it has paid for the call with the given number, but for the
registers in `replies`. -/
structure OnlyReplied (g : Guest) (id : UInt32) (replies : List Reg) (g' : Guest) : Prop where
  gas : g'.machine.gas.toNat + (g.due id).toNat = g.machine.gas.toNat
  registers : ∀ r, r ∉ replies → g'.machine.cpu.registers.get r = g.machine.cpu.registers.get r
  memory : g'.machine.cpu.memory = g.machine.cpu.memory
  pc : g'.machine.cpu.pc = g.machine.cpu.pc
  program : g'.machine.program = g.machine.program
  meter : g'.machine.meter = g.machine.meter
  context : g'.context = g.context

/-- Registers in which the call with the given number replies. -/
def replies (id : UInt32) : List Reg :=
  if HostCall.ofId? id = some .query then [Reg.r7, Reg.r8] else [Reg.r7]

theorem gas_charged (enough : g.due id ≤ g.machine.gas) :
    (g.charged id).machine.gas.toNat + (g.due id).toNat = g.machine.gas.toNat := by
  have bound := UInt64.le_iff_toNat_le.mp enough
  rw [charged, UInt64.toNat_sub_of_le _ _ enough]
  omega

theorem onlyReplied_resume {s : HostState} {replies : List Reg} (enough : g.due id ≤ g.machine.gas)
    (registers : ∀ r, r ∉ replies → s.registers.get r = g.machine.cpu.registers.get r)
    (memory : s.memory = g.machine.cpu.memory) (gas : s.gas = (g.charged id).machine.gas)
    (context : s.context = g.context) : g.OnlyReplied id replies ((g.charged id).resume s) := by
  have paid := gas_charged enough
  rw [← gas] at paid
  exact ⟨paid, registers, memory, rfl, rfl, rfl, context⟩

theorem get_put_r7 {registers : Registers} {value : UInt64} {replies : List Reg} (told : Reg.r7 ∈ replies)
    (r : Reg) (other : r ∉ replies) : (registers.put Reg.r7 value).get r = registers.get r := by
  rw [RegFile.get_put, if_neg]
  rintro rfl
  exact other told

theorem onlyReplied_reply {replies : List Reg} (enough : g.due id ≤ g.machine.gas)
    (told : Reg.r7 ∈ replies) (value : UInt64) :
    g.OnlyReplied id replies ((g.charged id).resume ((g.charged id).hostState.reply value)) :=
  onlyReplied_resume enough (get_put_r7 told) rfl rfl rfl

theorem r7_mem_replies (id : UInt32) : Reg.r7 ∈ replies id := by
  rw [replies]
  split <;> simp

theorem Dispatch.unpaid_unchanged (dispatch : Dispatch config g id exit g') (short : exit = .outOfGas) :
    g' = g := by
  cases dispatch with
  | unpaid => rfl
  | unknown => contradiction
  | @refused call refusal => cases refusal <;> contradiction
  | served => contradiction

theorem Dispatch.panic_onlyReplied (dispatch : Dispatch config g id exit g') (panics : exit = .panic) :
    g'.machine.cpu.registers.get Reg.r7 = Refusal.oob.code ∧ g.OnlyReplied id [Reg.r7] g' := by
  cases dispatch with
  | unpaid => contradiction
  | unknown => contradiction
  | @refused call refusal permitted enough =>
    cases refusal with
    | badMemory =>
      exact ⟨HostState.r7_reply _ _, onlyReplied_reply enough (List.mem_singleton.mpr rfl) _⟩
    | _ => contradiction
  | served => contradiction

theorem Dispatch.told_onlyReplied (dispatch : Dispatch config g id exit g')
    (sized : g.context.Sized config.params) {refusal : Refusal}
    (tells : ∀ call, HostCall.ofId? id = some call → call.tells refusal = true)
    (goesOn : exit = .continue) (told : g'.machine.cpu.registers.get Reg.r7 = refusal.code) :
    g.OnlyReplied id (replies id) g' := by
  cases dispatch with
  | unpaid => contradiction
  | unknown _ enough => exact onlyReplied_reply enough (r7_mem_replies id) Refusal.what.code
  | refused _ enough => exact onlyReplied_reply enough (r7_mem_replies id) _
  | @served call s permitted enough done =>
    obtain ⟨known, allowed⟩ := permitted?_eq_some permitted
    have served := Host.served (s := (g.charged id).hostState) allowed done
    obtain rfl := served.answer.query_of_told sized (tells call known) told
    obtain ⟨registers, memory, gas, context⟩ := Host.query_frame done
    have both : replies id = [Reg.r7, Reg.r8] := if_pos known
    rw [both]
    exact onlyReplied_resume enough registers memory gas context

end Guest

/-- Calls that fail are atomic. A guest that cannot pay is left as it is; a guest that panics finds the
code for bad memory in register 7 and has lost the fee; and a guest that goes on and reads in
register 7 that its call was refused has lost the fee, with nothing else changed but the registers
of the reply. What a host can hold is too small for the size of it to be read as a refusal. -/
theorem failed_calls_atomic (config : Config) (g : Guest) (id : UInt32) :
    ((g.dispatch config id).1 = .outOfGas → (g.dispatch config id).2 = g) ∧
    ((g.dispatch config id).1 = .panic →
      (g.dispatch config id).2.machine.cpu.registers.get Reg.r7 = Refusal.oob.code ∧
      g.OnlyReplied id [Reg.r7] (g.dispatch config id).2) ∧
    (g.context.Sized config.params → ∀ refusal : Refusal,
      (∀ call, HostCall.ofId? id = some call → call.tells refusal = true) →
      (g.dispatch config id).1 = .continue →
      (g.dispatch config id).2.machine.cpu.registers.get Reg.r7 = refusal.code →
      g.OnlyReplied id (Guest.replies id) (g.dispatch config id).2) := by
  have dispatch := g.dispatch_spec config id
  refine ⟨dispatch.unpaid_unchanged, dispatch.panic_onlyReplied, ?_⟩
  intro sized refusal tells goesOn told
  exact dispatch.told_onlyReplied sized tells goesOn told

def strandedGuest : Guest where
  machine := ⟨Program.ofCode #[0] #[true] #[] 0, ⟨0, Registers.zero, {}⟩, 50, {}⟩
  context := .accumulation ⟨{}, {}, 0, Hash.zero, #[]⟩

theorem strandedGuest_sized : strandedGuest.context.Sized {} where
  fetched := by
    intro selector i j value found
    simp only [strandedGuest, HostContext.fetch?, AccumulationContext.fetch?] at found
    split at found
    · obtain rfl := Option.some.inj found
      decide +kernel
    · split at found
      · obtain rfl := Option.some.inj found
        decide +kernel
      · obtain rfl := Option.some.inj found
        decide +kernel
      · simp at found
      · contradiction
  storage := by
    rintro _ id account key value ⟨⟩ known
    simp at known
  preimages := by
    rintro _ id account hash value ⟨⟩ known
    simp at known
  machines := by
    rintro refinement ⟨⟩

/-- A write without an account to write to is refused. -/
theorem strandedGuest_write_atomic :
    (strandedGuest.dispatch {} 4).2.machine.cpu.registers.get Reg.r7 = Refusal.who.code ∧
      strandedGuest.OnlyReplied 4 [Reg.r7] (strandedGuest.dispatch {} 4).2 := by
  have told : (strandedGuest.dispatch {} 4).2.machine.cpu.registers.get Reg.r7 = Refusal.who.code := by
    decide +kernel
  refine ⟨told, (failed_calls_atomic {} strandedGuest 4).2.2 strandedGuest_sized .who ?_ ?_ told⟩
  · rintro call ⟨⟩
    decide
  · decide +kernel

end ServiceVm
