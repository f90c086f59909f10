import ServiceVm.Proofs.Host.Served
import ServiceVm.Proofs.Service.EntrySum

/-!
# Deposits of accounts

The deposits that calls predict are those of the accounts they leave. An account is solvent if its
balance covers its deposit.
-/
namespace ServiceVm

namespace Account

def Solvent (account : Account) : Prop := account.threshold ≤ account.balance

instance (account : Account) : Decidable account.Solvent := inferInstanceAs (Decidable (_ ≤ _))

theorem thresholdFor_mono {items items' octets octets' : Nat} (fewer : items ≤ items')
    (smaller : octets ≤ octets') (gratis : UInt64) :
    thresholdFor items octets gratis ≤ thresholdFor items' octets' gratis := by
  have deposit : baseDeposit + itemDeposit * items + byteDeposit * octets ≤
      baseDeposit + itemDeposit * items' + byteDeposit * octets' :=
    Nat.add_le_add (Nat.add_le_add_left (Nat.mul_le_mul_left _ fewer) _) (Nat.mul_le_mul_left _ smaller)
  have room : maxWord < UInt64.size := by decide
  rw [UInt64.le_iff_toNat_le, thresholdFor, thresholdFor, UInt64.toNat_ofNat_of_lt' (by omega),
    UInt64.toNat_ofNat_of_lt' (by omega)]
  omega

theorem octets_eq (account : Account) :
    account.octets = entrySum (fun request _ => requestedOctets request) account.requests +
      entrySum storedOctets account.storage := rfl

theorem items_eq (account : Account) :
    account.items = 2 * entrySum (fun _ _ => 1) account.requests +
      entrySum (fun _ _ => 1) account.storage := by
  rw [items, size_eq_entrySum, size_eq_entrySum]

/-- The deposit predicted for a write is that of the account after it. -/
theorem thresholdAfterWrite_eq (account : Account) (key : Bytes) (value : Option Bytes) :
    account.thresholdAfterWrite key value = (account.write key value).threshold := by
  have removedItems := entrySum_erase (fun _ _ => 1) account.storage key
  have removedOctets := entrySum_erase storedOctets account.storage key
  rw [thresholdAfterWrite, threshold, items_eq, items_eq, octets_eq, octets_eq]
  cases value with
  | none =>
    cases found : account.storage[key]? with
    | none =>
      simp only [found, Option.elim_none, Nat.add_zero] at removedItems removedOctets
      simp only [write, removedItems, removedOctets]
    | some previous =>
      simp only [found, Option.elim_some] at removedItems removedOctets
      simp only [write]
      congr 1 <;> omega
  | some value =>
    have addedItems := entrySum_insert (fun _ _ => 1) account.storage key value
    have addedOctets := entrySum_insert storedOctets account.storage key value
    cases found : account.storage[key]? with
    | none =>
      simp only [found, Option.elim_none, Nat.add_zero] at addedItems addedOctets
      simp only [write, addedItems, addedOctets, Nat.add_assoc]
    | some previous =>
      simp only [found, Option.elim_some] at removedItems removedOctets addedItems addedOctets
      simp only [write]
      congr 1 <;> omega

/-- The deposit predicted for a request is that of the account after it. -/
theorem thresholdAfterRequest_eq (account : Account) {request : Request} (slots : History)
    (absent : account.requests[request]? = none) :
    account.thresholdAfterRequest request.length =
      ({ account with requests := account.requests.insert request slots } : Account).threshold := by
  rw [thresholdAfterRequest, threshold, items_eq, items_eq, octets_eq, octets_eq,
    entrySum_insert_absent absent, entrySum_insert_absent absent, requestedOctets]
  dsimp only
  congr 1 <;> omega

/-- Setting the history of a request that is there keeps the deposit. -/
theorem threshold_reset (account : Account) {request : Request} {old : History} (slots : History)
    (found : account.requests[request]? = some old) :
    ({ account with requests := account.requests.insert request slots } : Account).threshold =
      account.threshold := by
  have items := entrySum_insert (fun _ _ => 1) account.requests request slots
  have octets := entrySum_insert (fun request _ => requestedOctets request) account.requests request slots
  simp only [found, Option.elim_some, Nat.add_right_cancel_iff] at items octets
  rw [threshold, threshold, items_eq, items_eq, octets_eq, octets_eq, items, octets]

/-- Dropping a request does not raise the deposit. -/
theorem threshold_forget_le (account : Account) (request : Request) (preimages : Std.TreeMap Hash Bytes) :
    ({ account with requests := account.requests.erase request, preimages } : Account).threshold ≤
      account.threshold := by
  have items := entrySum_erase (fun _ _ => 1) account.requests request
  have octets := entrySum_erase (fun request _ => requestedOctets request) account.requests request
  rw [threshold, threshold, items_eq, items_eq, octets_eq, octets_eq]
  exact thresholdFor_mono (by dsimp only; omega) (by dsimp only; omega) _

namespace Solvent

variable {account : Account}

theorem write {key : Bytes} {value : Option Bytes}
    (covered : account.thresholdAfterWrite key value ≤ account.balance) :
    (account.write key value).Solvent := by
  rw [thresholdAfterWrite_eq] at covered
  exact covered

theorem request {request : Request} (slots : History) (absent : account.requests[request]? = none)
    (covered : account.thresholdAfterRequest request.length ≤ account.balance) :
    ({ account with requests := account.requests.insert request slots } : Account).Solvent := by
  rw [thresholdAfterRequest_eq account slots absent] at covered
  exact covered

theorem reset (solvent : account.Solvent) {request : Request} {old : History} (slots : History)
    (found : account.requests[request]? = some old) :
    ({ account with requests := account.requests.insert request slots } : Account).Solvent := by
  rw [Solvent, threshold_reset account slots found]
  exact solvent

theorem forget (solvent : account.Solvent) {request : Request} {slots : History}
    (found : account.requests[request]? = some slots) (forgotten : Host.Forgotten) :
    (account.forget request forgotten).Solvent := by
  cases forgotten with
  | removed => exact UInt64.le_trans (account.threshold_forget_le request _) solvent
  | kept slots => exact solvent.reset slots found

theorem freshAccount (codeHash : Hash) (codeLength : UInt32) (minItemGas minMemoGas gratis : UInt64)
    (created : TimeSlot) (parent : ServiceId) :
    (Host.freshAccount codeHash codeLength minItemGas minMemoGas gratis created parent).Solvent :=
  UInt64.le_refl _

theorem payFrom {payer : Account} {amount : UInt64} (pays : Host.payFrom? account amount = some payer) :
    payer.Solvent := by
  rw [Host.payFrom?] at pays
  split at pays
  · split at pays
    · rename_i covered
      obtain rfl := Option.some.inj pays
      exact covered
    · contradiction
  · contradiction

theorem credit (solvent : account.Solvent) (amount : UInt64) : (account.credit amount).Solvent := by
  refine UInt64.le_trans (b := account.balance) solvent ?_
  have room : maxWord < UInt64.size := by decide
  have bound := account.balance.toNat_lt
  rw [UInt64.le_iff_toNat_le, Account.credit, saturatingAdd, UInt64.toNat_ofNat_of_lt' (by omega)]
  simp only [maxWord]
  omega

end Solvent

end Account

namespace Accounts

/-- Every account is solvent. -/
def Solvent (accounts : Accounts) : Prop :=
  ∀ (id : ServiceId) (account : Account), accounts[id]? = some account → account.Solvent

variable {accounts : Accounts}

theorem solvent_empty : Solvent ∅ := by
  intro id account found
  simp at found

theorem Solvent.insert (solvent : accounts.Solvent) {id : ServiceId} {account : Account}
    (added : account.Solvent) : Accounts.Solvent (Std.TreeMap.insert accounts id account) := by
  intro other found atOther
  rw [Std.TreeMap.getElem?_insert] at atOther
  split at atOther
  · obtain rfl := Option.some.inj atOther
    exact added
  · exact solvent other found atOther

theorem Solvent.erase (solvent : accounts.Solvent) (id : ServiceId) :
    Accounts.Solvent (Std.TreeMap.erase accounts id) := by
  intro other found atOther
  rw [Std.TreeMap.getElem?_erase] at atOther
  split at atOther
  · contradiction
  · exact solvent other found atOther

theorem Solvent.credit (solvent : accounts.Solvent) (id : ServiceId) (amount : UInt64) :
    (accounts.credit id amount).Solvent := by
  rw [Accounts.credit]
  split
  · rename_i account found
    exact solvent.insert ((solvent id account found).credit amount)
  · exact solvent

end Accounts

end ServiceVm
