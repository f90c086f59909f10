import ServiceVm.Proofs.Invocation.GasUsed
import ServiceVm.Proofs.Service.Balance

/-!
# What a receipt of transfers changes

A guest that receives transfers may write to the storage of its own account. No other call that it may
make reaches accounts, so its run changes that storage only, however it ends; what was credited before
the run stays.
-/
namespace ServiceVm

/-! ## Sums that are cut off -/

theorem toNat_saturatingAdd_eq (a b : UInt64) :
    (saturatingAdd a b).toNat = min (a.toNat + b.toNat) maxWord := by
  have max : maxWord = 18446744073709551615 := rfl
  rw [saturatingAdd, UInt64.toNat_ofNat_of_lt' (by rw [UInt64.size]; omega)]

theorem toNat_foldl_saturatingAdd_eq (word : Transfer → UInt64) (transfers : List Transfer) (sum : UInt64) :
    (transfers.foldl (fun sum t => saturatingAdd sum (word t)) sum).toNat =
      min (sum.toNat + (transfers.map fun t => (word t).toNat).sum) maxWord := by
  induction transfers generalizing sum with
  | nil =>
    have bound := sum.toNat_lt
    have max : maxWord = 18446744073709551615 := rfl
    rw [List.foldl_nil, List.map_nil, List.sum_nil]
    omega
  | cons t rest ih =>
    rw [List.foldl_cons, ih, toNat_saturatingAdd_eq, List.map_cons, List.sum_cons]
    omega

theorem toNat_totalAmount_eq (transfers : Array Transfer) :
    (totalAmount transfers).toNat = min (amountSum transfers) maxWord := by
  rw [totalAmount, ← Array.foldl_toList, toNat_foldl_saturatingAdd_eq, UInt64.toNat_zero, Nat.zero_add,
    amountSum]

def gasLimitSum (transfers : Array Transfer) : Nat := (transfers.toList.map fun t => t.gasLimit.toNat).sum

theorem toNat_totalGas (transfers : Array Transfer) :
    (totalGas transfers).toNat = min (gasLimitSum transfers) maxWord := by
  rw [totalGas, ← Array.foldl_toList, toNat_foldl_saturatingAdd_eq, UInt64.toNat_zero, Nat.zero_add,
    gasLimitSum]

/-- Amounts that are cut off before they are credited leave the balance that the whole sum leaves. -/
theorem balance_credit_totalAmount (account : Account) (transfers : Array Transfer) :
    (account.credit (totalAmount transfers)).balance =
      UInt64.ofNat (min (account.balance.toNat + amountSum transfers) maxWord) := by
  have cut : min (account.balance.toNat + min (amountSum transfers) maxWord) maxWord =
      min (account.balance.toNat + amountSum transfers) maxWord := by omega
  rw [Account.credit, saturatingAdd, toNat_totalAmount_eq, cut]

/-! ## The accounts of a receipt -/

theorem Accounts.mem_credit (accounts : Accounts) (service id : ServiceId) (amount : UInt64) :
    id ∈ accounts.credit service amount ↔ id ∈ accounts := by
  rw [Std.TreeMap.mem_iff_isSome_getElem?, Std.TreeMap.mem_iff_isSome_getElem?, getElem?_credit]
  split
  · rw [Option.isSome_map]
  · rfl

/-- Accounts that differ in the storage of the service at most. -/
structure Accounts.StorageOnly (service : ServiceId) (before after : Accounts) : Prop where
  others : ∀ other, other ≠ service → after[other]? = before[other]?
  own : ∃ storage, after[service]? = (before[service]?).map fun account => { account with storage }

namespace Accounts.StorageOnly

variable {service : ServiceId} {before after : Accounts}

theorem refl (service : ServiceId) (accounts : Accounts) : StorageOnly service accounts accounts where
  others _ _ := rfl
  own := by
    cases accounts[service]? with
    | none => exact ⟨∅, rfl⟩
    | some account => exact ⟨account.storage, rfl⟩

theorem write (changed : StorageOnly service before after) {account : Account}
    (found : after[service]? = some account) (key : Bytes) (value : Option Bytes) :
    StorageOnly service before (after.insert service (account.write key value)) where
  others other different := by
    rw [Std.TreeMap.getElem?_insert, if_neg, changed.others other different]
    exact fun same => different (Std.LawfulEqCmp.eq_of_compare same).symm
  own := by
    obtain ⟨storage, kept⟩ := changed.own
    rw [found] at kept
    obtain ⟨old, was, rfl⟩ := Option.map_eq_some_iff.mp kept.symm
    rw [Std.TreeMap.getElem?_insert_self, was]
    exact ⟨_, rfl⟩

theorem mem_iff (changed : StorageOnly service before after) (id : ServiceId) : id ∈ after ↔ id ∈ before := by
  rw [Std.TreeMap.mem_iff_isSome_getElem?, Std.TreeMap.mem_iff_isSome_getElem?]
  by_cases own : id = service
  · obtain ⟨storage, kept⟩ := changed.own
    rw [own, kept, Option.isSome_map]
  · rw [changed.others id own]

end Accounts.StorageOnly

/-- A receipt of `service` that has changed no more than its storage. -/
inductive HostContext.Receives (service : ServiceId) (before : Accounts) : HostContext → Prop where
  | transfer {c : TransferContext} : c.service = service → Accounts.StorageOnly service before c.accounts →
      Receives service before (.transfer c)

theorem HostContext.Served.receives {config : Config} {call : HostCall} {service : ServiceId}
    {before : Accounts} {c c' : HostContext} (served : c.Served config call c')
    (receives : c.Receives service before) : c'.Receives service before := by
  obtain ⟨rfl, changed⟩ := receives
  cases served with
  | observed => exact .transfer rfl changed
  | transfer change =>
    obtain ⟨key, value, -, found, -⟩ := change
    exact .transfer rfl (changed.write found key value)

/-- Whatever code an invocation runs, and however it ends, it leaves a receipt of the service. -/
theorem invokeImage_receives (config : Config) (image : Bytes) (pc : UInt32) (gas : UInt64)
    (argument : Bytes) {context : HostContext} {service : ServiceId} {before : Accounts}
    (receives : context.Receives service before) :
    (invokeImage config image pc gas argument context).context.Receives service before := by
  cases loads : imageGuest? image pc gas argument context with
  | none =>
    rw [invokeImage_none config loads]
    exact receives
  | some g =>
    rw [← imageGuest?_context loads] at receives
    rw [invokeImage_some config loads]
    exact (g.run_reaches config).invariant receives fun _ held served => served.receives held

/-! ## Services that can receive -/

/-- The service has a preimage of its code which, metadata left out, is neither empty nor too long. -/
def Accounts.HasCode (accounts : Accounts) (service : ServiceId) : Prop :=
  ∃ (account : Account) (preimage code : Bytes), accounts[service]? = some account ∧
    account.preimages[account.codeHash]? = some preimage ∧ serviceCode? preimage = some code ∧
    0 < code.size ∧ code.size ≤ 4000000

theorem Account.runnableCode?_eq_some {account : Account} {code : Bytes} :
    account.runnableCode? = some code ↔ ∃ preimage, account.preimages[account.codeHash]? = some preimage ∧
      serviceCode? preimage = some code ∧ 0 < code.size ∧ code.size ≤ maxServiceCode := by
  have limits (found : Bytes) : (found.isEmpty = true ∨ maxServiceCode < found.size) ↔
      ¬(0 < found.size ∧ found.size ≤ maxServiceCode) := by
    rw [Array.isEmpty_iff_size_eq_zero]
    omega
  rw [runnableCode?, codePreimage?]
  cases account.preimages[account.codeHash]? with
  | none => simp
  | some preimage =>
    cases stripped : serviceCode? preimage with
    | none => simp [stripped]
    | some found =>
      simp only [Option.bind_some, stripped, limits, ite_not, Option.some.injEq, exists_eq_left']
      split
      · rename_i within
        refine ⟨?_, fun given => congrArg some given.1⟩
        intro same
        obtain rfl := Option.some.inj same
        exact ⟨rfl, within⟩
      · rename_i outside
        refine ⟨nofun, ?_⟩
        rintro ⟨rfl, within⟩
        exact absurd within outside

theorem Accounts.hasCode_iff {accounts : Accounts} {service : ServiceId} :
    accounts.HasCode service ↔ ∃ code, (accounts[service]?).bind Account.runnableCode? = some code := by
  simp only [Option.bind_eq_some_iff, Account.runnableCode?_eq_some]
  constructor
  · rintro ⟨account, preimage, code, found, stored, stripped, within⟩
    exact ⟨code, account, found, preimage, stored, stripped, within⟩
  · rintro ⟨code, account, found, preimage, stored, stripped, within⟩
    exact ⟨account, preimage, code, found, stored, stripped, within⟩

section Receipt

variable {accounts : Accounts} {service : ServiceId} {transfers : Array Transfer}

/-- A service that can receive is credited, and its code is run with the gas that was sent along. -/
theorem receiveTransfers_of_hasCode (config : Config) (timeslot : TimeSlot) (entropy : Hash)
    (runs : accounts.HasCode service) (some : 0 < transfers.size) :
    Accounts.StorageOnly service (accounts.credit service (totalAmount transfers))
        (receiveTransfers config accounts service timeslot entropy transfers).1 ∧
      (receiveTransfers config accounts service timeslot entropy transfers).2 ≤ totalGas transfers := by
  obtain ⟨code, found⟩ := Accounts.hasCode_iff.mp runs
  have nonempty : ¬transfers.isEmpty = true := by
    rw [Array.isEmpty_iff_size_eq_zero]
    omega
  have ran := invokeImage_receives config code transferEntry (totalGas transfers)
    (accumulateArgument timeslot service transfers.size)
    (.transfer (c := ⟨service, accounts.credit service (totalAmount transfers), timeslot, entropy, transfers⟩)
      rfl (.refl service _))
  have spent := invokeImage_gasUsed_le config code transferEntry (totalGas transfers)
    (accumulateArgument timeslot service transfers.size)
    (.transfer ⟨service, accounts.credit service (totalAmount transfers), timeslot, entropy, transfers⟩)
  simp only [receiveTransfers, found, if_neg nonempty]
  generalize invokeImage config code transferEntry (totalGas transfers) _ _ = outcome at ran spent
  obtain ⟨result, gasUsed, context⟩ := outcome
  obtain ⟨-, changed⟩ := ran
  exact ⟨changed, spent⟩

theorem receiveTransfers_idle (config : Config) (timeslot : TimeSlot) (entropy : Hash)
    (idle : ¬(accounts.HasCode service ∧ 0 < transfers.size)) :
    receiveTransfers config accounts service timeslot entropy transfers = (accounts, 0) := by
  cases found : (accounts[service]?).bind Account.runnableCode? with
  | none => simp only [receiveTransfers, found]
  | some code =>
    have empty : transfers.isEmpty = true := by
      rw [Array.isEmpty_iff_size_eq_zero]
      have runs := Accounts.hasCode_iff.mpr ⟨code, found⟩
      exact Nat.eq_zero_of_not_pos fun some => idle ⟨runs, some⟩
    simp only [receiveTransfers, found, if_pos empty]

end Receipt

/-- A receipt of transfers adds and removes no account and changes no account but that of the service.
If the service has code and there is something to receive, then however the code ends the account differs
in its storage and its balance only. The balance has grown by the amounts, up to the largest word, and no
more gas is spent than was sent along. Otherwise nothing changes and no gas is spent. -/
theorem receipts_change_own_account (config : Config) (accounts : Accounts) (service : ServiceId)
    (timeslot : TimeSlot) (entropy : Hash) (transfers : Array Transfer) :
    (∀ id, id ∈ (receiveTransfers config accounts service timeslot entropy transfers).1 ↔ id ∈ accounts) ∧
    (∀ other, other ≠ service →
      (receiveTransfers config accounts service timeslot entropy transfers).1[other]? = accounts[other]?) ∧
    (∀ account, accounts[service]? = some account → accounts.HasCode service → 0 < transfers.size →
      (∃ storage, (receiveTransfers config accounts service timeslot entropy transfers).1[service]? =
        some { account with
          storage
          balance := UInt64.ofNat (min (account.balance.toNat + amountSum transfers) (2 ^ 64 - 1)) }) ∧
      (receiveTransfers config accounts service timeslot entropy transfers).2.toNat ≤
        min (gasLimitSum transfers) (2 ^ 64 - 1)) ∧
    (¬(accounts.HasCode service ∧ 0 < transfers.size) →
      receiveTransfers config accounts service timeslot entropy transfers = (accounts, 0)) := by
  have limit : maxWord = 2 ^ 64 - 1 := rfl
  by_cases runs : accounts.HasCode service ∧ 0 < transfers.size
  · obtain ⟨changed, spent⟩ := receiveTransfers_of_hasCode config timeslot entropy runs.1 runs.2
    refine ⟨fun id => ?_, fun other different => ?_, fun account found _ _ => ⟨?_, ?_⟩, fun idle => absurd runs idle⟩
    · rw [changed.mem_iff, Accounts.mem_credit]
    · rw [changed.others other different, Accounts.getElem?_credit, if_neg (Ne.symm different)]
    · obtain ⟨storage, own⟩ := changed.own
      refine ⟨storage, ?_⟩
      rw [own, Accounts.getElem?_credit, if_pos rfl, found, ← limit, ← balance_credit_totalAmount]
      rfl
    · rw [← limit, ← toNat_totalGas]
      exact UInt64.le_iff_toNat_le.mp spent
  · rw [receiveTransfers_idle config timeslot entropy runs]
    refine ⟨fun _ => Iff.rfl, fun _ _ => rfl, fun _ _ code some => absurd ⟨code, some⟩ runs, fun _ => rfl⟩

/-- A service close to the largest balance, whose code traps when it receives something, and another. -/
def trappingReceiver : Accounts :=
  ((∅ : Accounts).insert 9 {}).insert 7
    { balance := 0xfffffffffffffff0
      preimages := (∅ : Std.TreeMap Hash Bytes).insert Hash.zero (#[0] ++ Image.encode
        { readOnly := #[], readWrite := #[], heapPages := 0, stackSize := 0,
          blob := #[0, 0, 11, 0, 0, 0, 0, 0, 0, 0, 0, 0, 0, 0, 255, 7] }) }

def generousTransfers : Array Transfer :=
  #[{ destination := 7, amount := 40, gasLimit := 60 }, { destination := 7, amount := 2, gasLimit := 5 }]

theorem trappingReceiver_keeps_credit :
    (receiveTransfers {} trappingReceiver 7 3 Hash.zero generousTransfers).1[(9 : ServiceId)]? =
        trappingReceiver[(9 : ServiceId)]? ∧
      ((receiveTransfers {} trappingReceiver 7 3 Hash.zero generousTransfers).1[(7 : ServiceId)]?.map
        Account.balance) = some 0xffffffffffffffff ∧
      (receiveTransfers {} trappingReceiver 7 3 Hash.zero generousTransfers).2.toNat ≤ 65 := by
  have runs : trappingReceiver.HasCode 7 :=
    Accounts.hasCode_iff.mpr (Option.isSome_iff_exists.mp (by decide +kernel))
  obtain ⟨-, others, own, -⟩ :=
    receipts_change_own_account {} trappingReceiver 7 3 Hash.zero generousTransfers
  obtain ⟨⟨storage, credited⟩, spent⟩ := own _ Std.TreeMap.getElem?_insert_self runs (by decide)
  refine ⟨others 9 (by decide), ?_, spent⟩
  rw [credited]
  rfl

end ServiceVm
