import ServiceVm.Proofs.Host.Served
import ServiceVm.Proofs.Service.EntrySum

/-!
# Sums of balances

Balances and amounts are words; their sums are natural numbers. Sums that stay below the size of a
word are computed exactly by saturating additions.
-/
namespace ServiceVm

theorem toNat_saturatingAdd {a b : UInt64} (fits : a.toNat + b.toNat < UInt64.size) :
    (saturatingAdd a b).toNat = a.toNat + b.toNat := by
  have word : UInt64.size = maxWord + 1 := rfl
  rw [saturatingAdd, Nat.min_eq_left (by omega), UInt64.toNat_ofNat_of_lt' fits]

theorem Account.credit_zero (account : Account) : account.credit 0 = account := by
  have same : saturatingAdd account.balance 0 = account.balance :=
    UInt64.toNat_inj.mp (toNat_saturatingAdd account.balance.toNat_lt)
  rw [credit, same]

/-- Sum of the amounts of transfers. -/
def amountSum (transfers : Array Transfer) : Nat := (transfers.toList.map fun t => t.amount.toNat).sum

theorem amountSum_push (transfers : Array Transfer) (t : Transfer) :
    amountSum (transfers.push t) = amountSum transfers + t.amount.toNat := by
  simp [amountSum]

theorem toNat_foldl_saturatingAdd (transfers : List Transfer) (sum : UInt64)
    (fits : sum.toNat + (transfers.map fun t => t.amount.toNat).sum < UInt64.size) :
    (transfers.foldl (fun sum t => saturatingAdd sum t.amount) sum).toNat =
      sum.toNat + (transfers.map fun t => t.amount.toNat).sum := by
  induction transfers generalizing sum with
  | nil => rfl
  | cons t rest ih =>
    rw [List.map_cons, List.sum_cons] at fits ⊢
    have added : (saturatingAdd sum t.amount).toNat = sum.toNat + t.amount.toNat :=
      toNat_saturatingAdd (by omega)
    rw [List.foldl_cons, ih _ (by omega), added, Nat.add_assoc]

theorem toNat_totalAmount {transfers : Array Transfer} (fits : amountSum transfers < UInt64.size) :
    (totalAmount transfers).toNat = amountSum transfers := by
  rw [amountSum] at fits ⊢
  rw [totalAmount, ← Array.foldl_toList, toNat_foldl_saturatingAdd, UInt64.toNat_zero, Nat.zero_add]
  rw [UInt64.toNat_zero]
  omega

namespace Accounts

/-- Sum of all balances. -/
def total (accounts : Accounts) : Nat := entrySum (fun _ account => account.balance.toNat) accounts

variable {accounts : Accounts} {id : ServiceId} {account : Account}

theorem total_insert (found : accounts[id]? = some account) (changed : Account) :
    total (Std.TreeMap.insert accounts id changed) + account.balance.toNat =
      accounts.total + changed.balance.toNat := by
  have sums := entrySum_insert (fun _ account => account.balance.toNat) accounts id changed
  rw [found] at sums
  exact sums

theorem total_insert_absent (absent : accounts[id]? = none) (added : Account) :
    total (Std.TreeMap.insert accounts id added) = accounts.total + added.balance.toNat :=
  entrySum_insert_absent absent

theorem total_erase (found : accounts[id]? = some account) :
    total (Std.TreeMap.erase accounts id) + account.balance.toNat = accounts.total := by
  have sums := entrySum_erase (fun _ account => account.balance.toNat) accounts id
  rw [found] at sums
  exact sums

theorem balance_le_total (found : accounts[id]? = some account) :
    account.balance.toNat ≤ accounts.total :=
  le_entrySum (fun _ account => account.balance.toNat) found

theorem total_credit (found : accounts[id]? = some account) {amount : UInt64}
    (fits : accounts.total + amount.toNat < UInt64.size) :
    (accounts.credit id amount).total = accounts.total + amount.toNat := by
  have held := balance_le_total found
  have credited : (account.credit amount).balance.toNat = account.balance.toNat + amount.toNat :=
    toNat_saturatingAdd (by omega)
  have sums := total_insert found (account.credit amount)
  rw [credit, found]
  dsimp only
  omega

theorem getElem?_credit (accounts : Accounts) (id other : ServiceId) (amount : UInt64) :
    (accounts.credit id amount)[other]? =
      if id = other then (accounts[other]?).map (·.credit amount) else accounts[other]? := by
  rw [credit]
  split
  · rename_i account found
    rw [Std.TreeMap.getElem?_insert]
    by_cases same : id = other
    · subst same
      simp [found]
    · simp [same]
  · rename_i absent
    split
    · rename_i same
      subst same
      simp [absent]
    · rfl

end Accounts

theorem Host.payFrom?_balance {account payer : Account} {amount : UInt64}
    (pays : payFrom? account amount = some payer) :
    payer.balance.toNat + amount.toNat = account.balance.toNat := by
  rw [payFrom?] at pays
  split at pays
  · rename_i balance left
    split at pays
    · obtain rfl := Option.some.inj pays
      exact (deduct?_eq_some_iff _ _ _).mp left
    · contradiction
  · contradiction

/-- Paying changes the balance only. -/
theorem Host.payFrom?_eq {account payer : Account} {amount : UInt64}
    (pays : payFrom? account amount = some payer) : payer = { account with balance := payer.balance } := by
  rw [payFrom?] at pays
  split at pays
  · split at pays
    · obtain rfl := Option.some.inj pays
      rfl
    · contradiction
  · contradiction

end ServiceVm
