import Mathlib.Data.List.Nodup
import Mathlib.Data.List.Perm.Subperm
import Mathlib.Data.Nat.ModEq
import ServiceVm.Proofs.Service.Balance

/-!
# Ids for new services

Candidates for a new id go around the public ids. As long as one of these is unused the search
meets it before it has gone around once, and before it has tried more ids than there are accounts.
The id that an accumulation keeps for its next new service stays unused until that service takes it.
-/
namespace ServiceVm

/-- Ids that are handed out to new services. -/
def ServiceId.IsPublic (id : ServiceId) : Prop :=
  firstPublicId ≤ id.toNat ∧ id.toNat < addressSpace - 256

instance (id : ServiceId) : Decidable id.IsPublic := inferInstanceAs (Decidable (_ ∧ _))

/-- Whether a public id is left for a new service. -/
def Accounts.HasFreeId (accounts : Accounts) : Prop :=
  ∃ id : ServiceId, id.IsPublic ∧ accounts.contains id = false

/-- An accumulation has a public id left for a new service. -/
def HostContext.HasFreeId : HostContext → Prop
  | .accumulation c => c.current.state.accounts.HasFreeId
  | _ => True

/-- The search for an unused id without a bound on its length. -/
inductive Accounts.Search (accounts : Accounts) : ServiceId → ServiceId → Prop where
  | found {id : ServiceId} : accounts.contains id = false → Search accounts id id
  | next {id last : ServiceId} : accounts.contains id = true →
      Search accounts (ServiceId.advance id 1) last → Search accounts id last

namespace ServiceId

theorem toNat_ofOffset (n : Nat) :
    (UInt32.ofNat (firstPublicId + n % publicIds)).toNat = firstPublicId + n % publicIds := by
  have below := Nat.mod_lt n (show 0 < publicIds by decide)
  have fits : firstPublicId + publicIds < UInt32.size := by decide
  exact UInt32.toNat_ofNat_of_lt' (by omega)

theorem isPublic_ofOffset (n : Nat) : IsPublic (UInt32.ofNat (firstPublicId + n % publicIds)) := by
  have below := Nat.mod_lt n (show 0 < publicIds by decide)
  have whole : firstPublicId + publicIds = addressSpace - 256 := by decide
  rw [IsPublic, toNat_ofOffset]
  omega

theorem toNat_advance (id : ServiceId) (n : Nat) :
    (advance id n).toNat = firstPublicId + (id.toNat - firstPublicId + n) % publicIds :=
  toNat_ofOffset _

theorem isPublic_advance (id : ServiceId) (n : Nat) : (advance id n).IsPublic := isPublic_ofOffset _

theorem advance_advance (id : ServiceId) (a b : Nat) : advance (advance id a) b = advance id (a + b) := by
  apply UInt32.toNat_inj.mp
  rw [toNat_advance, toNat_advance, toNat_advance, Nat.add_sub_cancel_left, Nat.mod_add_mod, Nat.add_assoc]

variable {id : ServiceId}

theorem IsPublic.offset_lt (isPublic : id.IsPublic) : id.toNat - firstPublicId < publicIds := by
  have whole : firstPublicId + publicIds = addressSpace - 256 := by decide
  obtain ⟨low, high⟩ := isPublic
  omega

theorem IsPublic.advance_zero (isPublic : id.IsPublic) : advance id 0 = id := by
  apply UInt32.toNat_inj.mp
  rw [toNat_advance, Nat.add_zero, Nat.mod_eq_of_lt isPublic.offset_lt]
  exact Nat.add_sub_cancel' isPublic.1

theorem IsPublic.exists_advance (isPublic : id.IsPublic) {other : ServiceId} (public' : other.IsPublic) :
    ∃ n < publicIds, advance id n = other := by
  have here := isPublic.offset_lt
  have there := public'.offset_lt
  refine ⟨(other.toNat - firstPublicId + (publicIds - (id.toNat - firstPublicId))) % publicIds,
    Nat.mod_lt _ (by decide), UInt32.toNat_inj.mp ?_⟩
  rw [toNat_advance, Nat.add_mod_mod]
  have around : id.toNat - firstPublicId +
      (other.toNat - firstPublicId + (publicIds - (id.toNat - firstPublicId))) =
      other.toNat - firstPublicId + publicIds := by omega
  rw [around, Nat.add_mod_right, Nat.mod_eq_of_lt there]
  exact Nat.add_sub_cancel' public'.1

theorem advance_inj {a b : Nat} (ha : a < publicIds) (hb : b < publicIds)
    (same : advance id a = advance id b) : a = b := by
  have places := congrArg UInt32.toNat same
  rw [toNat_advance, toNat_advance] at places
  have congruent : Nat.ModEq publicIds (id.toNat - firstPublicId + a) (id.toNat - firstPublicId + b) :=
    Nat.add_left_cancel places
  have cancelled := Nat.ModEq.add_left_cancel' _ congruent
  rwa [Nat.ModEq, Nat.mod_eq_of_lt ha, Nat.mod_eq_of_lt hb] at cancelled

end ServiceId

namespace Accounts

variable {accounts : Accounts} {id : ServiceId}

theorem freeIdWithin_used {tries : Nat} (isPublic : id.IsPublic)
    (used : accounts.contains (accounts.freeIdWithin tries id) = true) :
    ∀ n ≤ tries, accounts.contains (ServiceId.advance id n) = true := by
  induction tries generalizing id with
  | zero =>
    intro n none
    obtain rfl := Nat.le_zero.mp none
    rw [isPublic.advance_zero]
    exact used
  | succ tries ih =>
    rw [freeIdWithin] at used
    split at used
    · rename_i taken
      intro n bound
      cases n with
      | zero =>
        rw [isPublic.advance_zero]
        exact taken
      | succ n =>
        have later := ih (ServiceId.isPublic_advance id 1) used n (by omega)
        rw [ServiceId.advance_advance, Nat.add_comm 1 n] at later
        exact later
    · contradiction

theorem freeId_unused (free : accounts.HasFreeId) (isPublic : id.IsPublic) :
    accounts.contains (accounts.freeId id) = false := by
  by_contra taken
  have used := freeIdWithin_used isPublic ((Bool.not_eq_false _).mp taken)
  obtain ⟨unused, public', absent⟩ := free
  by_cases crowded : publicIds ≤ accounts.size
  · -- The search went all the way around.
    obtain ⟨n, bound, rfl⟩ := isPublic.exists_advance public'
    rw [used n (by omega)] at absent
    contradiction
  · -- The search met more distinct ids than there are accounts.
    let met := (List.range (accounts.size + 1)).map (ServiceId.advance id)
    have distinct : met.Nodup := by
      refine List.Nodup.map_on ?_ List.nodup_range
      intro a ha b hb same
      rw [List.mem_range] at ha hb
      exact ServiceId.advance_inj (by omega) (by omega) same
    have inUse : met ⊆ accounts.keys := by
      intro other member
      obtain ⟨n, bound, rfl⟩ := List.mem_map.mp member
      rw [List.mem_range] at bound
      exact Std.TreeMap.mem_keys.mpr (Std.TreeMap.contains_iff_mem.mp (used n (by omega)))
    have count := (List.subperm_of_subset distinct inUse).length_le
    rw [List.length_map, List.length_range, Std.TreeMap.length_keys] at count
    omega

theorem freeIdWithin_search {tries : Nat}
    (unused : accounts.contains (accounts.freeIdWithin tries id) = false) :
    accounts.Search id (accounts.freeIdWithin tries id) := by
  induction tries generalizing id with
  | zero => exact .found unused
  | succ tries ih =>
    rw [freeIdWithin] at unused ⊢
    split
    · rename_i taken
      rw [if_pos taken] at unused
      exact .next taken (ih unused)
    · rename_i absent
      exact .found ((Bool.not_eq_true _).mp absent)

/-- The bounded search ends where the unbounded one does. -/
theorem freeId_search (free : accounts.HasFreeId) (isPublic : id.IsPublic) :
    accounts.Search id (accounts.freeId id) :=
  freeIdWithin_search (freeId_unused free isPublic)

theorem nextId_unused (free : accounts.HasFreeId) (id : ServiceId) :
    accounts.contains (accounts.nextId id) = false :=
  freeId_unused free (ServiceId.isPublic_advance id 42)

end Accounts

theorem initialServiceId_unused {accounts : Accounts} (free : accounts.HasFreeId) (service : ServiceId)
    (entropy : Hash) (timeslot : TimeSlot) :
    accounts.contains (initialServiceId service entropy timeslot accounts) = false := by
  apply Accounts.freeId_unused free
  exact ServiceId.isPublic_ofOffset _

/-! ## The id kept for the next new service -/

namespace Outcome

variable {config : Config} {timeslot : TimeSlot} {call : HostCall} {x x' : Outcome} {account : Account}

/-- The id kept for the next new service is unused. -/
def Fresh (x : Outcome) : Prop := x.state.accounts[x.nextFreeId]? = none

theorem Fresh.ne_service (fresh : x.Fresh) (self : x.self? = some account) : x.service ≠ x.nextFreeId := by
  intro same
  rw [self?, same, fresh] at self
  contradiction

theorem Fresh.insert_service (fresh : x.Fresh) (self : x.self? = some account) (changed : Account) :
    (x.state.accounts.insert x.service changed)[x.nextFreeId]? = none := by
  rw [Std.TreeMap.getElem?_insert, if_neg, fresh]
  intro same
  exact fresh.ne_service self (Std.LawfulEqOrd.eq_of_compare same)

theorem Fresh.setSelf (fresh : x.Fresh) (self : x.self? = some account) (changed : Account) :
    (x.setSelf changed).Fresh := fresh.insert_service self changed

theorem fresh_create {payer added : Account} (free : (x.create payer added).state.accounts.HasFreeId) :
    (x.create payer added).Fresh :=
  Std.TreeMap.getElem?_eq_none_of_contains_eq_false (Accounts.nextId_unused free x.nextFreeId)

theorem Fresh.eject (fresh : x.Fresh) (target : ServiceId) (amount : UInt64) :
    (x.setAccounts (Accounts.credit (x.state.accounts.erase target) x.service amount)).Fresh := by
  refine (Accounts.getElem?_credit (x.state.accounts.erase target) x.service x.nextFreeId amount).trans ?_
  have absent : (x.state.accounts.erase target)[x.nextFreeId]? = none := by
    rw [Std.TreeMap.getElem?_erase, fresh, ite_self]
  rw [absent, Option.map_none, ite_self]

/-- Calls keep the id unused; a new service needs another one to follow it. -/
theorem Served.fresh (served : x.Served config timeslot call x') (fresh : x.Fresh)
    (free : call = .new → x'.state.accounts.HasFreeId) : x'.Fresh := by
  cases served with
  | write key value self => exact fresh.setSelf self _
  | new => exact fresh_create (free rfl)
  | upgrade codeHash minItemGas minMemoGas self => exact fresh.setSelf self _
  | transfer deferred source known paysGas self => exact fresh.insert_service self _
  | eject target => exact fresh.eject target _
  | solicit request self => exact fresh.setSelf self _
  | resolicit request first second self => exact fresh.setSelf self _
  | forget request self => exact fresh.setSelf self _
  | yield => exact fresh
  | provide => exact fresh
  | bless => exact fresh
  | assign => exact fresh
  | designate => exact fresh

end Outcome

theorem AccumulationInput.initial_fresh {input : AccumulationInput} {state : ChainState}
    (free : (input.initial state).state.accounts.HasFreeId) : (input.initial state).Fresh :=
  Std.TreeMap.getElem?_eq_none_of_contains_eq_false
    (initialServiceId_unused free input.service input.entropy input.timeslot)

end ServiceVm
