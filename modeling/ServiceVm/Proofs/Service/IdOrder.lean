import ServiceVm.Proofs.Service.FreshId

/-!
# The order in which ids are tried

From a public id the search goes up to the last public id and on from the first one. It ends if and
only if a public id is unused, and then it has found the first such id in that order.
-/
namespace ServiceVm

namespace ServiceId

variable {id : ServiceId}

/-- The public ids in the order `id`, `id + 1`, …, from the last one on to the first. -/
def cycle (id : ServiceId) : List ServiceId :=
  (List.range' id.toNat (addressSpace - 256 - id.toNat) ++
    List.range' firstPublicId (id.toNat - firstPublicId)).map UInt32.ofNat

theorem IsPublic.toNat_advance_eq (isPublic : id.IsPublic) {n : Nat} (around : n < publicIds) :
    (advance id n).toNat =
      if id.toNat + n < addressSpace - 256 then id.toNat + n else id.toNat + n - publicIds := by
  have whole : firstPublicId + publicIds = addressSpace - 256 := by decide
  have start := isPublic.1
  have offset := isPublic.offset_lt
  rw [toNat_advance]
  split
  · rw [Nat.mod_eq_of_lt (by omega)]
    omega
  · rw [Nat.mod_eq_sub_mod (by omega), Nat.mod_eq_of_lt (by omega)]
    omega

theorem IsPublic.cycle_eq (isPublic : id.IsPublic) : id.cycle = (List.range publicIds).map (advance id) := by
  have whole : firstPublicId + publicIds = addressSpace - 256 := by decide
  obtain ⟨low, high⟩ := isPublic
  apply List.ext_getElem
  · simp only [cycle, List.length_map, List.length_append, List.length_range', List.length_range]
    omega
  · intro n _ inCycle
    rw [List.length_map, List.length_range] at inCycle
    simp only [cycle, List.getElem_map, List.getElem_range, List.getElem_append, List.length_range',
      List.getElem_range', Nat.one_mul]
    have place := IsPublic.toNat_advance_eq ⟨low, high⟩ inCycle
    rw [← UInt32.ofNat_toNat (x := advance id n), place]
    by_cases upper : n < addressSpace - 256 - id.toNat
    · rw [dif_pos upper, if_pos (by omega)]
    · rw [dif_neg upper, if_neg (by omega)]
      exact congrArg UInt32.ofNat (by omega)

end ServiceId

namespace Accounts

variable {accounts : Accounts} {id last : ServiceId}

theorem Search.exists_advance (search : accounts.Search id last) (isPublic : id.IsPublic) :
    ∃ n, last = ServiceId.advance id n ∧ accounts.contains last = false ∧
      ∀ m < n, accounts.contains (ServiceId.advance id m) = true := by
  induction search with
  | found unused => exact ⟨0, isPublic.advance_zero.symm, unused, fun _ none => absurd none (Nat.not_lt_zero _)⟩
  | @next id last taken _ ih =>
    obtain ⟨n, rfl, unused, before⟩ := ih (ServiceId.isPublic_advance id 1)
    refine ⟨n + 1, by rw [ServiceId.advance_advance, Nat.add_comm], unused, ?_⟩
    intro m bound
    cases m with
    | zero =>
      rw [isPublic.advance_zero]
      exact taken
    | succ m =>
      have later := before m (by omega)
      rw [ServiceId.advance_advance, Nat.add_comm] at later
      exact later

theorem Search.exists_lt (search : accounts.Search id last) (isPublic : id.IsPublic) :
    ∃ n < publicIds, last = ServiceId.advance id n ∧ accounts.contains last = false ∧
      ∀ m < n, accounts.contains (ServiceId.advance id m) = true := by
  obtain ⟨n, rfl, unused, before⟩ := search.exists_advance isPublic
  refine ⟨n, ?_, rfl, unused, before⟩
  by_contra far
  obtain ⟨m, near, same⟩ := isPublic.exists_advance (ServiceId.isPublic_advance id n)
  have used := before m (by omega)
  rw [same, unused] at used
  contradiction

theorem exists_search_iff (isPublic : id.IsPublic) :
    (∃ last, accounts.Search id last) ↔ accounts.HasFreeId := by
  constructor
  · rintro ⟨last, search⟩
    obtain ⟨n, -, rfl, unused, -⟩ := search.exists_lt isPublic
    exact ⟨_, ServiceId.isPublic_advance id n, unused⟩
  · intro free
    exact ⟨_, freeId_search free isPublic⟩

/-- What the search finds is the first unused id of the cycle. -/
theorem find?_cycle (free : accounts.HasFreeId) (isPublic : id.IsPublic) :
    id.cycle.find? (fun other => !accounts.contains other) = some (accounts.freeId id) := by
  obtain ⟨n, around, found, unused, before⟩ := (freeId_search free isPublic).exists_lt isPublic
  have first : (List.range publicIds).find?
      ((fun other => !accounts.contains other) ∘ ServiceId.advance id) = some n := by
    rw [List.find?_range_eq_some]
    refine ⟨?_, List.mem_range.mpr around, ?_⟩
    · rw [Function.comp_apply, ← found, unused]
      rfl
    · intro m earlier
      rw [Function.comp_apply, before m earlier]
      rfl
  rw [isPublic.cycle_eq, List.find?_map, first, Option.map_some, found]

theorem isPublic_freeId (isPublic : id.IsPublic) : (accounts.freeId id).IsPublic := by
  rw [freeId]
  generalize accounts.size = tries
  induction tries generalizing id with
  | zero => exact isPublic
  | succ tries ih =>
    rw [freeIdWithin]
    split
    · exact ih (ServiceId.isPublic_advance id 1)
    · exact isPublic

end Accounts

end ServiceVm
