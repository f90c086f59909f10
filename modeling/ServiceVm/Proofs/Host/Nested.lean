import Mathlib.Data.List.Nodup
import Mathlib.Data.List.Perm.Subperm
import ServiceVm.Proofs.Host.Served
import ServiceVm.Proofs.Machine.MemoryUse

/-!
# Nested machines

Machines of a refinement are kept by handle. A new machine gets a handle that is not in use, so that
it does not take the place of another; all other calls change the machine that they name, and leave the
others alone.
-/
namespace ServiceVm

/-! ## Handles -/

/-- The handle to try next, once `used` is met. -/
def nextHandle (handle used : UInt64) : UInt64 := if used = handle then handle + 1 else handle

theorem foldl_nextHandle_of_lt {handles : List UInt64} {handle : UInt64}
    (above : ∀ used ∈ handles, handle < used) : handles.foldl nextHandle handle = handle := by
  induction handles with
  | nil => rfl
  | cons used rest ih =>
    obtain ⟨first, others⟩ := List.forall_mem_cons.mp above
    rw [List.foldl_cons, nextHandle, if_neg (UInt64.ne_of_lt first).symm, ih others]

/-- Handles that are met in order are counted up to the first gap between them. As there is a gap, the
count does not wrap around. -/
theorem foldl_nextHandle_unused {handles : List UInt64} {handle free : UInt64}
    (sorted : handles.Pairwise (· < ·)) (low : ∀ used ∈ handles, handle ≤ used) (room : handle ≤ free)
    (unused : free ∉ handles) :
    handle ≤ handles.foldl nextHandle handle ∧ handles.foldl nextHandle handle ∉ handles := by
  induction handles generalizing handle with
  | nil => exact ⟨UInt64.le_refl _, List.not_mem_nil⟩
  | cons used rest ih =>
    obtain ⟨above, sorted⟩ := List.pairwise_cons.mp sorted
    obtain ⟨notFirst, notRest⟩ := not_or.mp (mt List.mem_cons.mpr unused)
    -- The candidate moves on as long as it meets the next handle; at the first gap it stays.
    by_cases met : used = handle
    · subst met
      have next {other : UInt64} (less : used < other) :
          (used + 1).toNat = used.toNat + 1 ∧ used + 1 ≤ other := by
        have bound := other.toNat_lt
        have order := UInt64.lt_iff_toNat_lt.mp less
        have sum : (used + 1).toNat = used.toNat + 1 := by
          rw [UInt64.toNat_add, Nat.mod_eq_of_lt (by simp; omega)]
          rfl
        exact ⟨sum, UInt64.le_iff_toNat_le.mpr (by omega)⟩
      have room : used < free := UInt64.lt_of_le_of_ne room (Ne.symm notFirst)
      obtain ⟨order, fresh⟩ :=
        ih sorted (fun other member => (next (above other member)).2) (next room).2 notRest
      have past : used < rest.foldl nextHandle (used + 1) := by
        have sum := (next room).1
        rw [UInt64.le_iff_toNat_le] at order
        rw [UInt64.lt_iff_toNat_lt]
        omega
      rw [List.foldl_cons, nextHandle, if_pos rfl]
      exact ⟨UInt64.le_of_lt past, mt List.mem_cons.mp (not_or.mpr ⟨(UInt64.ne_of_lt past).symm, fresh⟩)⟩
    · have gap : ∀ other ∈ used :: rest, handle < other := by
        have first : handle < used := UInt64.lt_of_le_of_ne (low used List.mem_cons_self) (Ne.symm met)
        exact List.forall_mem_cons.mpr ⟨first, fun other member => UInt64.lt_trans first (above other member)⟩
      rw [foldl_nextHandle_of_lt gap]
      exact ⟨UInt64.le_refl _, fun member => UInt64.lt_irrefl _ (gap handle member)⟩

/-- No machine has the handle, and every smaller handle is in use. -/
structure LeastUnused (machines : Std.TreeMap UInt64 NestedMachine) (handle : UInt64) : Prop where
  unused : machines[handle]? = none
  least : ∀ smaller < handle, machines[smaller]? ≠ none

theorem mem_of_lt_foldl_nextHandle {handles : List UInt64} {handle smaller : UInt64}
    (sorted : handles.Pairwise (· < ·)) (low : handle ≤ smaller)
    (below : smaller < handles.foldl nextHandle handle) : smaller ∈ handles := by
  induction handles generalizing handle with
  | nil => exact absurd (UInt64.lt_of_le_of_lt low below) (UInt64.lt_irrefl _)
  | cons used rest ih =>
    obtain ⟨above, sorted⟩ := List.pairwise_cons.mp sorted
    rw [List.foldl_cons] at below
    by_cases met : used = handle
    · subst met
      rw [nextHandle, if_pos rfl] at below
      rcases UInt64.lt_or_eq_of_le low with past | same
      · have next : used + 1 ≤ smaller := by
          have bound := smaller.toNat_lt
          rw [UInt64.lt_iff_toNat_lt] at past
          rw [UInt64.le_iff_toNat_le, UInt64.toNat_add, UInt64.toNat_one, Nat.mod_eq_of_lt (by omega)]
          exact past
        exact List.mem_cons_of_mem _ (ih sorted next below)
      · exact same ▸ List.mem_cons_self
    · rw [nextHandle, if_neg met] at below
      exact List.mem_cons_of_mem _ (ih sorted low below)

section Machines

variable {machines : Std.TreeMap UInt64 NestedMachine} {handle other : UInt64} {n n' : NestedMachine}

theorem unusedHandle_eq_foldl : unusedHandle machines = machines.keys.foldl nextHandle 0 :=
  Std.TreeMap.foldl_eq_foldl_keys

theorem keys_sorted : machines.keys.Pairwise (· < ·) :=
  (Std.TreeMap.ordered_keys (t := machines)).imp fun less => compareOfLessAndEq_eq_lt.mp less

theorem unusedHandle_unused {free : UInt64} (room : machines[free]? = none) :
    machines[unusedHandle machines]? = none := by
  have unused : free ∉ machines.keys := by
    rw [Std.TreeMap.mem_keys, Std.TreeMap.mem_iff_isSome_getElem?, room]
    nofun
  have fresh := (foldl_nextHandle_unused keys_sorted (fun _ _ => UInt64.zero_le) UInt64.zero_le unused).2
  rw [← unusedHandle_eq_foldl, Std.TreeMap.mem_keys] at fresh
  exact Std.TreeMap.getElem?_eq_none fresh

theorem leastUnused_unusedHandle {free : UInt64} (room : machines[free]? = none) :
    LeastUnused machines (unusedHandle machines) where
  unused := unusedHandle_unused room
  least smaller below missing := by
    rw [unusedHandle_eq_foldl] at below
    have used := mem_of_lt_foldl_nextHandle keys_sorted UInt64.zero_le below
    rw [Std.TreeMap.mem_keys, Std.TreeMap.mem_iff_isSome_getElem?, missing] at used
    contradiction

theorem exists_unused (few : machines.size < UInt64.size) : ∃ free : UInt64, machines[free]? = none := by
  by_contra full
  have used (handle : UInt64) : handle ∈ machines.keys := by
    rw [Std.TreeMap.mem_keys]
    by_contra missing
    exact full ⟨handle, Std.TreeMap.getElem?_eq_none missing⟩
  have distinct : ((List.range UInt64.size).map UInt64.ofNat).Nodup := by
    refine (List.nodup_map_iff_inj_on List.nodup_range).mpr ?_
    intro a low b high same
    rw [List.mem_range] at low high
    have numbers := congrArg UInt64.toNat same
    rwa [UInt64.toNat_ofNat_of_lt' low, UInt64.toNat_ofNat_of_lt' high] at numbers
  have count := (distinct.subperm fun handle _ => used handle).length_le
  rw [List.length_map, List.length_range, Std.TreeMap.length_keys] at count
  omega

theorem insert_machine (found : (machines.insert handle n)[other]? = some n') :
    (other = handle ∧ n' = n) ∨ machines[other]? = some n' := by
  rw [Std.TreeMap.getElem?_insert] at found
  split at found
  · rename_i same
    exact .inl ⟨(Std.LawfulEqCmp.eq_of_compare same).symm, (Option.some.inj found).symm⟩
  · exact .inr found

theorem getElem?_insert_of_ne (n : NestedMachine) (different : other ≠ handle) :
    (machines.insert handle n)[other]? = machines[other]? := by
  rw [Std.TreeMap.getElem?_insert, if_neg]
  exact fun same => different (Std.LawfulEqCmp.eq_of_compare same).symm

theorem getElem?_erase_of_ne (different : other ≠ handle) :
    (machines.erase handle)[other]? = machines[other]? := by
  rw [Std.TreeMap.getElem?_erase, if_neg]
  exact fun same => different (Std.LawfulEqCmp.eq_of_compare same).symm

theorem size_insert_of_named (named : machines[handle]? = some n) (n' : NestedMachine) :
    (machines.insert handle n').size = machines.size := by
  have used : handle ∈ machines := by
    rw [Std.TreeMap.mem_iff_isSome_getElem?, named]
    rfl
  rw [Std.TreeMap.size_insert, if_pos (Std.TreeMap.mem_iff_contains.mp used)]

theorem NestedMachine.run_memory (n : NestedMachine) (config : Config) (gas : UInt64) (registers : Registers) :
    n.memory.Worked (NestedMachine.ofMachine (n.run config gas registers).2).memory :=
  Machine.run_memory ⟨n.program, ⟨n.pc, registers, n.memory⟩, gas, n.meter⟩ config.gasMode

/-- What a call makes of the memory of a machine that is kept. -/
inductive NestedMachine.Handled (config : Config) (n : NestedMachine) : HostCall → Memory → Prop where
  | same {call : HostCall} : Handled config n call n.memory
  | poke (start : Nat) (data : Bytes) : Handled config n .poke (n.memory.write start data)
  | pages {first : Nat} (count : Nat) (access : Access) (zero : Bool) : firstMutablePage ≤ first →
      Handled config n .pages (n.memory.setPages first count access zero)
  | invoke (gas : UInt64) (registers : Registers) :
      Handled config n .invoke (n.run config gas registers).2.cpu.memory

namespace RefinementContext.Served

variable {config : Config} {call : HostCall} {c c' : RefinementContext}

theorem handled (served : c.Served config call c') (new : c'.machines[handle]? = some n') :
    (handle = unusedHandle c.machines ∧ n'.memory = {}) ∨
      ∃ n, c.machines[handle]? = some n ∧ n.Handled config call n'.memory := by
  cases served with
  | exportSegment => exact .inr ⟨n', new, .same⟩
  | machine =>
    rcases insert_machine new with ⟨rfl, rfl⟩ | kept
    · exact .inl ⟨rfl, rfl⟩
    · exact .inr ⟨n', kept, .same⟩
  | poke _ _ data named =>
    rcases insert_machine new with ⟨rfl, rfl⟩ | kept
    · exact .inr ⟨_, named, .poke _ data⟩
    · exact .inr ⟨n', kept, .same⟩
  | pages _ _ _ _ named _ above =>
    rcases insert_machine new with ⟨rfl, rfl⟩ | kept
    · exact .inr ⟨_, named, .pages _ _ _ above⟩
    · exact .inr ⟨n', kept, .same⟩
  | invoke _ gas registers named =>
    rcases insert_machine new with ⟨rfl, rfl⟩ | kept
    · exact .inr ⟨_, named, .invoke gas registers⟩
    · exact .inr ⟨n', kept, .same⟩
  | expunge =>
    rw [Std.TreeMap.getElem?_erase] at new
    split at new
    · contradiction
    · exact .inr ⟨n', new, .same⟩

/-- Three calls change the memory of a machine that is kept: the one that copies bytes into it, the one
that sets the rights of its pages, and the one that runs it. -/
theorem nested {free : UInt64} (served : c.Served config call c') (room : c.machines[free]? = none)
    (before : c.machines[handle]? = some n) (after : c'.machines[handle]? = some n') :
    n'.memory = n.memory ∨ call = .poke ∨ call = .pages ∨ (call = .invoke ∧ n.memory.Worked n'.memory) := by
  rcases served.handled after with ⟨rfl, -⟩ | ⟨n₀, found, handled⟩
  · rw [unusedHandle_unused room] at before
    contradiction
  · obtain rfl := Option.some.inj (before.symm.trans found)
    generalize n'.memory = memory at handled
    cases handled with
    | same => exact .inl rfl
    | poke => exact .inr (.inl rfl)
    | pages => exact .inr (.inr (.inl rfl))
    | invoke gas registers => exact .inr (.inr (.inr ⟨rfl, n.run_memory config gas registers⟩))

end RefinementContext.Served

end Machines

end ServiceVm
