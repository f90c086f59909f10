import Mathlib.Algebra.BigOperators.Group.List.Basic
import Mathlib.Algebra.GroupWithZero.Nat
import ServiceVm.Service.Account

/-!
# Sums over the entries of a map

Setting a key replaces what the old entry contributed, and removing a key takes it off.
-/
namespace ServiceVm

/-- Requests are ordered by hash, then by length. -/
theorem Request.compare_eq (a b : Request) :
    compare a b = (compare a.hash b.hash).then (compare a.length b.length) := rfl

instance : Std.TransOrd Request :=
  inferInstanceAs (Std.TransCmp (compareLex (compareOn Request.hash) (compareOn Request.length)))

instance : Std.LawfulEqOrd Request where
  eq_of_compare {a b} same := by
    rw [Request.compare_eq, Ordering.then_eq_eq] at same
    obtain ⟨hash, length⟩ := same
    cases a
    cases b
    rw [Request.mk.injEq]
    exact ⟨Std.LawfulEqOrd.eq_of_compare hash, Std.LawfulEqOrd.eq_of_compare length⟩

section

variable {α β : Type} [Ord α]

def entrySum (f : α → β → Nat) (t : Std.TreeMap α β) : Nat := t.foldl (fun sum k v => sum + f k v) 0

variable {f : α → β → Nat} {t t' : Std.TreeMap α β} {k : α} {v : β}

theorem entrySum_eq (f : α → β → Nat) (t : Std.TreeMap α β) :
    entrySum f t = (t.toList.map fun e => f e.1 e.2).sum := by
  rw [entrySum, Std.TreeMap.foldl_eq_foldl_toList, List.sum_eq_foldl, List.foldl_map]

theorem size_eq_entrySum (t : Std.TreeMap α β) : t.size = entrySum (fun _ _ => 1) t := by
  simp [entrySum_eq]

theorem entrySum_of_equiv (same : t.Equiv t') : entrySum f t = entrySum f t' := by
  rw [entrySum_eq, entrySum_eq]
  exact ((Std.TreeMap.equiv_iff_toList_perm.mp same).map _).sum_eq

variable [Std.TransOrd α] [Std.LawfulEqOrd α]

theorem entrySum_insert_absent (absent : t[k]? = none) :
    entrySum f (t.insert k v) = entrySum f t + f k v := by
  classical
  let _ : BEq α := instBEqOfDecidableEq
  have added : (t.insert k v).toList.Perm ((k, v) :: t.toList.filter (¬k == ·.1)) :=
    Std.TreeMap.toList_insert_perm
  have others : t.toList.filter (¬k == ·.1) = t.toList := by
    rw [List.filter_eq_self]
    intro e member
    have found := Std.TreeMap.mem_toList_iff_getElem?_eq_some.mp member
    simp only [decide_eq_true_eq, beq_iff_eq]
    rintro rfl
    rw [absent] at found
    contradiction
  rw [others] at added
  rw [entrySum_eq, entrySum_eq, (added.map _).sum_eq, List.map_cons, List.sum_cons, Nat.add_comm]

theorem entrySum_erase (f : α → β → Nat) (t : Std.TreeMap α β) (k : α) :
    entrySum f (t.erase k) + (t[k]?).elim 0 (f k) = entrySum f t := by
  have absent : (t.erase k)[k]? = none := Std.TreeMap.getElem?_erase_self
  cases found : t[k]? with
  | none =>
    refine entrySum_of_equiv (.of_forall_constGet?_eq ?_)
    intro other
    rw [Std.TreeMap.getElem?_erase]
    split
    · rename_i same
      rw [← Std.LawfulEqOrd.eq_of_compare same, found]
    · rfl
  | some v =>
    have back : ((t.erase k).insert k v).Equiv t := by
      refine .of_forall_constGet?_eq ?_
      intro other
      rw [Std.TreeMap.getElem?_insert, Std.TreeMap.getElem?_erase]
      split
      · rename_i same
        rw [← Std.LawfulEqOrd.eq_of_compare same, found]
      · rfl
    rw [← entrySum_of_equiv back, entrySum_insert_absent absent]
    rfl

theorem entrySum_insert (f : α → β → Nat) (t : Std.TreeMap α β) (k : α) (v : β) :
    entrySum f (t.insert k v) + (t[k]?).elim 0 (f k) = entrySum f t + f k v := by
  have again : (t.insert k v).Equiv ((t.erase k).insert k v) := by
    refine .of_forall_constGet?_eq ?_
    intro other
    rw [Std.TreeMap.getElem?_insert, Std.TreeMap.getElem?_insert, Std.TreeMap.getElem?_erase]
    split <;> rfl
  rw [entrySum_of_equiv again, entrySum_insert_absent Std.TreeMap.getElem?_erase_self,
    ← entrySum_erase f t k]
  omega

theorem le_entrySum (f : α → β → Nat) (found : t[k]? = some v) : f k v ≤ entrySum f t := by
  have split := entrySum_erase f t k
  rw [found, Option.elim_some] at split
  omega

end

end ServiceVm
