import ServiceVm.Bytes

/-!
# Operations with a range

A sum or a product that does not fit a word, a difference below zero and a slice that is not inside
its data have no value here. A function written with these operations and proved to have a value
performs none of them out of range.
-/
namespace ServiceVm.Checked

def add (a b : Nat) : Option Nat := if a + b < UInt64.size then some (a + b) else none

def mul (a b : Nat) : Option Nat := if a * b < UInt64.size then some (a * b) else none

def sub (a b : Nat) : Option Nat := if b ≤ a then some (a - b) else none

def slice (data : Bytes) (start stop : Nat) : Option Bytes :=
  if start ≤ stop ∧ stop ≤ data.size then some (data.extract start stop) else none

theorem add_eq {a b : Nat} (fits : a + b < UInt64.size) : add a b = some (a + b) := if_pos fits

theorem mul_eq {a b : Nat} (fits : a * b < UInt64.size) : mul a b = some (a * b) := if_pos fits

theorem sub_eq {a b : Nat} (fits : b ≤ a) : sub a b = some (a - b) := if_pos fits

theorem slice_eq {data : Bytes} {start stop : Nat} (ordered : start ≤ stop) (inside : stop ≤ data.size) :
    slice data start stop = some (data.extract start stop) := if_pos ⟨ordered, inside⟩

/-- A sum that is refused for its range is refused for any limit that fits a word. -/
theorem filter_add {a b limit : Nat} (word : limit < UInt64.size) :
    (add a b).filter (· ≤ limit) = if limit < a + b then none else some (a + b) := by
  by_cases beyond : limit < a + b
  · rw [if_pos beyond, add]
    split
    · simp [Option.filter, beyond]
    · rfl
  · rw [if_neg beyond, add_eq (by omega)]
    simp [Option.filter, Nat.le_of_not_lt beyond]

theorem filter_mul {a b limit : Nat} (word : limit < UInt64.size) :
    (mul a b).filter (· < limit) = if limit ≤ a * b then none else some (a * b) := by
  by_cases beyond : limit ≤ a * b
  · rw [if_pos beyond, mul]
    split
    · simp [Option.filter, beyond]
    · rfl
  · rw [if_neg beyond, mul_eq (by omega)]
    simp [Option.filter, Nat.lt_of_not_le beyond]

theorem mapM_eq_map {α β : Type} {f : α → Option β} {g : α → β} {items : List α}
    (same : ∀ a ∈ items, f a = some (g a)) : items.mapM f = some (items.map g) := by
  induction items with
  | nil => rfl
  | cons a items ih =>
    rw [List.mapM_cons, same a (by simp), ih fun b member => same b (by simp [member])]
    rfl

end ServiceVm.Checked
