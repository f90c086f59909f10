/-!
# Chains of steps that may fail

A chain that succeeds has gone through every step of it, and a chain that fails has failed in one of
them.
-/
namespace ServiceVm

variable {ε α β : Type} {x : Except ε α} {f : α → Except ε β} {cause : ε}

theorem bind_ok {b : β} : (x >>= f) = .ok b ↔ ∃ a, x = .ok a ∧ f a = .ok b := by
  cases x with
  | ok a => simp [bind, Except.bind]
  | error cause => simp [bind, Except.bind]

theorem pure_ok {a b : α} : (pure a : Except ε α) = .ok b ↔ a = b := by
  simp [pure, Except.pure]

theorem throw_ok {b : α} : (throw cause : Except ε α) = .ok b ↔ False := by
  simp [throw, throwThe, MonadExceptOf.throw]

theorem guard_ok {refused : Prop} [Decidable refused] {f : PUnit → Except ε α} {b : α} :
    (if refused then throw cause >>= f else x) = .ok b ↔ ¬refused ∧ x = .ok b := by
  by_cases h : refused <;> simp [h, throw_ok, bind_ok]

/-- A chain does not fail for a cause that none of its steps has. -/
theorem bind_ne_error (first : x ≠ .error cause) (rest : ∀ a, x = .ok a → f a ≠ .error cause) :
    (x >>= f) ≠ .error cause := by
  cases x with
  | ok a => exact rest a rfl
  | error other => simpa [bind, Except.bind] using first

theorem guard_ne_error {refused : Prop} [Decidable refused] {reason : ε} {f : PUnit → Except ε α}
    (other : refused → reason ≠ cause) (rest : ¬refused → x ≠ .error cause) :
    (if refused then throw reason >>= f else x) ≠ .error cause := by
  split
  · rename_i fails
    simpa [throw, throwThe, MonadExceptOf.throw, bind, Except.bind] using other fails
  · rename_i passes
    exact rest passes

end ServiceVm
