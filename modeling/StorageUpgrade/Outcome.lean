/-!
# Outcomes of chained steps

A chain of steps that may fail succeeds exactly if every step does.
-/

namespace StorageUpgrade

variable {ε α β : Type}

@[simp]
theorem ok_bind (a : α) (next : α → Except ε β) : Except.ok a >>= next = next a :=
  rfl

@[simp]
theorem error_bind (error : ε) (next : α → Except ε β) :
    Except.error error >>= next = .error error :=
  rfl

theorem exists_ok_of_isOk {step : Except ε α} (h : step.isOk = true) : ∃ a, step = .ok a := by
  cases step with
  | error error => cases h
  | ok a => exact ⟨a, rfl⟩

theorem bind_eq_ok_iff {step : Except ε α} {next : α → Except ε β} {b : β} :
    step >>= next = .ok b ↔ ∃ a, step = .ok a ∧ next a = .ok b := by
  cases step <;> simp [bind, Except.bind]

theorem map_eq_ok_iff {step : Except ε α} {f : α → β} {b : β} :
    step.map f = .ok b ↔ ∃ a, step = .ok a ∧ f a = b := by
  cases step <;> simp [Except.map]

theorem map_eq_self (step : Except ε α) : step.map (fun a => a) = step := by
  cases step <;> rfl

theorem map_map {γ : Type} (step : Except ε α) (f : α → β) (g : β → γ) :
    (step.map f).map g = step.map fun a => g (f a) := by
  cases step <;> rfl

theorem pure_eq_ok_iff {a b : α} : (pure a : Except ε α) = .ok b ↔ a = b := by
  simp [pure, Except.pure]

theorem get_bind_apply {σ : Type} {m : Type → Type} [Monad m] [LawfulMonad m]
    (next : σ → StateT σ m β) (s : σ) : (get >>= next) s = next s s :=
  pure_bind (s, s) fun result => next result.1 result.2

end StorageUpgrade
