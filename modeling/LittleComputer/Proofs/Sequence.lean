/-! One action after another: both succeed, or the first failure is that of the whole. -/
namespace LittleComputer
variable {ε ε' τ α β : Type}

theorem bind_of_ok {x : EStateM ε τ α} {f : α → EStateM ε τ β} {s s' : τ} {a : α}
    (h : x s = .ok a s') : (x >>= f) s = f a s' := by
  simp only [Bind.bind, EStateM.bind, h]

theorem bind_of_error {x : EStateM ε τ α} {f : α → EStateM ε τ β} {s s' : τ} {e : ε}
    (h : x s = .error e s') : (x >>= f) s = .error e s' := by
  simp only [Bind.bind, EStateM.bind, h]

theorem bind_eq_ok {x : EStateM ε τ α} {f : α → EStateM ε τ β} {s s' : τ} {b : β} :
    (x >>= f) s = .ok b s' ↔ ∃ a s₁, x s = .ok a s₁ ∧ f a s₁ = .ok b s' := by
  simp only [Bind.bind, EStateM.bind]
  cases x s <;> simp [and_assoc]

theorem bind_eq_error {x : EStateM ε τ α} {f : α → EStateM ε τ β} {s s' : τ} {e : ε} :
    (x >>= f) s = .error e s' ↔
      x s = .error e s' ∨ ∃ a s₁, x s = .ok a s₁ ∧ f a s₁ = .error e s' := by
  simp only [Bind.bind, EStateM.bind]
  cases x s <;> simp [and_assoc]

theorem adaptExcept_eq_ok {x : EStateM ε τ α} {f : ε → ε'} {s s' : τ} {a : α} :
    x.adaptExcept f s = .ok a s' ↔ x s = .ok a s' := by
  simp only [EStateM.adaptExcept]
  cases x s <;> simp

theorem adaptExcept_eq_error {x : EStateM ε τ α} {f : ε → ε'} {s s' : τ} {e' : ε'} :
    x.adaptExcept f s = .error e' s' ↔ ∃ e, x s = .error e s' ∧ f e = e' := by
  simp only [EStateM.adaptExcept]
  cases x s <;> grind

theorem pure_eq_ok {s s' : τ} {a b : α} :
    (pure a : EStateM ε τ α) s = .ok b s' ↔ a = b ∧ s = s' := by
  simp [pure, EStateM.pure]

end LittleComputer
