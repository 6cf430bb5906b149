/-!
# Sequences of steps

Readers, builders and walks are steps that change a state and may fail.

* `bind_eq_ok` — a sequence of two steps succeeds if both do.
* `bind_of_ok` — a first step whose outcome is known can be skipped; `bind_of_error` — one that fails
  ends the sequence.
* `bind_congr_of_ok`, `mapM_congr` — what comes later matters only where it is reached.
-/

set_option autoImplicit false

namespace DecimalLift

variable {ε σ α β : Type} {s s' : σ}

theorem bind_eq_ok {p : EStateM ε σ α} {f : α → EStateM ε σ β} {b : β} :
    (p >>= f) s = .ok b s' ↔ ∃ a s₁, p s = .ok a s₁ ∧ f a s₁ = .ok b s' := by
  simp only [bind, EStateM.bind]
  constructor
  · intro h
    split at h
    · rename_i a s₁ hp
      exact ⟨a, s₁, hp, h⟩
    · cases h
  · rintro ⟨a, s₁, hp, hf⟩
    rw [hp]
    exact hf

theorem bind_of_ok {p : EStateM ε σ α} {f : α → EStateM ε σ β} {a : α} {s₁ : σ}
    (h : p s = .ok a s₁) : (p >>= f) s = f a s₁ := by
  simp only [bind, EStateM.bind, h]

theorem bind_of_error {p : EStateM ε σ α} {f : α → EStateM ε σ β} {e : ε} {s₁ : σ}
    (h : p s = .error e s₁) : (p >>= f) s = .error e s₁ := by
  simp only [bind, EStateM.bind, h]

theorem bind_eq_error {p : EStateM ε σ α} {f : α → EStateM ε σ β} {e : ε} :
    (p >>= f) s = .error e s' ↔
      p s = .error e s' ∨ ∃ a s₁, p s = .ok a s₁ ∧ f a s₁ = .error e s' := by
  cases hp : p s with
  | ok a s₁ =>
    rw [bind_of_ok hp]
    constructor
    · intro h
      exact Or.inr ⟨a, s₁, rfl, h⟩
    · rintro (h | ⟨_, _, h, hf⟩) <;> cases h
      exact hf
  | error e' s₁ =>
    rw [bind_of_error hp]
    constructor
    · intro h
      cases h
      exact Or.inl rfl
    · rintro (h | ⟨_, _, h, _⟩) <;> cases h
      rfl

theorem bind_congr_of_ok {p : EStateM ε σ α} {f g : α → EStateM ε σ β}
    (h : ∀ a s₁, p s = .ok a s₁ → f a s₁ = g a s₁) : (p >>= f) s = (p >>= g) s := by
  cases hp : p s with
  | ok a s₁ => rw [bind_of_ok hp, bind_of_ok hp, h a s₁ hp]
  | error e s₁ => rw [bind_of_error hp, bind_of_error hp]

theorem mapM_congr {f g : α → EStateM ε σ β} {xs : List α} (h : ∀ x ∈ xs, f x = g x) :
    xs.mapM f = xs.mapM g := by
  induction xs with
  | nil => rw [List.mapM_nil, List.mapM_nil]
  | cons x xs ih =>
    rw [List.mapM_cons, List.mapM_cons, h x List.mem_cons_self,
      ih fun y hy => h y (List.mem_cons_of_mem x hy)]

theorem pure_eq_ok {a b : α} : (pure a : EStateM ε σ α) s = .ok b s' ↔ a = b ∧ s = s' := by
  constructor
  · intro h
    cases h
    exact ⟨rfl, rfl⟩
  · rintro ⟨rfl, rfl⟩
    rfl

theorem throw_ne_ok {e : ε} {b : α} : (throw e : EStateM ε σ α) s ≠ .ok b s' := by
  intro h
  cases h

end DecimalLift
