import Evm.State.Journal

/-! # Results and the states they leave

    Operations that may fail keep what they did before their failure, so a
    statement about what an operation does to the state speaks of the state
    that its result leaves, be it a success or a failure. The equations here
    carry out such operations step by step.
-/

namespace Evm

variable {ε σ α γ : Type}

/-- The state that a result leaves. -/
def endState : EStateM.Result ε σ α → σ
  | .ok _ s => s
  | .error _ s => s

@[simp] theorem endState_ok (a : α) (s : σ) :
    endState (.ok a s : EStateM.Result ε σ α) = s := rfl

@[simp] theorem endState_error (e : ε) (s : σ) :
    endState (.error e s : EStateM.Result ε σ α) = s := rfl

/-! ## Step by step -/

@[simp] theorem bind_apply (m : EStateM ε σ α) (f : α → EStateM ε σ γ) (s : σ) :
    (m >>= f) s =
      match m s with
      | .ok a s' => f a s'
      | .error e s' => .error e s' := rfl

@[simp] theorem pure_apply (a : α) (s : σ) : (pure a : EStateM ε σ α) s = .ok a s := rfl

@[simp] theorem get_apply (s : σ) : (get : EStateM ε σ σ) s = .ok s s := rfl

@[simp] theorem modify_apply (f : σ → σ) (s : σ) :
    (modify f : EStateM ε σ PUnit) s = .ok ⟨⟩ (f s) := rfl

/-! ## Taking a run apart -/

/-- Two steps succeed by succeeding one after the other. -/
theorem bind_ok {m : EStateM ε σ α} {f : α → EStateM ε σ γ} {s s'' : σ} {c : γ}
    (h : (m >>= f) s = .ok c s'') : ∃ a s', m s = .ok a s' ∧ f a s' = .ok c s'' := by
  rw [bind_apply] at h
  cases hm : m s with
  | ok a s' =>
    rw [hm] at h
    exact ⟨a, s', rfl, h⟩
  | error e s' =>
    rw [hm] at h
    cases h

/-- Two steps fail by the failure of either of them. -/
theorem bind_error {m : EStateM ε σ α} {f : α → EStateM ε σ γ} {s s'' : σ} {e : ε}
    (h : (m >>= f) s = .error e s'') :
    m s = .error e s'' ∨ ∃ a s', m s = .ok a s' ∧ f a s' = .error e s'' := by
  rw [bind_apply] at h
  cases hm : m s with
  | ok a s' =>
    rw [hm] at h
    exact .inr ⟨a, s', rfl, h⟩
  | error e' s' =>
    rw [hm] at h
    cases h
    exact .inl rfl

/-! ## Without failures -/

theorem state_bind_apply (m : StateM σ α) (f : α → StateM σ γ) (s : σ) :
    (m >>= f) s = f (m s).1 (m s).2 := rfl

theorem state_get_bind_apply (f : σ → StateM σ γ) (s : σ) : (get >>= f) s = f s s := rfl

theorem state_modify_bind_apply (f : σ → σ) (g : PUnit → StateM σ γ) (s : σ) :
    (modify f >>= g) s = g ⟨⟩ (f s) := rfl

theorem state_ite_apply (p : Prop) [Decidable p] (m m' : StateM σ α) (s : σ) :
    (if p then m else m') s = if p then m s else m' s := by
  by_cases h : p
  · rw [if_pos h, if_pos h]
  · rw [if_neg h, if_neg h]

end Evm
