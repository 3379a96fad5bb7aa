import Evm.Proofs.EndState

/-! # Two runs in lockstep

    Two operations over two kinds of states run in lockstep under a relation
    of states if, from related states, both succeed with the same result or
    both fail for the same reason, and leave related states. Then nothing
    that the relation leaves open can be seen from outside.

    The rules follow the ways in which operations are put together, for those
    that may fail (`Lockstep`) and for those that do not (`Parallel`).
-/

namespace Evm

variable {ε σ τ α γ : Type} {R : σ → τ → Prop}

/-! ## Operations that may fail -/

/-- Two results agree, and the states that they leave are related. -/
inductive Matches (R : σ → τ → Prop) :
    EStateM.Result ε σ α → EStateM.Result ε τ α → Prop where
  | ok (a : α) {s : σ} {t : τ} : R s t → Matches R (.ok a s) (.ok a t)
  | error (e : ε) {s : σ} {t : τ} : R s t → Matches R (.error e s) (.error e t)

/-- Two operations that cannot be told apart from related states. -/
def Lockstep (R : σ → τ → Prop) (op : EStateM ε σ α) (op' : EStateM ε τ α) : Prop :=
  ∀ s t, R s t → Matches R (op s) (op' t)

/-- Going on from results that agree. -/
theorem Matches.bind {op : EStateM ε σ α} {op' : EStateM ε τ α} {next : α → EStateM ε σ γ}
    {next' : α → EStateM ε τ γ} {s : σ} {t : τ} (hfirst : Matches R (op s) (op' t))
    (hnext : ∀ a s' t', op s = .ok a s' → op' t = .ok a t' → R s' t' →
      Matches R (next a s') (next' a t')) :
    Matches R ((op >>= next) s) ((op' >>= next') t) := by
  rw [bind_apply, bind_apply]
  generalize op s = result, op' t = result' at hfirst hnext
  cases hfirst with
  | ok a h => exact hnext a _ _ rfl rfl h
  | error e h => exact .error e h

namespace Lockstep

variable {op : EStateM ε σ α} {op' : EStateM ε τ α}

protected theorem pure (a : α) :
    Lockstep R (pure a : EStateM ε σ α) (pure a : EStateM ε τ α) :=
  fun _ _ h => .ok a h

protected theorem throw (e : ε) :
    Lockstep R (throw e : EStateM ε σ α) (throw e : EStateM ε τ α) :=
  fun _ _ h => .error e h

theorem bind {next : α → EStateM ε σ γ} {next' : α → EStateM ε τ γ} (hop : Lockstep R op op')
    (hnext : ∀ a, Lockstep R (next a) (next' a)) : Lockstep R (op >>= next) (op' >>= next') :=
  fun s t hst => (hop s t hst).bind fun a _ _ _ _ => hnext a _ _

theorem ite {p : Prop} [Decidable p] {other : EStateM ε σ α} {other' : EStateM ε τ α}
    (hthen : Lockstep R op op') (helse : Lockstep R other other') :
    Lockstep R (if p then op else other) (if p then op' else other') := by
  by_cases h : p
  · rw [if_pos h, if_pos h]
    exact hthen
  · rw [if_neg h, if_neg h]
    exact helse

/-- The states are changed alike. -/
protected theorem modify {f : σ → σ} {g : τ → τ} (h : ∀ s t, R s t → R (f s) (g t)) :
    Lockstep R (modify f : EStateM ε σ PUnit) (modify g : EStateM ε τ PUnit) := by
  intro s t hst
  rw [modify_apply, modify_apply]
  exact .ok PUnit.unit (h s t hst)

/-- The states are asked for something in which they agree. -/
theorem get_bind {next : σ → EStateM ε σ γ} {next' : τ → EStateM ε τ γ}
    (hnext : ∀ s t, R s t → Matches R (next s s) (next' t t)) :
    Lockstep R (get >>= next) (get >>= next') := hnext

/-- A loop whose rounds run in lockstep. -/
theorem forM {κ : Type} {f : κ → EStateM ε σ PUnit} {f' : κ → EStateM ε τ PUnit}
    (hround : ∀ k, Lockstep R (f k) (f' k)) (keys : List κ) :
    Lockstep R (keys.forM f) (keys.forM f') := by
  induction keys with
  | nil => exact .pure PUnit.unit
  | cons k keys ih => exact (hround k).bind fun _ => ih

end Lockstep

/-! ## Operations that do not fail -/

/-- Two operations that give the same result from related states, and leave
    related states. The result has the property `post`. -/
def Parallel (R : σ → τ → Prop) (post : α → Prop) (op : StateM σ α) (op' : StateM τ α) : Prop :=
  ∀ s t, R s t → (op s).1 = (op' t).1 ∧ R (op s).2 (op' t).2 ∧ post (op s).1

namespace Parallel

variable {post : α → Prop} {post' : γ → Prop} {op : StateM σ α} {op' : StateM τ α}

protected theorem pure {a : α} (h : post a) :
    Parallel R post (pure a : StateM σ α) (pure a : StateM τ α) :=
  fun _ _ hst => ⟨rfl, hst, h⟩

theorem bind {next : α → StateM σ γ} {next' : α → StateM τ γ} (hop : Parallel R post op op')
    (hnext : ∀ a, post a → Parallel R post' (next a) (next' a)) :
    Parallel R post' (op >>= next) (op' >>= next') := by
  intro s t hst
  obtain ⟨hvalue, hstate, hpost⟩ := hop s t hst
  rw [state_bind_apply, state_bind_apply, ← hvalue]
  exact hnext _ hpost _ _ hstate

theorem ite {p : Prop} [Decidable p] {other : StateM σ α} {other' : StateM τ α}
    (hthen : p → Parallel R post op op') (helse : ¬p → Parallel R post other other') :
    Parallel R post (if p then op else other) (if p then op' else other') := by
  by_cases h : p
  · rw [if_pos h, if_pos h]
    exact hthen h
  · rw [if_neg h, if_neg h]
    exact helse h

/-- The states are changed alike. -/
protected theorem modify {f : σ → σ} {g : τ → τ} (h : ∀ s t, R s t → R (f s) (g t)) :
    Parallel R (fun _ => True) (modify f : StateM σ PUnit) (modify g : StateM τ PUnit) :=
  fun s t hst => ⟨rfl, h s t hst, trivial⟩

/-- The states are looked at. -/
theorem get_bind {next : σ → StateM σ γ} {next' : τ → StateM τ γ}
    (hnext : ∀ s t, R s t → Parallel R post' (next s) (next' t)) :
    Parallel R post' (get >>= next) (get >>= next') :=
  fun s t hst => hnext s t hst s t hst

end Parallel

end Evm
