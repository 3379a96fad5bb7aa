import Evm.Proofs.Engine.Tick

/-! # Termination

    Every instruction that does not end its frame takes at least one unit of
    gas from the frames under way, also one that asks for a call or creation:
    what the new frame gets was taken from the frame that waits, with one unit
    more. Nothing else puts gas into the frames, so a run has no more such
    instructions than its first frame has gas.
-/

namespace Evm

namespace Machine

variable {β : Type} [Backend β] {m m' : Machine β}

/-- One machine leads to another tick by tick, with that many instructions on
    the way that do not end their frame. -/
inductive Executes : Nat → Machine β → Machine β → Prop where
  | refl (m : Machine β) : Executes 0 m m
  | counted {n : Nat} {m m' m'' : Machine β} :
    Executes n m m' → m'.KeepsFrame → m'.tick = .running m'' → Executes (n + 1) m m''
  | uncounted {n : Nat} {m m' m'' : Machine β} :
    Executes n m m' → ¬m'.KeepsFrame → m'.tick = .running m'' → Executes n m m''

theorem executes_of_ticks (h : Ticks m m') : ∃ n, Executes n m m' := by
  induction h with
  | refl => exact ⟨0, .refl m⟩
  | @tail m1 m2 _ hstep ih =>
    obtain ⟨n, hn⟩ := ih
    by_cases hkeeps : m1.KeepsFrame
    · exact ⟨n + 1, hn.counted hkeeps hstep⟩
    · exact ⟨n, hn.uncounted hkeeps hstep⟩

/-- Every instruction that is counted has taken gas. -/
theorem Executes.gas {n : Nat} (h : Executes n m m') : m'.gas + n ≤ m.gas := by
  induction h with
  | refl => simp
  | counted _ hkeeps hstep ih =>
    have hless := (tick_gas hstep).2 hkeeps
    omega
  | uncounted _ _ hstep ih =>
    have hless := (tick_gas hstep).1
    omega

/-- There is no endless chain of turns. -/
theorem advance_wellFounded :
    WellFounded fun m' m : Machine β => m.advance = .running m' := by
  have hless : ∀ {m' m : Machine β}, m.advance = .running m' → m'.potential < m.potential :=
    fun h => advance_potential h
  exact Subrelation.wf hless (measure fun m : Machine β => m.potential).wf

end Machine

namespace Engine

variable {β : Type} [Backend β]

/-- **Calls and creations terminate**, whatever the code, the store, the rules
    and the gas. Neither the turns of the driver nor the instructions of a
    frame can go on for ever, and it is by ending, not by a bound, that both
    loops come to their result. On the way no more instructions are carried
    out that do not end their frame than there was gas. -/
theorem terminates_within_gas (request : Request) (e : Engine β) :
    (WellFounded fun m' m : Machine β => m.advance = .running m') ∧
    (WellFounded fun y x : Exec (Engine β) => x.step = .ok .next y) ∧
    (∀ x : Exec (Engine β), ∃ y, Exec.RunsOn x y ∧ y.tick = (some x.run.1, x.run.2)) ∧
    match request.start e with
    | (.done result, e') => request.perform e = (result, e')
    | (.run act, e') =>
      (∃ last, Machine.Visits ⟨e', act, [], none⟩ last ∧
        last.advance = .finished (request.perform e).1 (request.perform e).2) ∧
      (∃ n last, Machine.Executes n ⟨e', act, [], none⟩ last ∧
        last.tick = .finished (request.perform e).1 (request.perform e).2) ∧
      ∀ n m, Machine.Executes n ⟨e', act, [], none⟩ m → n ≤ request.gasLimit := by
  refine ⟨Machine.advance_wellFounded, Exec.step_wellFounded, Exec.run_stops, ?_⟩
  rcases hstart : request.start e with ⟨result | act, e'⟩
  · have hperform : request.perform e = (result, e') := by
      rw [Request.perform_eq, hstart]
      rfl
    exact hperform
  · have hperform : request.perform e = Machine.drive ⟨e', act, [], none⟩ := by
      rw [Request.perform_eq, hstart]
      rfl
    simp only [hperform]
    refine ⟨Machine.drive_finishes _ rfl rfl, ?_, ?_⟩
    · obtain ⟨last, hticks, hlast⟩ := Machine.drive_ticks e' act
      obtain ⟨n, hn⟩ := Machine.executes_of_ticks hticks
      exact ⟨n, last, hn, hlast⟩
    · intro n m hn
      have hgas := hn.gas
      have hfirst : (⟨e', act, [], none⟩ : Machine β).gas = request.gasLimit := by
        simp only [Machine.gas, Machine.answerGas, Machine.waitingGas, Request.start_run hstart,
          Gas.full]
        omega
      omega

end Engine

end Evm
