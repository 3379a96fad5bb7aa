import Evm.Proofs.Frame.Tick

/-! # How long an output is

    What a frame returns is a range of its memory, and an index of memory is a
    number that 32 bits hold. So no output is longer than that, whatever its
    frame has paid (`run_output`, `resume_output`).
-/

namespace Evm

/-- The largest memory index, which no output exceeds in length. -/
def outputLimit : Nat := 0xffffffff

/-- A step that ends the frame with an output within the limit, if it ends it. -/
def Step.Brief : Step → Prop
  | .exit _ output => output.size ≤ outputLimit
  | _ => True

namespace Exec

variable {η α γ : Type}

/-! ## Blocks -/

/-- What the block returns, if it succeeds, has a property. -/
def Gives (post : α → Prop) (op : StepM η α) : Prop := ∀ x a x', op x = .ok a x' → post a

namespace Gives

variable {post : α → Prop}

protected theorem pure {a : α} (h : post a) : Gives post (pure a : StepM η α) := by
  rintro x a' x' ⟨⟩
  exact h

protected theorem throw (e : EvmError) : Gives post (throw e : StepM η α) := by
  rintro x a x' ⟨⟩

theorem bind {post' : γ → Prop} {op : StepM η α} {next : α → StepM η γ} (hop : Gives post op)
    (hnext : ∀ a, post a → Gives post' (next a)) : Gives post' (op >>= next) := by
  intro x c x'' h
  obtain ⟨a, x', hfirst, hsecond⟩ := bind_ok h
  exact hnext a (hop x a x' hfirst) x' c x'' hsecond

/-- A block before whose result does not matter. -/
theorem seq {post' : γ → Prop} {op : StepM η α} {next : α → StepM η γ}
    (hnext : ∀ a, Gives post' (next a)) : Gives post' (op >>= next) :=
  bind (fun _ _ _ _ => trivial) fun a (_ : True) => hnext a

theorem ite {p : Prop} [Decidable p] {op op' : StepM η α} (hthen : Gives post op)
    (helse : Gives post op') : Gives post (if p then op else op') := by
  by_cases h : p
  · rw [if_pos h]
    exact hthen
  · rw [if_neg h]
    exact helse

theorem toIndex (w : Word) : Gives (· ≤ outputLimit) (toIndex w : StepM η Nat) := by
  unfold Exec.toIndex
  cases h : w.toIndex? with
  | none => exact .throw _
  | some n =>
    refine .pure ?_
    unfold Word.toIndex? at h
    split at h <;> cases h
    assumption

/-- A range comes back with a length that is an index. -/
theorem resizeMemory (offset len : Word) :
    Gives (fun range => range.2 ≤ outputLimit) (resizeMemory offset len : StepM η (Nat × Nat)) := by
  unfold Exec.resizeMemory
  refine .ite (.pure (Nat.zero_le _)) (seq fun _ => (toIndex len).bind fun _ hlen => ?_)
  exact seq fun _ => .ite (seq fun _ => seq fun _ => .pure hlen) (.pure hlen)

theorem readMemory (offset : Nat) {len : Nat} (hlen : len ≤ outputLimit) :
    Gives (fun output => output.size ≤ outputLimit)
      (readMemory offset len : StepM η Bytes) := by
  rintro x output x' ⟨⟩
  simp only [Memory.slice, ByteArray.size_extract]
  omega

theorem next : Gives Step.Brief (pure .next : StepM η Step) := .pure trivial

theorem finish (reason : ExitReason) : Gives Step.Brief (finish reason : StepM η Step) :=
  seq fun _ => seq fun _ => (resizeMemory _ _).bind fun _ hlen =>
    (readMemory _ hlen).bind fun _ houtput => .pure houtput

end Gives

/-! ## Instructions -/

variable [Host η]

/-- An instruction that ends its frame does so with nothing, or with a range of
    memory. -/
theorem execute_brief (op : Opcode) (pc : Nat) :
    Gives Step.Brief (execute op pc : StepM η Step) := by
  have hjump (dest : Word) : Gives Step.Brief (jumpTo dest : StepM η Step) :=
    .seq fun _ => .ite (.seq fun _ => .next) (.throw _)
  unfold execute
  cases op with
  | stop => exact .pure (Nat.zero_le _)
  | ret => exact .finish _
  | revert => exact .finish _
  | invalid => exact .throw _
  | jump => exact .seq fun _ => hjump _
  | jumpi => exact .seq fun _ => .seq fun _ => .ite .next (hjump _)
  | mcopy =>
    refine .seq fun _ => .seq fun _ => .seq fun _ => .ite .next ?_
    exact .seq fun _ => .seq fun _ => .seq fun _ => .seq fun _ => .next
  | selfDestruct =>
    refine .seq fun _ => .seq fun _ => .seq fun _ => .seq fun _ => .seq fun _ => ?_
    exact .seq fun _ => .seq fun _ => .seq fun _ => .pure (Nat.zero_le _)
  | _ =>
    -- all others go on, or wait, once their steps are done
    repeat refine .seq fun _ => ?_
    exact .pure trivial

theorem step_brief : Gives Step.Brief (step : StepM η Step) := by
  unfold step
  refine .seq fun frame => ?_
  by_cases hpc : frame.pc < frame.code.size
  · rw [dif_pos hpc]
    simp only
    cases frame.hardfork.instruction? frame.code[frame.pc] with
    | none => exact .throw _
    | some instruction =>
      exact .seq fun _ => .seq fun _ => .seq fun _ => .seq fun _ => execute_brief _ _
  · rw [dif_neg hpc]
    exact .pure (Nat.zero_le _)

/-! ## Runs -/

/-- A frame that ends in a tick has an output within the limit; one that halts
    has none. -/
theorem tick_output {x x' : Exec η} {ending : Ending}
    (h : tick x = (some (.finished ending), x')) : ending.output.size ≤ outputLimit := by
  unfold tick at h
  cases hs : step x with
  | error e y =>
    rw [hs] at h
    cases h
    exact Nat.zero_le _
  | ok s y =>
    have hbrief := step_brief x s y hs
    rw [hs] at h
    cases s <;> cases h
    exact hbrief

theorem run_output {x x' : Exec η} {ending : Ending} (h : run x = (.finished ending, x')) :
    ending.output.size ≤ outputLimit := by
  obtain ⟨y, _, htick⟩ := run_stops x
  rw [h] at htick
  exact tick_output htick

theorem resume_output {x x' : Exec η} {ending : Ending} {result : FrameResult}
    (h : resume result x = (.finished ending, x')) : ending.output.size ≤ outputLimit := by
  unfold resume at h
  cases hd : deliver result x with
  | ok u y =>
    rw [hd] at h
    exact run_output h
  | error e y =>
    rw [hd] at h
    cases h
    exact Nat.zero_le _

end Exec

end Evm
