import Evm.Proofs.Frame.Equations
import Evm.Proofs.Frame.Registers
import Evm.Proofs.Memory

/-! # Uses of memory

    A frame grows its memory, reads ranges of it and writes to ranges of it.
    The relation `Uses` puts this on record: a block, run from some state, used
    memory as the record says, one entry for each growth and for each range
    that was read or written.

    Nothing can be left out. Only a block that takes no notice of memory
    (`Oblivious`) may be put down without an entry, and that means that over
    any other memory of the same size it would do the same and leave that
    memory as it is.
-/

namespace Evm

/-! ## Records -/

/-- One use of memory. Sizes are in bytes. -/
inductive MemoryUse where
  /-- Memory was made to cover a range, at a price. -/
  | growth (before after paid : Nat)
  /-- A range of memory of some size was read. -/
  | read (offset len size : Nat)
  /-- Memory was written to. -/
  | update (u : Memory.Update) (before after : Nat)

namespace MemoryUse

/-- The size that a use found. -/
def before : MemoryUse → Nat
  | growth before _ _ => before
  | read _ _ size => size
  | update _ before _ => before

/-- The size that a use left. -/
def after : MemoryUse → Nat
  | growth _ after _ => after
  | read _ _ size => size
  | update _ _ after => after

/-- What was paid for the memory that a use brought. -/
def paid : MemoryUse → Nat
  | growth _ _ paid => paid
  | _ => 0

/-- A use as it should be. Memory grows by whole words and for what they cost;
    what is read or written lies inside, and nothing grows for it. -/
def Proper : MemoryUse → Prop
  | growth before after paid =>
    before ≤ after ∧ after % 32 = 0 ∧ paid + Gas.memory (before / 32) = Gas.memory (after / 32)
  | read offset len size => offset + len ≤ size
  | update u before after => after = before ∧ ∀ r ∈ u.ranges, r.1 + r.2 ≤ before

variable {use : MemoryUse}

theorem Proper.le (h : use.Proper) : use.before ≤ use.after := by
  cases use with
  | growth before after paid => exact h.1
  | read offset len size => exact Nat.le_refl _
  | update u before after => exact Nat.le_of_eq h.1.symm

theorem Proper.balance (h : use.Proper) :
    use.paid + Gas.memory (use.before / 32) = Gas.memory (use.after / 32) := by
  cases use with
  | growth before after paid => exact h.2.2
  | read offset len size => exact Nat.zero_add _
  | update u before after =>
    have hsame : after = before := h.1
    rw [hsame]
    exact Nat.zero_add _

/-- A record, oldest use first, leads from one size of memory to another: each
    use finds what the one before it left. -/
def Leads : Nat → List MemoryUse → Nat → Prop
  | size, [], size' => size = size'
  | size, use :: later, size' => use.before = size ∧ Leads use.after later size'

/-- What was paid for memory in all. -/
def paidIn (record : List MemoryUse) : Nat := (record.map paid).sum

variable {record later : List MemoryUse} {size size' size'' : Nat}

theorem Leads.append (h : Leads size record size') (hlater : Leads size' later size'') :
    Leads size (record ++ later) size'' := by
  induction record generalizing size with
  | nil =>
    have hsame : size = size' := h
    rw [hsame]
    exact hlater
  | cons use record ih => exact ⟨h.1, ih h.2⟩

/-- **What was paid is what the memory costs.** Where all uses are as they should
    be, memory does not shrink, and the price of the new size is paid. -/
theorem Leads.balance (h : Leads size record size') (hproper : ∀ use ∈ record, use.Proper) :
    size ≤ size' ∧ paidIn record + Gas.memory (size / 32) = Gas.memory (size' / 32) := by
  induction record generalizing size with
  | nil =>
    have hsame : size = size' := h
    rw [hsame]
    exact ⟨Nat.le_refl _, Nat.zero_add _⟩
  | cons use record ih =>
    have hfirst : use.Proper := hproper use List.mem_cons_self
    have hbalance := hfirst.balance
    have hle := hfirst.le
    obtain ⟨rfl, hrest⟩ := h
    obtain ⟨hgrows, hpaid⟩ := ih hrest fun u hu => hproper u (List.mem_cons_of_mem _ hu)
    have hsum : paidIn (use :: record) = use.paid + paidIn record := List.sum_cons
    exact ⟨hle.trans hgrows, by omega⟩

end MemoryUse

/-! ## Blocks that take no notice of memory -/

/-- A result with another state. -/
def mapState {ε σ α : Type} (f : σ → σ) : EStateM.Result ε σ α → EStateM.Result ε σ α
  | .ok a s => .ok a (f s)
  | .error e s => .error e (f s)

@[simp] theorem endState_mapState {ε σ α : Type} (f : σ → σ) (r : EStateM.Result ε σ α) :
    endState (mapState f r) = f (endState r) := by
  cases r <;> rfl

/-- The instructions that grow, read or write memory. -/
def Opcode.TouchesMemory : Opcode → Prop
  | .keccak256 | .extCodeCopy | .callDataCopy | .codeCopy | .returnDataCopy | .mload | .mstore
  | .mstore8 | .mcopy | .ret | .revert | .log _ | .create | .create2 | .call _ => True
  | _ => False

namespace Exec

variable {η α γ : Type}

/-- The block takes no notice of memory but for its size: over another memory of
    that size it does the same, and it leaves that memory as it is. -/
def Oblivious (op : StepM η α) : Prop :=
  ∀ (x : Exec η) (memory : Memory), memory.size = x.frame.memory.size →
    op (x.withMemory memory) = mapState (withMemory memory) (op x)

namespace Oblivious

theorem same_memory {op : StepM η α} (hop : Oblivious op) (x : Exec η) :
    (endState (op x)).frame.memory = x.frame.memory := by
  have hself := congrArg endState (hop x x.frame.memory rfl)
  rw [endState_mapState] at hself
  exact congrArg (·.frame.memory) hself

protected theorem pure (a : α) : Oblivious (pure a : StepM η α) := fun _ _ _ => rfl

protected theorem throw (e : EvmError) : Oblivious (throw e : StepM η α) := fun _ _ _ => rfl

theorem bind {op : StepM η α} {next : α → StepM η γ} (hop : Oblivious op)
    (hnext : ∀ a, Oblivious (next a)) : Oblivious (op >>= next) := by
  intro x memory hsize
  have hsame := hop.same_memory x
  rw [bind_apply, bind_apply, hop x memory hsize]
  cases h : op x with
  | error e y => rfl
  | ok a y =>
    rw [h] at hsame
    have hmemory : y.frame.memory = x.frame.memory := hsame
    exact hnext a y memory (by rw [hmemory, hsize])

theorem ite {p : Prop} [Decidable p] {op op' : StepM η α} (hthen : Oblivious op)
    (helse : Oblivious op') : Oblivious (if p then op else op') := by
  by_cases h : p
  · rw [if_pos h]
    exact hthen
  · rw [if_neg h]
    exact helse

/-! ### Small steps -/

theorem frameGet {f : Frame → α}
    (h : ∀ (frame : Frame) (memory : Memory), f { frame with memory } = f frame) :
    Oblivious (frameGet f : StepM η α) := by
  intro x memory _
  exact congrArg (EStateM.Result.ok · (x.withMemory memory)) (h x.frame memory)

theorem hostGet (f : η → α) : Oblivious (hostGet f : StepM η α) := fun _ _ _ => rfl

theorem onHost (op : HostM η α) : Oblivious (onHost op : StepM η α) := by
  rintro ⟨frame, host⟩ memory _
  simp only [Exec.onHost, withMemory]
  cases op host <;> rfl

theorem modifyFrame {f : Frame → Frame} (h : ∀ (frame : Frame) (memory : Memory),
    f { frame with memory } = { f frame with memory }) :
    Oblivious (modifyFrame f : StepM η Unit) := by
  intro x memory _
  exact congrArg (fun frame => EStateM.Result.ok () (Exec.mk frame x.host)) (h x.frame memory)

theorem pop : Oblivious (pop : StepM η Word) := by
  rintro ⟨frame, host⟩ memory _
  simp only [Exec.pop, withMemory]
  rcases frame.stack.pop with e | ⟨w, stack⟩ <;> rfl

theorem push (w : Word) : Oblivious (push w : StepM η Unit) := by
  rintro ⟨frame, host⟩ memory _
  simp only [Exec.push, withMemory]
  cases frame.stack.push w <;> rfl

theorem dup (n : Nat) : Oblivious (dup n : StepM η Unit) := by
  rintro ⟨frame, host⟩ memory _
  simp only [Exec.dup, withMemory]
  cases frame.stack.dup n <;> rfl

theorem swap (n : Nat) : Oblivious (swap n : StepM η Unit) := by
  rintro ⟨frame, host⟩ memory _
  simp only [Exec.swap, withMemory]
  cases frame.stack.swap n <;> rfl

theorem popList (n : Nat) : Oblivious (popList n : StepM η (List Word)) := by
  induction n with
  | zero => exact .pure _
  | succ n ih => exact pop.bind fun _ => ih.bind fun _ => .pure _

theorem charge (n : Nat) : Oblivious (charge n : StepM η Unit) := by
  rintro ⟨frame, host⟩ memory _
  simp only [Exec.charge, withMemory]
  cases frame.gas.charge? n <;> rfl

theorem chargeWhen (c : Bool) (n : Nat) : Oblivious (chargeWhen c n : StepM η Unit) :=
  .ite (charge n) (.pure _)

theorem chargeCold (isCold : Bool) : Oblivious (chargeCold isCold : StepM η Unit) :=
  chargeWhen _ _

theorem refund (amount : Int) : Oblivious (refund amount : StepM η Unit) := fun _ _ _ => rfl

theorem failWhen (c : Bool) (e : EvmError) : Oblivious (failWhen c e : StepM η Unit) :=
  .ite (.throw e) (.pure _)

theorem requireWritable : Oblivious (requireWritable : StepM η Unit) :=
  (frameGet fun _ _ => rfl).bind fun _ => failWhen _ _

theorem pushNext (w : Word) : Oblivious (do Exec.push w; return .next : StepM η Step) :=
  (push w).bind fun _ => .pure _

theorem setReturnData (returnData : Bytes) :
    Oblivious (Exec.modifyFrame fun frame => { frame with returnData } : StepM η Unit) :=
  modifyFrame fun _ _ => rfl

theorem takeBack (result : FrameResult) : Oblivious (takeBack result : StepM η Unit) :=
  modifyFrame fun _ _ => rfl

/-! ### Instructions -/

theorem jumpTo (dest : Word) : Oblivious (jumpTo dest : StepM η Step) :=
  (frameGet fun _ _ => rfl).bind fun _ =>
    .ite ((modifyFrame fun _ _ => rfl).bind fun _ => .pure _) (.throw _)

variable [Host η]

/-- A query may ask for the size of memory. -/
theorem query (q : Query) (pc : Nat) :
    Oblivious (do let x ← get; Exec.push (answerQuery x pc q); return .next : StepM η Step) := by
  intro x memory hsize
  have hanswer : answerQuery (x.withMemory memory) pc q = answerQuery x pc q := by
    cases q with
    | memorySize => exact congrArg Word.ofNat hsize
    | _ => rfl
  simp only [bind_apply, get_apply, hanswer]
  exact pushNext _ x memory hsize

/-- The instructions that are not about memory take no notice of it. -/
theorem execute {op : Opcode} (pc : Nat) (hop : ¬op.TouchesMemory) :
    Oblivious (execute op pc : StepM η Step) := by
  unfold Exec.execute
  cases op with
  | stop => exact .pure _
  | unary op => exact pop.bind fun _ => pushNext _
  | binary op => exact pop.bind fun _ => pop.bind fun _ => pushNext _
  | ternary op => exact pop.bind fun _ => pop.bind fun _ => pop.bind fun _ => pushNext _
  | exp => exact pop.bind fun _ => pop.bind fun _ => (charge _).bind fun _ => pushNext _
  | query q => exact query q pc
  -- the host is asked about an account
  | balance =>
    exact pop.bind fun _ => (onHost _).bind fun _ => (chargeCold _).bind fun _ => pushNext _
  | selfBalance =>
    exact (frameGet fun _ _ => rfl).bind fun _ => (onHost _).bind fun _ => pushNext _
  | extCodeSize =>
    exact pop.bind fun _ => (onHost _).bind fun _ => (chargeCold _).bind fun _ => pushNext _
  | extCodeHash =>
    exact pop.bind fun _ => (onHost _).bind fun _ => (chargeCold _).bind fun _ => pushNext _
  | callDataLoad => exact pop.bind fun _ => (frameGet fun _ _ => rfl).bind fun _ => pushNext _
  | blockHash => exact pop.bind fun _ => (onHost _).bind fun _ => pushNext _
  | blobHash => exact pop.bind fun _ => (hostGet _).bind fun _ => pushNext _
  -- the stack
  | pop => exact pop.bind fun _ => .pure _
  | push0 => exact pushNext _
  | push i =>
    exact (frameGet fun _ _ => rfl).bind fun _ => (modifyFrame fun _ _ => rfl).bind fun _ =>
      pushNext _
  | dup i => exact (dup _).bind fun _ => .pure _
  | swap i => exact (swap _).bind fun _ => .pure _
  -- the host is asked about storage
  | sload =>
    exact pop.bind fun _ => (frameGet fun _ _ => rfl).bind fun _ => (onHost _).bind fun _ =>
      (chargeWhen _ _).bind fun _ => pushNext _
  | sstore =>
    show Oblivious storeSlot
    unfold storeSlot
    refine requireWritable.bind fun _ => (frameGet fun _ _ => rfl).bind fun _ => ?_
    refine (failWhen _ _).bind fun _ => pop.bind fun _ => pop.bind fun _ => ?_
    refine (frameGet fun _ _ => rfl).bind fun _ => (onHost _).bind fun _ => ?_
    exact (charge _).bind fun _ => (frameGet fun _ _ => rfl).bind fun _ => (refund _).bind fun _ =>
      .pure _
  | tload =>
    exact pop.bind fun _ => (frameGet fun _ _ => rfl).bind fun _ => (onHost _).bind fun _ =>
      pushNext _
  | tstore =>
    refine requireWritable.bind fun _ => pop.bind fun _ => pop.bind fun _ => ?_
    exact (frameGet fun _ _ => rfl).bind fun _ => (onHost _).bind fun _ => .pure _
  -- flow
  | jump => exact pop.bind fun _ => jumpTo _
  | jumpi => exact pop.bind fun _ => pop.bind fun _ => .ite (.pure _) (jumpTo _)
  | jumpDest => exact .pure _
  | invalid => exact .throw _
  | selfDestruct =>
    show Oblivious selfDestruct
    unfold selfDestruct
    refine requireWritable.bind fun _ => pop.bind fun _ => ?_
    refine (frameGet fun _ _ => rfl).bind fun _ => ?_
    refine (onHost _).bind fun _ => (chargeWhen _ _).bind fun _ => (chargeWhen _ _).bind fun _ => ?_
    exact (frameGet fun _ _ => rfl).bind fun _ => (refund _).bind fun _ => .pure _
  | _ => exact absurd trivial hop

end Oblivious

/-! ## Blocks and their records -/

/-- The block, run from a state, uses memory as the record says, oldest use
    first. Each range that is read or written is an entry, and so is each call
    for growth, with what it took from the gas that was left. -/
inductive Uses : {α : Type} → StepM η α → Exec η → List MemoryUse → Prop where
  /-- A block that takes no notice of memory. -/
  | oblivious {α : Type} {op : StepM η α} (x : Exec η) : Oblivious op → Uses op x []
  | resize (offset len : Word) (x : Exec η) :
    Uses (resizeMemory offset len) x
      [.growth x.frame.memory.size (endState (resizeMemory offset len x)).frame.memory.size
        (x.frame.gas.remaining - (endState (resizeMemory offset len x)).frame.gas.remaining)]
  | slice (offset len : Nat) (x : Exec η) :
    Uses (readMemory offset len) x [.read offset len x.frame.memory.size]
  | load (offset : Nat) (x : Exec η) :
    Uses (frameGet fun frame => frame.memory.loadWord offset) x
      [.read offset 32 x.frame.memory.size]
  | update (u : Memory.Update) (x : Exec η) :
    Uses (modifyMemory u.perform) x
      [.update u x.frame.memory.size (u.perform x.frame.memory).size]
  /-- Two blocks, one after the other. -/
  | bind {α γ : Type} {op : StepM η α} {next : α → StepM η γ} {x y : Exec η} {a : α}
    {record later : List MemoryUse} : Uses op x record → op x = .ok a y →
    Uses (next a) y later → Uses (op >>= next) x (record ++ later)
  /-- A block that fails, and the one that would have been next. -/
  | bind_error {α γ : Type} {op : StepM η α} {next : α → StepM η γ} {x y : Exec η} {e : EvmError}
    {record : List MemoryUse} : Uses op x record → op x = .error e y → Uses (op >>= next) x record

namespace Uses

variable {op : StepM η α} {x : Exec η} {record : List MemoryUse}

/-- The record tells the sizes of memory from the first to the last. -/
theorem leads (h : Uses op x record) :
    MemoryUse.Leads x.frame.memory.size record (endState (op x)).frame.memory.size := by
  induction h with
  | oblivious x hop =>
    rw [hop.same_memory]
    rfl
  | resize offset len x => exact ⟨rfl, rfl⟩
  | slice offset len x => exact ⟨rfl, rfl⟩
  | load offset x => exact ⟨rfl, rfl⟩
  | update u x => exact ⟨rfl, rfl⟩
  | bind _ hx _ ih ihnext =>
    rw [hx] at ih
    rw [bind_apply, hx]
    exact ih.append ihnext
  | bind_error _ hx ih =>
    rw [hx] at ih
    rw [bind_apply, hx]
    exact ih

/-- **What is not on record did not happen**: a block that is recorded without
    any use neither looks at memory nor changes it. -/
theorem nothing (h : Uses op x []) (memory : Memory) (hsize : memory.size = x.frame.memory.size) :
    op (x.withMemory memory) = mapState (withMemory memory) (op x) := by
  generalize hrecord : ([] : List MemoryUse) = record at h
  induction h with
  | oblivious x hop => exact hop x memory hsize
  | resize | slice | load | update => cases hrecord
  | @bind α γ op next x y a record later hfirst hx _ ih ihnext =>
    -- neither block is recorded with a use, and the first one leaves the size
    obtain ⟨rfl, rfl⟩ := List.nil_eq_append_iff.mp hrecord
    have hleads := hfirst.leads
    rw [hx] at hleads
    have hsame : x.frame.memory.size = y.frame.memory.size := hleads
    rw [bind_apply, bind_apply, ih hsize rfl, hx]
    exact ihnext (hsize.trans hsame) rfl
  | bind_error _ hx ih =>
    rw [bind_apply, bind_apply, ih hsize hrecord, hx]
    rfl

end Uses

end Exec

end Evm
