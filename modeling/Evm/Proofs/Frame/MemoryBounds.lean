import Evm.Proofs.Frame.Expansion
import Evm.Proofs.Frame.Heights
import Evm.Proofs.Frame.MemoryUse

/-! # Memory is paid for and stays in bounds

    A range is brought into memory where an instruction takes it from the
    stack, and it is used later: after another range was brought in, or, for
    the output of a call, after all that the call ran. It is still inside
    then, because memory does not shrink.

    `Frame.Covers n` is what this comes down to for a frame: memory of whole
    words, of at least `n` bytes, and of as many as the range needs that the
    frame waits for. A block minds its bounds (`Exec.Minds`) if it keeps this
    and uses memory as it should. After growth the bound is higher
    (`Minds.resizing`), and what comes next may count on it.
-/

namespace Evm

/-! ## Bounds -/

/-- Memory of whole words that has at least so many bytes, and the range that
    the frame waits for. -/
structure Frame.Covers (n : Nat) (frame : Frame) : Prop where
  whole : frame.memory.size % 32 = 0
  reaches : n ≤ frame.memory.size
  pending : ∀ offset len, frame.waiting = some (.call offset len) →
    offset + len ≤ frame.memory.size

theorem Frame.Covers.mono {n n' : Nat} {frame : Frame} (h : frame.Covers n) (hle : n' ≤ n) :
    frame.Covers n' :=
  ⟨h.whole, hle.trans h.reaches, h.pending⟩

/-- A frame that waits for the same over memory that has grown. -/
theorem Frame.Covers.grown {n n' : Nat} {frame frame' : Frame} (h : frame.Covers n)
    (hwhole : frame'.memory.size % 32 = 0) (hgrown : frame.memory.size ≤ frame'.memory.size)
    (hreaches : n' ≤ frame'.memory.size) (hwaiting : frame'.waiting = frame.waiting) :
    frame'.Covers n' := by
  refine ⟨hwhole, hreaches, fun offset len hw => ?_⟩
  rw [hwaiting] at hw
  exact (h.pending offset len hw).trans hgrown

/-- The meter does not bear on the bounds. -/
theorem Frame.Covers.setGas {n : Nat} {frame : Frame} (h : frame.Covers n) (gas : Gas) :
    Frame.Covers n { frame with gas } :=
  ⟨h.whole, h.reaches, h.pending⟩

/-- What the frame waits for. -/
def Frame.Awaits (waiting : Option Pending) (frame : Frame) : Prop := frame.waiting = waiting

theorem Frame.Awaits.steady (waiting : Option Pending) : Frame.Steady (Frame.Awaits waiting) where
  stack _ h := h
  memory _ h := h
  returnData _ h := h
  remaining _ h := h

namespace Exec

variable {η α γ : Type}

/-! ## Growth -/

/-- A frame that has paid for a range covers it, and what it paid is the price of
    the words that are new. -/
theorem expanded_grows {n offset len : Nat} {x : Exec η} (hx : x.frame.Covers n)
    (hbound : Memory.Bounded offset len) (hlen : len ≠ 0)
    (hsmall : Gas.words (offset + len) < 2 ^ 32)
    (hrich : Gas.exactExpansion x.frame.memory.words (offset + len) ≤ x.frame.gas.remaining) :
    let y := x.expanded offset len
    y.frame.Covers (max n (offset + len)) ∧
      (MemoryUse.growth x.frame.memory.size y.frame.memory.size
        (x.frame.gas.remaining - y.frame.gas.remaining)).Proper := by
  intro y
  have hsize : y.frame.memory.size = max x.frame.memory.size (32 * Gas.words (offset + len)) := by
    have hresized := Memory.size_resize (m := x.frame.memory) hbound
    rwa [if_neg hlen] at hresized
  have hwhole : y.frame.memory.size % 32 = 0 := Memory.whole_resize hbound hx.whole
  have hcovers : offset + len ≤ y.frame.memory.size := Memory.resize_covers hbound hlen
  have hgrown : x.frame.memory.size ≤ y.frame.memory.size := by omega
  have hpaid : x.frame.gas.remaining - y.frame.gas.remaining =
      Gas.exactExpansion x.frame.memory.words (offset + len) := Nat.sub_sub_self hrich
  have hbefore : x.frame.memory.size / 32 = x.frame.memory.words := rfl
  have hafter : y.frame.memory.size / 32 =
      max x.frame.memory.words (Gas.words (offset + len)) := by omega
  refine ⟨hx.grown hwhole hgrown (Nat.max_le.mpr ⟨hx.reaches.trans hgrown, hcovers⟩) rfl,
    hgrown, hwhole, ?_⟩
  rw [hpaid, hbefore, hafter]
  exact Gas.exactExpansion_add_memory _ hsmall

/-- Growth fails and changes nothing, or it brings the range in; one that is empty
    comes to lie at zero. -/
theorem resizeMemory_grows (offset len : Word) {n : Nat} {x : Exec η} (hx : x.frame.Covers n) :
    (∃ e, resizeMemory offset len x = .error e x) ∨
      ∃ start y, resizeMemory offset len x = .ok (start, len.toNat) y ∧
        y.frame.Covers (max n (start + len.toNat)) ∧
        (MemoryUse.growth x.frame.memory.size y.frame.memory.size
          (x.frame.gas.remaining - y.frame.gas.remaining)).Proper := by
  by_cases hempty : len = 0
  · subst hempty
    refine .inr ⟨0, x, rfl, hx.mono (Nat.le_of_eq (Nat.max_zero n)), Nat.le_refl _, hx.whole, ?_⟩
    rw [Nat.sub_self, Nat.zero_add]
  · by_cases hindex : offset.IsIndex ∧ len.IsIndex
    · obtain ⟨hoffset, hlength⟩ := hindex
      obtain ⟨hbound, hsmall⟩ := bounded_of_isIndex hoffset hlength
      have hlen : len.toNat ≠ 0 := fun h => hempty (BitVec.eq_of_toNat_eq h)
      rw [resizeMemory_of_isIndex hempty hoffset hlength]
      by_cases hpoor : x.frame.gas.remaining <
          Gas.exactExpansion x.frame.memory.words (offset.toNat + len.toNat)
      · exact .inl ⟨_, if_pos hpoor⟩
      · have hgrows := expanded_grows hx hbound hlen hsmall (Nat.le_of_not_lt hpoor)
        exact .inr ⟨_, _, if_neg hpoor, hgrows⟩
    · have hfar := Classical.not_and_iff_not_or_not.mp hindex
      exact .inl ⟨_, resizeMemory_of_not_isIndex hempty hfar⟩

/-! ## Blocks that mind their bounds -/

/-- Run from this state, a block uses memory as it should, and its end is within
    the bounds, be it a success or a failure. -/
structure Minded (n : Nat) (op : StepM η α) (x : Exec η) : Prop where
  proper : ∃ record, Uses op x record ∧ ∀ use ∈ record, use.Proper
  covers : (endState (op x)).frame.Covers n

/-- From any state within the bounds. -/
def Minds (n : Nat) (op : StepM η α) : Prop := ∀ x, x.frame.Covers n → Minded n op x

/-- Two blocks, where it is known what the first one comes to. -/
theorem Minded.bind {n n' : Nat} {op : StepM η α} {next : α → StepM η γ} {x y : Exec η} {a : α}
    (hop : Minded n' op x) (hx : op x = .ok a y) (hnext : Minded n (next a) y) :
    Minded n (op >>= next) x := by
  obtain ⟨record, huses, hproper⟩ := hop.proper
  obtain ⟨later, huses', hproper'⟩ := hnext.proper
  refine ⟨⟨_, huses.bind hx huses', fun use huse => ?_⟩, ?_⟩
  · exact (List.mem_append.mp huse).elim (hproper use) (hproper' use)
  · rw [bind_apply, hx]
    exact hnext.covers

theorem Minded.bind_error {n : Nat} {op : StepM η α} {next : α → StepM η γ} {x y : Exec η}
    {e : EvmError} (hop : Minded n op x) (hx : op x = .error e y) : Minded n (op >>= next) x := by
  obtain ⟨record, huses, hproper⟩ := hop.proper
  have hcovers := hop.covers
  rw [hx] at hcovers
  refine ⟨⟨record, huses.bind_error hx, hproper⟩, ?_⟩
  rw [bind_apply, hx]
  exact hcovers

namespace Minds

variable {n : Nat}

theorem bind {op : StepM η α} {next : α → StepM η γ} (hop : Minds n op)
    (hnext : ∀ a, Minds n (next a)) : Minds n (op >>= next) := by
  intro x hx
  have hfirst := hop x hx
  cases h : op x with
  | error e y => exact hfirst.bind_error h
  | ok a y =>
    have hmid := hfirst.covers
    rw [h] at hmid
    exact hfirst.bind h (hnext a y hmid)

theorem ite {p : Prop} [Decidable p] {op op' : StepM η α} (hthen : Minds n op)
    (helse : Minds n op') : Minds n (if p then op else op') := by
  by_cases h : p
  · rw [if_pos h]
    exact hthen
  · rw [if_neg h]
    exact helse

/-- A block that takes no notice of memory, in a frame that comes to wait for
    what the memory covers. -/
theorem of_oblivious {op : StepM η α} (hop : Oblivious op)
    (hpending : ∀ x, x.frame.Covers n → ∀ offset len,
      (endState (op x)).frame.waiting = some (.call offset len) →
      offset + len ≤ x.frame.memory.size) : Minds n op := by
  intro x hx
  refine ⟨⟨[], .oblivious x hop, nofun⟩, ?_⟩
  have hmemory := hop.same_memory x
  constructor <;> rw [hmemory]
  · exact hx.whole
  · exact hx.reaches
  · exact hpending x hx

/-- A block that has nothing to do with memory, nor with what the frame waits
    for. -/
theorem idle {op : StepM η α} (hop : Oblivious op)
    (hwaits : ∀ waiting, Keeps (Frame.Awaits waiting) op) : Minds n op := by
  refine of_oblivious hop fun x hx offset len hw => hx.pending offset len ?_
  have hkept : (endState (op x)).frame.waiting = x.frame.waiting := hwaits _ x rfl
  rwa [hkept] at hw

protected theorem pure (a : α) : Minds n (pure a : StepM η α) :=
  idle (.pure a) fun _ => .pure a

protected theorem throw (e : EvmError) : Minds n (throw e : StepM η α) :=
  idle (.throw e) fun _ => .throw e

/-! ### Small steps -/

theorem pop : Minds n (pop : StepM η Word) := idle .pop fun w => .pop (Frame.Awaits.steady w)

theorem push (w : Word) : Minds n (push w : StepM η Unit) :=
  idle (.push w) fun w => .push (Frame.Awaits.steady w) _

theorem popList (k : Nat) : Minds n (popList k : StepM η (List Word)) :=
  idle (.popList k) fun w => .popList (Frame.Awaits.steady w) _

theorem charge (amount : Nat) : Minds n (charge amount : StepM η Unit) :=
  idle (.charge amount) fun w => .charge (Frame.Awaits.steady w) _

theorem chargeWhen (c : Bool) (amount : Nat) : Minds n (chargeWhen c amount : StepM η Unit) :=
  .ite (charge amount) (.pure _)

theorem chargeCold (isCold : Bool) : Minds n (chargeCold isCold : StepM η Unit) := chargeWhen _ _

theorem refund (amount : Int) : Minds n (refund amount : StepM η Unit) :=
  idle (.refund amount) fun _ _ h => h

theorem frameGet {f : Frame → α}
    (h : ∀ (frame : Frame) (memory : Memory), f { frame with memory } = f frame) :
    Minds n (frameGet f : StepM η α) :=
  idle (.frameGet h) fun _ => .frameGet f

/-- The whole frame, for something that takes no notice of its memory. -/
theorem frameGet_bind {next : Frame → StepM η γ} (hnext : ∀ frame, Minds n (next frame))
    (hblank : ∀ frame : Frame, next { frame with memory := .empty } = next frame) :
    Minds n (Exec.frameGet id >>= next) := by
  have hlooks : (Exec.frameGet id >>= next : StepM η γ) =
      Exec.frameGet (fun frame : Frame => { frame with memory := .empty }) >>= next := by
    funext x
    simp only [bind_apply, Exec.frameGet, id_eq, hblank]
  rw [hlooks]
  exact (frameGet fun _ _ => rfl).bind hnext

theorem hostGet (f : η → α) : Minds n (hostGet f : StepM η α) :=
  idle (.hostGet f) fun _ => .hostGet f

theorem onHost (op : HostM η α) : Minds n (onHost op : StepM η α) :=
  idle (.onHost op) fun _ => .onHost op

theorem failWhen (c : Bool) (e : EvmError) : Minds n (failWhen c e : StepM η Unit) :=
  .ite (.throw e) (.pure _)

theorem requireWritable : Minds n (requireWritable : StepM η Unit) :=
  (frameGet fun _ _ => rfl).bind fun _ => failWhen _ _

theorem setAside (requested : Nat) : Minds n (setAside requested : StepM η Nat) :=
  (frameGet fun _ _ => rfl).bind fun _ => (charge _).bind fun _ => .pure _

theorem pushNext (w : Word) : Minds n (do Exec.push w; return .next : StepM η Step) :=
  (push w).bind fun _ => .pure _

theorem setPosition (pc : Frame → Nat) (h : ∀ (frame : Frame) (memory : Memory),
    pc { frame with memory } = pc frame) :
    Minds n (modifyFrame fun frame => { frame with pc := pc frame } : StepM η Unit) :=
  idle (.modifyFrame fun frame memory => by rw [h]) fun _ => .modifyFrame fun h => h

theorem setReturnData (returnData : Bytes) :
    Minds n (modifyFrame fun frame => { frame with returnData } : StepM η Unit) :=
  idle (.setReturnData returnData) fun w => .setReturnData (Frame.Awaits.steady w) _

/-! ### Memory -/

/-- A range inside is read. -/
theorem slice {offset len : Nat} (hinside : offset + len ≤ n) :
    Minds n (readMemory offset len : StepM η Bytes) := by
  refine fun x hx => ⟨⟨_, .slice offset len x, ?_⟩, hx⟩
  exact List.forall_mem_singleton.mpr (hinside.trans hx.reaches)

/-- A word inside is read. -/
theorem load {offset : Nat} (hinside : offset + 32 ≤ n) :
    Minds n (Exec.frameGet fun frame => frame.memory.loadWord offset : StepM η Word) := by
  refine fun x hx => ⟨⟨_, .load offset x, ?_⟩, hx⟩
  exact List.forall_mem_singleton.mpr (hinside.trans hx.reaches)

/-- Ranges inside are written to, and memory does not grow for it. -/
theorem update (u : Memory.Update) (hinside : ∀ r ∈ u.ranges, r.1 + r.2 ≤ n) :
    Minds n (modifyMemory u.perform : StepM η Unit) := by
  intro x hx
  have hcovered : ∀ r ∈ u.ranges, r.1 + r.2 ≤ x.frame.memory.size := fun r hr =>
    (hinside r hr).trans hx.reaches
  have hsame : (u.perform x.frame.memory).size = x.frame.memory.size :=
    Memory.Update.size_perform_of_covered hx.whole hcovered
  refine ⟨⟨_, .update u x, List.forall_mem_singleton.mpr ⟨hsame, hcovered⟩⟩, ?_⟩
  refine hx.grown ?_ (Nat.le_of_eq hsame.symm) ?_ rfl
  · exact (congrArg (· % 32) hsame).trans hx.whole
  · exact hx.reaches.trans (Nat.le_of_eq hsame.symm)

/-- **After growth** what comes next may count on the range. -/
theorem resizing {offset len : Word} {next : Nat × Nat → StepM η γ}
    (hnext : ∀ start, Minds (max n (start + len.toNat)) (next (start, len.toNat))) :
    Minds n (resizeMemory offset len >>= next) := by
  intro x hx
  have huses := Uses.resize offset len x
  rcases resizeMemory_grows offset len hx with ⟨e, herror⟩ | ⟨start, y, hok, hcovers, hproper⟩
  · -- nothing has changed, and nothing was paid
    rw [herror] at huses
    refine Minded.bind_error ⟨⟨_, huses, List.forall_mem_singleton.mpr ?_⟩, ?_⟩ herror
    · refine ⟨Nat.le_refl _, hx.whole, ?_⟩
      rw [endState_error, Nat.sub_self, Nat.zero_add]
    · rw [herror]
      exact hx
  · rw [hok] at huses
    have hgrown : Minded (max n (start + len.toNat)) (resizeMemory offset len) x := by
      refine ⟨⟨_, huses, List.forall_mem_singleton.mpr hproper⟩, ?_⟩
      rw [hok]
      exact hcovers
    -- the rest counts on the higher bound, and the end is within the lower one
    have hrest := hgrown.bind hok (hnext start y hcovers)
    exact ⟨hrest.proper, hrest.covers.mono (Nat.le_max_left _ _)⟩

/-! ### Waiting -/

/-- The frame comes to wait for the output of a call, with a range inside for
    it. -/
theorem awaitCall {offset len : Nat} (hinside : offset + len ≤ n) :
    Minds n (modifyFrame fun frame => { frame with waiting := some (.call offset len) } :
      StepM η Unit) := by
  refine of_oblivious (.modifyFrame fun _ _ => rfl) fun x hx offset' len' hw => ?_
  have hpending : some (Pending.call offset len) = some (.call offset' len') := hw
  cases hpending
  exact hinside.trans hx.reaches

theorem awaitCreate :
    Minds n (modifyFrame fun frame => { frame with waiting := some .create } : StepM η Unit) :=
  of_oblivious (.modifyFrame fun _ _ => rfl) fun _ _ _ _ hw => nomatch hw

theorem takeBack (result : FrameResult) : Minds n (takeBack result : StepM η Unit) :=
  of_oblivious (.takeBack result) fun _ _ _ _ hw => nomatch hw

/-! ### Instructions -/

theorem copyToMemory (source : Bytes) (memOffset dataOffset len : Word) :
    Minds n (copyToMemory source memOffset dataOffset len : StepM η Step) := by
  unfold Exec.copyToMemory
  refine .resizing fun start => (charge _).bind fun _ => ?_
  refine Minds.bind ?_ fun _ => .pure _
  exact update (.storePadded start len.toNat source dataOffset.toNatCapped)
    (List.forall_mem_singleton.mpr (Nat.le_max_right _ _))

theorem copyFrom {source : Frame → Bytes}
    (h : ∀ (frame : Frame) (memory : Memory), source { frame with memory } = source frame) :
    Minds n (copyFrom source : StepM η Step) :=
  pop.bind fun _ => pop.bind fun _ => pop.bind fun _ => (frameGet h).bind fun _ =>
    copyToMemory _ _ _ _

theorem copyReturnData : Minds n (copyReturnData : StepM η Step) :=
  pop.bind fun _ => pop.bind fun _ => pop.bind fun _ => (frameGet fun _ _ => rfl).bind fun _ =>
    (failWhen _ _).bind fun _ => copyToMemory _ _ _ _

/-- Both ranges are brought in before the copy, and the first one stays in. -/
theorem copyWithinMemory : Minds n (copyWithinMemory : StepM η Step) := by
  unfold Exec.copyWithinMemory
  refine pop.bind fun dest => pop.bind fun source => pop.bind fun len => .ite (.pure _) ?_
  refine .resizing fun destStart => .resizing fun sourceStart => (charge _).bind fun _ => ?_
  refine Minds.bind ?_ fun _ => .pure _
  refine update (.copyWithin destStart sourceStart len.toNat) fun r hr => ?_
  simp only [Memory.Update.ranges, List.mem_cons, List.not_mem_nil, or_false] at hr
  rcases hr with rfl | rfl <;> dsimp only <;> omega

theorem finish (reason : ExitReason) : Minds n (finish reason : StepM η Step) := by
  unfold Exec.finish
  refine pop.bind fun _ => pop.bind fun _ => .resizing fun _ => ?_
  exact (slice (Nat.le_max_right _ _)).bind fun _ => .pure _

variable [Host η]

theorem log (topicCount : Nat) : Minds n (log topicCount : StepM η Step) := by
  unfold Exec.log
  refine requireWritable.bind fun _ => pop.bind fun _ => pop.bind fun _ => ?_
  refine (popList _).bind fun _ => .resizing fun _ => (charge _).bind fun _ => ?_
  refine (slice (Nat.le_max_right _ _)).bind fun _ => (frameGet fun _ _ => rfl).bind fun _ => ?_
  exact (onHost _).bind fun _ => .pure _

/-- The input is read after the range of the output was brought in, and that
    range is what the frame waits with. -/
theorem call (scheme : CallScheme) : Minds n (call scheme : StepM η Step) := by
  unfold Exec.call
  refine pop.bind fun _ => pop.bind fun _ => ?_
  refine (Minds.ite pop (.pure _)).bind fun value => pop.bind fun _ => pop.bind fun _ => ?_
  refine pop.bind fun _ => pop.bind fun _ => ?_
  refine (Minds.ite requireWritable (.pure _)).bind fun _ => ?_
  refine .resizing fun _ => .resizing fun _ => (onHost _).bind fun account => ?_
  refine Minds.bind ?_ fun _ => (setAside _).bind fun _ => ?_
  · exact (chargeCold _).bind fun _ => (chargeWhen _ _).bind fun _ => chargeWhen _ _
  refine (slice (by omega)).bind fun _ => (frameGet fun _ _ => rfl).bind fun _ => ?_
  exact (awaitCall (by omega)).bind fun _ => .pure _

theorem create (salted : Bool) : Minds n (create salted : StepM η Step) := by
  unfold Exec.create
  refine requireWritable.bind fun _ => pop.bind fun _ => pop.bind fun _ => pop.bind fun _ => ?_
  refine (Minds.ite (pop.bind fun _ => .pure _) (.pure _)).bind fun _ => .resizing fun _ => ?_
  refine (frameGet fun _ _ => rfl).bind fun _ => (hostGet _).bind fun _ => ?_
  refine (failWhen _ _).bind fun _ => (charge _).bind fun _ => ?_
  refine (slice (Nat.le_max_right _ _)).bind fun _ => (frameGet fun _ _ => rfl).bind fun _ => ?_
  refine (setAside _).bind fun _ => (frameGet fun _ _ => rfl).bind fun _ => ?_
  exact awaitCreate.bind fun _ => .pure _

/-- **Every instruction minds its bounds.** -/
theorem execute (op : Opcode) (pc : Nat) : Minds n (execute op pc : StepM η Step) := by
  by_cases htouches : op.TouchesMemory
  case neg =>
    refine idle (.execute pc htouches) fun waiting => ?_
    refine execute_keeps (Frame.Awaits.steady waiting) op pc (fun _ _ _ h => h) ?_ fun _ _ _ h => h
    intro hrequests
    refine absurd ?_ htouches
    cases op <;> first | exact trivial | exact hrequests
  unfold Exec.execute
  cases op with
  | keccak256 =>
    refine pop.bind fun _ => pop.bind fun _ => .resizing fun _ => (charge _).bind fun _ => ?_
    exact (slice (Nat.le_max_right _ _)).bind fun _ => pushNext _
  | extCodeCopy =>
    refine pop.bind fun _ => pop.bind fun _ => pop.bind fun _ => pop.bind fun _ => ?_
    exact (onHost _).bind fun _ => (chargeCold _).bind fun _ => copyToMemory _ _ _ _
  | callDataCopy => exact copyFrom fun _ _ => rfl
  | codeCopy => exact copyFrom fun _ _ => rfl
  | returnDataCopy => exact copyReturnData
  | mload =>
    refine pop.bind fun _ => .resizing fun _ => ?_
    exact (load (Nat.le_max_right _ _)).bind fun _ => pushNext _
  | mstore =>
    refine pop.bind fun _ => pop.bind fun value => .resizing fun start => ?_
    refine Minds.bind ?_ fun _ => .pure _
    exact update (.storeWord start value) (List.forall_mem_singleton.mpr (Nat.le_max_right _ _))
  | mstore8 =>
    refine pop.bind fun _ => pop.bind fun value => .resizing fun start => ?_
    refine Minds.bind ?_ fun _ => .pure _
    exact update (.storeByte start (UInt8.ofNat value.toNat))
      (List.forall_mem_singleton.mpr (Nat.le_max_right _ _))
  | mcopy => exact copyWithinMemory
  | ret => exact finish _
  | revert => exact finish _
  | log topics => exact log _
  | create => exact create _
  | create2 => exact create _
  | call scheme => exact call _
  | _ => exact htouches.elim

/-- A step looks at the frame, but not at its memory. -/
theorem step : Minds n (step : StepM η Step) := by
  unfold Exec.step
  refine frameGet_bind (fun frame => ?_) fun _ => rfl
  split
  · dsimp only
    split
    · exact .throw _
    · refine (failWhen _ _).bind fun _ => (failWhen _ _).bind fun _ => (charge _).bind fun _ => ?_
      exact (setPosition _ fun _ _ => rfl).bind fun _ => execute _ _
  · exact .pure _

/-! ### Outcomes -/

omit [Host η] in
/-- No more of the output is copied than the range has room for. -/
theorem deliverCall {outOffset outLen : Nat} (hinside : outOffset + outLen ≤ n)
    (result : FrameResult) : Minds n (deliverCall outOffset outLen result : StepM η Unit) := by
  unfold Exec.deliverCall
  refine (refund _).bind fun _ => ?_
  refine Minds.bind ?_ fun _ => (setReturnData _).bind fun _ => push _
  refine update (.store outOffset (result.output.extract 0 (min outLen result.output.size))) ?_
  refine List.forall_mem_singleton.mpr ?_
  rw [ByteArray.size_extract]
  omega

omit [Host η] in
theorem deliverCreate (result : FrameResult) :
    Minds n (deliverCreate result : StepM η Unit) := by
  unfold Exec.deliverCreate
  split
  · exact (refund _).bind fun _ => (setReturnData _).bind fun _ => push _
  · exact (setReturnData _).bind fun _ => push _

omit [Host η] in
/-- **An outcome is taken within the bounds**, whatever has run in the meantime. -/
theorem deliver (result : FrameResult) : Minds n (deliver result : StepM η Unit) := by
  intro x hx
  unfold Exec.deliver
  refine Minded.bind (frameGet (fun _ _ => rfl) x hx) rfl ?_
  dsimp only
  cases hw : x.frame.waiting with
  | none => exact Minds.pure _ x hx
  | some pending =>
    cases pending with
    | call outOffset outLen =>
      -- the range was brought in when the frame asked
      have hreaches : x.frame.Covers (max n (outOffset + outLen)) :=
        ⟨hx.whole, Nat.max_le.mpr ⟨hx.reaches, hx.pending outOffset outLen hw⟩, hx.pending⟩
      have htaken := ((takeBack result).bind fun _ =>
        deliverCall (Nat.le_max_right n (outOffset + outLen)) result) x hreaches
      exact ⟨htaken.proper, htaken.covers.mono (Nat.le_max_left _ _)⟩
    | create => exact ((takeBack result).bind fun _ => deliverCreate result) x hx

end Minds

/-! ## Ticks -/

theorem settle_covers {n : Nat} {r : EStateM.Result EvmError (Exec η) Step}
    (h : (endState r).frame.Covers n) : (settle r).2.frame.Covers n := by
  cases r with
  | ok s y =>
    rw [settle_ok]
    exact h
  | error e y => exact h.setGas y.frame.gas.forfeit

theorem take_covers {n : Nat} (result : FrameResult) {x : Exec η} (hx : x.frame.Covers n) :
    (take result x).2.frame.Covers n := by
  have hcovers := (Minds.deliver result x hx).covers
  unfold take
  cases h : deliver result x with
  | ok u y =>
    rw [h] at hcovers
    exact hcovers
  | error e y =>
    rw [h] at hcovers
    exact hcovers.setGas y.frame.gas.forfeit

theorem tick_memory [Host η] (x : Exec η) :
    (tick x).2.frame.memory = (endState (step x)).frame.memory := by
  unfold tick
  cases step x with
  | ok s y => rw [settle_ok, endState_ok]
  | error e y => rfl

theorem take_memory (result : FrameResult) (x : Exec η) :
    (take result x).2.frame.memory = (endState (deliver result x)).frame.memory := by
  unfold take
  cases deliver result x <;> rfl

end Exec

/-! ## Runs -/

/-- What a frame comes to, as in `Frame.ComesTo`, together with a record of how
    its memory was used until then, oldest use first. -/
inductive Frame.ComesUsing (η : Type) [Host η] (start : Frame) :
    List MemoryUse → Frame → Prop where
  | start : ComesUsing η start [] start
  | tick {record uses : List MemoryUse} (x : Exec η) : ComesUsing η start record x.frame →
    Exec.Uses Exec.step x uses → ComesUsing η start (record ++ uses) (Exec.tick x).2.frame
  | answer {record uses taking : List MemoryUse} {x y : Exec η} {request : Request}
    (result : FrameResult) (later : η) : ComesUsing η start record x.frame →
    Exec.Uses Exec.step x uses → Exec.tick x = (some request.action, y) →
    Exec.Uses (Exec.deliver result) ⟨y.frame, later⟩ taking →
    ComesUsing η start (record ++ uses ++ taking) (Exec.take result ⟨y.frame, later⟩).2.frame

namespace Frame

variable {η : Type} [Host η] {start frame : Frame} {record : List MemoryUse}

/-- The record tells the sizes of memory from the first to the last. -/
theorem ComesUsing.leads (h : ComesUsing η start record frame) :
    MemoryUse.Leads start.memory.size record frame.memory.size := by
  -- a tick leaves the memory that its step leaves
  have htick : ∀ {record uses : List MemoryUse} {x : Exec η},
      MemoryUse.Leads start.memory.size record x.frame.memory.size → Exec.Uses Exec.step x uses →
      MemoryUse.Leads start.memory.size (record ++ uses) (Exec.tick x).2.frame.memory.size := by
    intro record uses x hrecord huses
    rw [Exec.tick_memory]
    exact hrecord.append huses.leads
  induction h with
  | start => exact rfl
  | tick x _ huses ih => exact htick ih huses
  | answer result later _ huses hasks htaking ih =>
    have hasked := htick ih huses
    rw [hasks] at hasked
    rw [Exec.take_memory]
    exact hasked.append htaking.leads

/-- The frame is within the bounds, and so was each use of memory on a run that
    has come to it. -/
structure InBounds (η : Type) [Host η] (start frame : Frame) : Prop where
  covers : frame.Covers 0
  accounted : ∃ record, ComesUsing η start record frame ∧ ∀ use ∈ record, use.Proper

/-- What a step adds to the record of a run is as it should be. -/
theorem InBounds.step {x : Exec η} (h : InBounds η start x.frame) :
    ∃ record uses, ComesUsing η start record x.frame ∧ Exec.Uses Exec.step x uses ∧
      (∀ use ∈ record ++ uses, use.Proper) ∧ (Exec.tick x).2.frame.Covers 0 := by
  obtain ⟨record, hcomes, hproper⟩ := h.accounted
  have hminded := Exec.Minds.step x h.covers
  obtain ⟨uses, huses, hproper'⟩ := hminded.proper
  exact ⟨record, uses, hcomes, huses, List.forall_mem_append.mpr ⟨hproper, hproper'⟩,
    Exec.settle_covers hminded.covers⟩

theorem InBounds.tick {x : Exec η} (h : InBounds η start x.frame) :
    InBounds η start (Exec.tick x).2.frame := by
  obtain ⟨record, uses, hcomes, huses, hproper, hcovers⟩ := h.step
  exact ⟨hcovers, _, .tick x hcomes huses, hproper⟩

/-- An answer is taken within the bounds, also if it comes much later. -/
theorem InBounds.answer {x y : Exec η} {request : Request} (h : InBounds η start x.frame)
    (hasks : Exec.tick x = (some request.action, y)) (result : FrameResult) (later : η) :
    InBounds η start (Exec.take result ⟨y.frame, later⟩).2.frame := by
  obtain ⟨record, uses, hcomes, huses, hproper, hcovers⟩ := h.step
  rw [hasks] at hcovers
  have hminded := Exec.Minds.deliver (n := 0) result ⟨y.frame, later⟩ hcovers
  obtain ⟨taking, htaking, hproper'⟩ := hminded.proper
  exact ⟨Exec.take_covers result hcovers, _, .answer result later hcomes huses hasks htaking,
    List.forall_mem_append.mpr ⟨hproper, hproper'⟩⟩

/-- **Runs stay within the bounds** that they start in. -/
theorem ComesTo.inBounds (hstart : start.Covers 0) (h : ComesTo η start frame) :
    InBounds η start frame := by
  induction h with
  | start => exact ⟨hstart, [], .start, nofun⟩
  | tick x _ ih => exact ih.tick
  | answer result later _ hasks ih => exact ih.answer hasks result later

/-- Within the bounds memory does not shrink, and what is paid on the way is what
    its price rises by. -/
theorem InBounds.balance (h : InBounds η start frame) : start.memory.size ≤ frame.memory.size ∧
    ∃ record, ComesUsing η start record frame ∧ (∀ use ∈ record, use.Proper) ∧
      MemoryUse.paidIn record + Gas.memory start.memory.words = Gas.memory frame.memory.words := by
  obtain ⟨record, hcomes, hproper⟩ := h.accounted
  obtain ⟨hle, hpaid⟩ := hcomes.leads.balance hproper
  exact ⟨hle, record, hcomes, hproper, hpaid⟩

end Frame

end Evm
