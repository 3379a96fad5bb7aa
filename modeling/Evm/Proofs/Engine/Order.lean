import Evm.Proofs.Engine.Tick
import Evm.State.Database

/-! # Frames in order

    The frames under way are a stack, and so are their checkpoints. Each frame
    is one deeper than the one that waits for it, and its checkpoint is not
    older. A frame that ends is the innermost one, so what is undone when it
    fails was recorded after it was opened.

    All of this speaks of two things about a frame, its depth and its
    checkpoint (`Level`). What one turn does to the levels and to the journal
    is said once, in `Shift`, and the invariant `Stacked` follows from it.
-/

namespace Evm

open Journal

/-! ## The journal at a checkpoint -/

namespace Journal

variable {β : Type} {b j j' : Journal β} {c d : Checkpoint}

/-- What the journal had at a checkpoint: its oldest entries. -/
def before (j : Journal β) (c : Checkpoint) : List Undo :=
  j.entries.drop (j.entries.length - c.length)

theorem before_suffix (j : Journal β) (c : Checkpoint) : j.before c <:+ j.entries :=
  List.drop_suffix _ _

theorem length_before (h : c.length ≤ j.entries.length) : (j.before c).length = c.length := by
  simp only [before, List.length_drop]
  omega

/-- Reverting to a checkpoint leaves what the journal had there. -/
theorem revert_entries (j : Journal β) (c : Checkpoint) : (j.revert c).entries = j.before c :=
  undoNewest_entries _ j

/-- What was recorded later does not change what the journal had. -/
theorem before_of_suffix (h : j.entries <:+ j'.entries) (hc : c.length ≤ j.entries.length) :
    j'.before c = j.before c := by
  obtain ⟨newer, hnewer⟩ := h
  have hcount : j'.entries.length - c.length =
      newer.length + (j.entries.length - c.length) := by
    rw [← hnewer, List.length_append]
    omega
  unfold before
  rw [hcount, ← hnewer, ← List.drop_drop, List.drop_left]

theorem before_checkpoint (h : b.entries <:+ j.entries) : j.before b.checkpoint = b.entries := by
  have hall : b.before b.checkpoint = b.entries := by simp [before, checkpoint]
  rw [before_of_suffix (c := b.checkpoint) h (Nat.le_refl _), hall]

/-- Undoing what was recorded after a later checkpoint leaves what the journal
    had at an earlier one. -/
theorem before_revert (hcd : c.length ≤ d.length) (hd : d.length ≤ j.entries.length) :
    (j.revert d).before c = j.before c := by
  have hsuffix : (j.revert d).entries <:+ j.entries := by
    rw [revert_entries]
    exact before_suffix j d
  have hlength : (j.revert d).entries.length = d.length := by
    rw [revert_entries, length_before hd]
  exact (before_of_suffix hsuffix (by omega)).symm

theorem RevertsTo.suffix [Backend β] (h : RevertsTo b j) : b.entries <:+ j.entries := by
  rw [← h.restored.entries, revert_entries]
  exact before_suffix j _

end Journal

/-! ## Levels -/

/-- Where a frame stands: how deep, and over which checkpoint. -/
structure Level where
  depth : Nat
  checkpoint : Checkpoint

/-- The level of a frame. -/
def Activation.level (act : Activation) : Level :=
  ⟨act.frame.context.depth, act.kind.checkpoint⟩

/-- How deep the frame of a request is to be. -/
def Request.depth : Request → Nat
  | .call message => message.depth
  | .create message => message.depth

/-- Levels, innermost first, stand on one another from a first depth on: each
    is one deeper than the next and its checkpoint not older, and the innermost
    checkpoint is not beyond the end of a journal of some length. -/
def Stacked (first limit : Nat) : List Level → (length : Nat) → Prop
  | [], _ => True
  | level :: outer, length =>
    level.depth = first + outer.length ∧ level.depth ≤ limit ∧
      level.checkpoint.length ≤ length ∧ Stacked first limit outer level.checkpoint.length

namespace Stacked

variable {first limit length length' : Nat} {levels outer : List Level} {level : Level}

/-- A journal that has grown is as good. -/
theorem mono (h : Stacked first limit levels length) (hlength : length ≤ length') :
    Stacked first limit levels length' := by
  cases levels with
  | nil => trivial
  | cons level outer =>
    obtain ⟨hdepth, hlimit, hreached, houter⟩ := h
    exact ⟨hdepth, hlimit, by omega, houter⟩

/-- No checkpoint is beyond the end of the journal. -/
theorem reached (h : Stacked first limit levels length) :
    ∀ level ∈ levels, level.checkpoint.length ≤ length := by
  induction levels generalizing length with
  | nil => simp
  | cons level outer ih =>
    obtain ⟨_, _, hreached, houter⟩ := h
    intro l hl
    rcases List.mem_cons.mp hl with rfl | hl
    · exact hreached
    · have hle := ih houter l hl
      omega

theorem shallow (h : Stacked first limit levels length) :
    ∀ level ∈ levels, level.depth ≤ limit := by
  induction levels generalizing length with
  | nil => simp
  | cons level outer ih =>
    obtain ⟨_, hlimit, _, houter⟩ := h
    intro l hl
    rcases List.mem_cons.mp hl with rfl | hl
    · exact hlimit
    · exact ih houter l hl

/-- From the outside in, depths count up from the first one. -/
theorem depths (h : Stacked first limit levels length) :
    levels.reverse.map Level.depth = List.range' first levels.length := by
  induction levels generalizing length with
  | nil => rfl
  | cons level outer ih =>
    obtain ⟨hdepth, _, _, houter⟩ := h
    rw [List.reverse_cons, List.map_append, ih houter, List.length_cons, List.range'_concat]
    simp [hdepth]

/-- From the outside in, checkpoints do not get older. -/
theorem checkpoints (h : Stacked first limit levels length) :
    (levels.reverse.map fun level => level.checkpoint.length).Pairwise (· ≤ ·) := by
  induction levels generalizing length with
  | nil => simp
  | cons level outer ih =>
    obtain ⟨_, _, _, houter⟩ := h
    rw [List.reverse_cons, List.map_append, List.pairwise_append]
    refine ⟨ih houter, by simp, ?_⟩
    intro n hn n' hn'
    obtain ⟨l, hl, rfl⟩ := List.mem_map.mp hn
    obtain rfl : n' = level.checkpoint.length := by simpa using hn'
    exact houter.reached l (List.mem_reverse.mp hl)

/-- The depths between the first one and the limit are enough for all. -/
theorem count (h : Stacked first limit (level :: outer) length) :
    (level :: outer).length ≤ limit - first + 1 := by
  obtain ⟨hdepth, hlimit, _, _⟩ := h
  simp only [List.length_cons]
  omega

end Stacked

variable {β : Type} [Backend β]

/-! ## Opening and closing -/

/-- What has to be in order when a request is opened. Nothing that was recorded
    before is undone, whether the request is settled at once or its frame stands
    on a checkpoint that has all of it behind; and the checkpoint that was taken
    is not beyond the end of the journal when it is released or kept. -/
def OpensInOrder (e : Engine β) : FrameStart × Engine β → Prop
  | (.done _, e') =>
    e.journal.entries <:+ e'.journal.entries ∧
      e.journal.checkpoint.length ≤ e'.journal.entries.length
  | (.run act, e') =>
    e.journal.entries <:+ e'.journal.before act.kind.checkpoint ∧
      act.kind.checkpoint.length ≤ e'.journal.entries.length

/-- What has to be in order when a frame over a checkpoint is closed, where
    `older` is what the journal had when the frame was opened: the checkpoint is
    not beyond the end of the journal when it is released, nothing older is
    undone, and a failure undoes all the rest. -/
structure ClosesInOrder (c : Checkpoint) (older : List Undo) (result : FrameResult)
    (e : Engine β) : Prop where
  released : c.length ≤ e.journal.entries.length
  kept : older <:+ e.journal.entries
  undone : result.isSuccess = false → e.journal.entries = older

namespace Request

variable {request : Request} {e e' : Engine β}

omit [Backend β] in
theorem opensInOrder_done {result : FrameResult}
    (h : e.journal.entries <:+ e'.journal.entries) : OpensInOrder e (.done result, e') :=
  ⟨h, h.length_le⟩

/-- **Opening undoes nothing that was recorded before.** -/
theorem start_opensInOrder (request : Request) (e : Engine β) :
    OpensInOrder e (request.start e) := by
  cases request with
  | call message =>
    show OpensInOrder e (Engine.startCall message e)
    have hstart := Engine.startCall_spec message e
    generalize Engine.startCall message e = outcome at hstart
    cases hstart with
    | failed _ _ hchanges =>
      apply opensInOrder_done
      simp only [revert_entries, before_checkpoint hchanges.revertsTo.suffix, List.suffix_refl]
    | settled _ _ hchanges => exact opensInOrder_done hchanges.revertsTo.suffix
    | opened hchanges =>
      have hsuffix := hchanges.revertsTo.suffix
      refine ⟨?_, hsuffix.length_le⟩
      simp only [FrameKind.checkpoint, before_checkpoint hsuffix, List.suffix_refl]
  | create message =>
    show OpensInOrder e (Engine.startCreate message e)
    have hstart := Engine.startCreate_spec message e
    generalize Engine.startCreate message e = outcome at hstart
    cases hstart with
    | refused _ _ hlooks => exact opensInOrder_done hlooks.revertsTo.suffix
    | failed _ _ hcounted hopens =>
      -- the checkpoint comes after the nonce was counted up
      apply opensInOrder_done
      rw [revert_entries, before_checkpoint hopens.revertsTo.suffix]
      exact hcounted.changes.revertsTo.suffix
    | opened hcounted hopens =>
      have hsuffix := hopens.revertsTo.suffix
      refine ⟨?_, hsuffix.length_le⟩
      simp only [FrameKind.checkpoint]
      rw [before_checkpoint hsuffix]
      exact hcounted.changes.revertsTo.suffix

/-- A frame is as deep as was asked for, which is not too deep. -/
theorem start_depth {act : Activation} (h : request.start e = (.run act, e')) :
    act.frame.context.depth = request.depth ∧ request.depth ≤ e.config.maxCallDepth := by
  cases request with
  | call message =>
    have hrun : Engine.startCall message e = (.run act, e') := h
    have hlimit : message.depth ≤ e.config.maxCallDepth := by
      refine Nat.le_of_not_lt fun hdeep => ?_
      unfold Engine.startCall at hrun
      simp only [state_get_bind_apply, state_ite_apply, if_pos hdeep] at hrun
      cases hrun
    have hstart := Engine.startCall_spec message e
    rw [hrun] at hstart
    cases hstart
    exact ⟨rfl, hlimit⟩
  | create message =>
    have hrun : Engine.startCreate message e = (.run act, e') := h
    have hlimit : message.depth ≤ e.config.maxCallDepth := by
      refine Nat.le_of_not_lt fun hdeep => ?_
      unfold Engine.startCreate at hrun
      simp only [state_get_bind_apply, state_ite_apply, if_pos hdeep] at hrun
      cases hrun
    have hstart := Engine.startCreate_spec message e
    rw [hrun] at hstart
    cases hstart
    exact ⟨rfl, hlimit⟩

theorem start_setup (request : Request) (e : Engine β) :
    Engine.SameSetup e (request.start e).2 := by
  cases request with
  | call message => exact (Engine.startCall_spec message e).setup
  | create message => exact (Engine.startCreate_spec message e).setup

/-- A frame asks for frames one deeper than itself. -/
theorem depth_of_allowed {ctx : FrameContext} (h : request.action.AllowedIn ctx) :
    request.depth = ctx.depth + 1 := by
  cases request with
  | call message =>
    obtain ⟨scheme, callee, value, input, gasLimit, rfl, _⟩ := h
    cases scheme <;> rfl
  | create message => exact h.2.1

end Request

/-- **Closing a frame** undoes what was recorded after its checkpoint, or
    nothing. -/
theorem Engine.endFrame_closesInOrder {kind : FrameKind} {ending : Ending} {e e' : Engine β}
    {result : FrameResult} (hreached : kind.checkpoint.length ≤ e.journal.entries.length)
    (h : Engine.endFrame kind ending e = (result, e')) :
    ClosesInOrder kind.checkpoint (e.journal.before kind.checkpoint) result e' := by
  have hclosed := Engine.endFrame_spec kind ending e
  rw [h] at hclosed
  cases hclosed with
  | kept hsuccess _ hchanges =>
    have hsuffix := hchanges.revertsTo.suffix
    refine ⟨Nat.le_trans hreached hsuffix.length_le, (before_suffix _ _).trans hsuffix, ?_⟩
    intro hfailure
    rw [hsuccess] at hfailure
    cases hfailure
  | @undone _ j _ _ hchanges =>
    have hsuffix := hchanges.revertsTo.suffix
    have hentries : (j.revert kind.checkpoint).entries = e.journal.before kind.checkpoint := by
      rw [revert_entries, before_of_suffix hsuffix hreached]
    refine ⟨?_, ?_, fun _ => hentries⟩
    · simp only [hentries, length_before hreached]
      omega
    · simp only [hentries, List.suffix_refl]

/-! ## Turns -/

namespace Machine

variable {m m' k k' : Machine β}

/-- The frames under way, from the first to the one whose turn it is. -/
def frames (m : Machine β) : List Activation := (m.current :: m.parents).reverse

/-- The levels of the frames under way, innermost first. -/
def levels (m : Machine β) : List Level := (m.current :: m.parents).map Activation.level

/-- What one turn does to the levels and to the journal. -/
inductive Shift (m m' : Machine β) : Prop where
  | answered :
    m'.levels = m.levels →
    m.engine.journal.entries <:+ m'.engine.journal.entries → Shift m m'
  | opened {c : Checkpoint} :
    m'.levels = ⟨m.current.level.depth + 1, c⟩ :: m.levels →
    m.current.level.depth + 1 ≤ m.engine.config.maxCallDepth →
    m.engine.journal.entries <:+ m'.engine.journal.before c →
    c.length ≤ m'.engine.journal.entries.length → Shift m m'
  | closed :
    m.levels = m.current.level :: m'.levels →
    (m.current.level.checkpoint.length ≤ m.engine.journal.entries.length →
      m.engine.journal.before m.current.level.checkpoint <:+ m'.engine.journal.entries) →
    Shift m m'

theorem advance_shift (h : m.advance = .running m') : Shift m m' := by
  rcases hrun : m.runCurrent with ⟨action, x⟩
  have hran : Ran m action x.frame x.host := runCurrent_ran m hrun
  have hsuffix := hran.edited.1.revertsTo.suffix
  -- the frame that ran is still where it was
  have hlevel : (⟨x.frame, m.current.kind⟩ : Activation).level = m.current.level := by
    simp only [Activation.level, hran.context]
  rw [advance_follow, hrun] at h
  rcases action.request_or_finished with ⟨request, rfl⟩ | ⟨ending, rfl⟩
  · rw [follow_request] at h
    cases h
    have hopens := request.start_opensInOrder x.host
    rcases hstart : request.start x.host with ⟨result | child, engine⟩
    · rw [hstart] at hopens
      refine .answered ?_ (hsuffix.trans hopens.1)
      simp only [levels, afterStart, List.map_cons, hlevel]
    · rw [hstart] at hopens
      obtain ⟨hdepth, hlimit⟩ := Request.start_depth hstart
      have hchild := Request.depth_of_allowed hran.allowed
      have hsetup := hran.edited.setup.config
      refine .opened (c := child.kind.checkpoint) ?_ ?_ (hsuffix.trans hopens.1) hopens.2
      · simp only [levels, afterStart, List.map_cons, Activation.level, hdepth, hchild,
          hran.context]
      · rw [hsetup] at hlimit
        simp only [Activation.level]
        omega
  · unfold follow at h
    cases hparents : m.parents with
    | nil =>
      rw [hparents] at h
      cases h
    | cons parent parents =>
      rw [hparents] at h
      cases h
      refine .closed ?_ ?_
      · simp only [levels, hparents, List.map_cons]
      · intro hreached
        have hreached' : m.current.kind.checkpoint.length ≤ x.host.journal.entries.length :=
          Nat.le_trans hreached hsuffix.length_le
        rw [← before_of_suffix hsuffix hreached]
        exact (Engine.endFrame_closesInOrder hreached' rfl).kept

/-- The levels of a machine are in order over its journal. -/
def Piled (first limit : Nat) (m : Machine β) : Prop :=
  Stacked first limit m.levels m.engine.journal.entries.length

/-- **One turn keeps the levels in order.** -/
theorem Piled.advance {first : Nat} (hm : Piled first m.engine.config.maxCallDepth m)
    (h : m.advance = .running m') : Piled first m.engine.config.maxCallDepth m' := by
  unfold Piled at hm ⊢
  cases advance_shift h with
  | answered hlevels hsuffix =>
    rw [hlevels]
    exact hm.mono hsuffix.length_le
  | @opened c hlevels hlimit hsuffix hreached =>
    have hcurrent : m.current.level.depth = first + m.parents.length := by
      have hdepth := hm.1
      simpa only [List.length_map] using hdepth
    have hbehind : m.engine.journal.entries.length ≤ c.length := by
      have hlength := hsuffix.length_le
      rwa [length_before hreached] at hlength
    rw [hlevels]
    refine ⟨?_, hlimit, hreached, hm.mono hbehind⟩
    simp only [levels, List.length_map, List.length_cons]
    omega
  | closed hlevels hkept =>
    -- what is left stood on the checkpoint of the frame that ended
    rw [hlevels] at hm
    obtain ⟨_, _, hreached, houter⟩ := hm
    have hlength := (hkept hreached).length_le
    rw [length_before hreached] at hlength
    exact houter.mono hlength

theorem Piled.visits {first limit : Nat} (hlimit : m.engine.config.maxCallDepth = limit)
    (hm : Piled first limit m) (h : Visits m m') : Piled first limit m' := by
  induction h with
  | refl => exact hm
  | @tail m1 m2 hvisits hstep ih =>
    have hconfig := (visits_setup hvisits).config
    rw [← hlimit, ← hconfig] at ih ⊢
    exact ih.advance hstep

/-! ## While a frame is under way -/

/-- The machines that the driver comes to while the frame whose turn it is in
    `m` is under way. -/
def During (m : Machine β) : Machine β → Prop :=
  Relation.ReflTransGen
    (fun k k' => k.advance = .running k' ∧ m.parents.length ≤ k'.parents.length) m

theorem During.visits (h : During m k) : Visits m k := by
  induction h with
  | refl => exact .refl
  | tail _ hstep ih => exact ih.tail hstep.1

omit [Backend β] in
theorem levels_length (m : Machine β) : m.levels.length = m.parents.length + 1 := by
  simp only [levels, List.length_map, List.length_cons]

/-- While a frame is under way its level stays where it is, and what the
    journal had when it was opened stays recorded. -/
theorem During.older {first limit : Nat} (hlimit : m.engine.config.maxCallDepth = limit)
    (hm : Piled first limit m) (h : During m k) :
    m.levels <:+ k.levels ∧
      k.engine.journal.before m.current.level.checkpoint =
        m.engine.journal.before m.current.level.checkpoint := by
  induction h with
  | refl => exact ⟨List.suffix_refl _, rfl⟩
  | @tail k k' hduring hstep ih =>
    obtain ⟨hadvance, hunder⟩ := hstep
    obtain ⟨hlevels, holder⟩ := ih
    have hk : Piled first limit k := hm.visits hlimit (During.visits hduring)
    have hmem : m.current.level ∈ k.levels := hlevels.subset (by simp [levels])
    have hreached := hk.reached _ hmem
    cases advance_shift hadvance with
    | answered hlevels' hsuffix =>
      rw [hlevels', before_of_suffix hsuffix hreached]
      exact ⟨hlevels, holder⟩
    | opened hlevels' _ hsuffix _ =>
      rw [hlevels', before_of_suffix (hsuffix.trans (before_suffix _ _)) hreached]
      exact ⟨hlevels.trans (List.suffix_cons _ _), holder⟩
    | closed hlevels' hkept =>
      -- the frame that ended was a later one
      have hlonger : m.levels.length ≤ k'.levels.length := by
        simp only [levels_length]
        omega
      rw [hlevels'] at hlevels
      have hleft : m.levels <:+ k'.levels := by
        rcases List.suffix_cons_iff.mp hlevels with heq | hsuffix
        · have hlength := congrArg List.length heq
          rw [List.length_cons] at hlength
          omega
        · exact hsuffix
      refine ⟨hleft, ?_⟩
      unfold Piled at hk
      rw [hlevels'] at hk
      obtain ⟨_, _, hend, houter⟩ := hk
      have hle : m.current.level.checkpoint.length ≤ k.current.level.checkpoint.length :=
        houter.reached _ (hleft.subset (by simp [levels]))
      have hbefore : (k.engine.journal.revert k.current.level.checkpoint).before
          m.current.level.checkpoint = k.engine.journal.before m.current.level.checkpoint :=
        before_revert hle hend
      rw [← holder, ← hbefore]
      refine before_of_suffix ?_ ?_
      · rw [revert_entries]
        exact hkept hend
      · rw [revert_entries, length_before hend]
        exact hle

/-- The frames of a machine are in order: from the first to the one whose turn
    it is their depths count up, none is too deep, there are not too many, and
    their checkpoints do not get older and are not beyond the end of the
    journal. -/
structure Ordered (first limit : Nat) (m : Machine β) : Prop where
  depths : (m.frames.map fun act => act.frame.context.depth) = List.range' first m.frames.length
  shallow : ∀ act ∈ m.frames, act.frame.context.depth ≤ limit
  count : m.frames.length ≤ limit - first + 1
  checkpoints : (m.frames.map fun act => act.kind.checkpoint.length).Pairwise (· ≤ ·)
  reached : ∀ act ∈ m.frames, act.kind.checkpoint.length ≤ m.engine.journal.entries.length

omit [Backend β] in
theorem Piled.ordered {first limit : Nat} (h : Piled first limit m) : Ordered first limit m := by
  have hreverse : m.frames.map Activation.level = m.levels.reverse := by
    simp only [frames, levels, List.map_reverse]
  have hmem : ∀ act ∈ m.frames, act.level ∈ m.levels := by
    intro act hact
    rw [← List.mem_reverse, ← hreverse]
    exact List.mem_map_of_mem hact
  have hlength : m.frames.length = m.levels.length := by
    simp only [frames, levels, List.length_reverse, List.length_map]
  refine ⟨?_, fun act hact => h.shallow _ (hmem act hact), ?_, ?_,
    fun act hact => h.reached _ (hmem act hact)⟩
  · have hdepths := h.depths
    rw [← hreverse, List.map_map, ← hlength] at hdepths
    exact hdepths
  · rw [hlength]
    exact h.count
  · have hcheckpoints := h.checkpoints
    rw [← hreverse, List.map_map] at hcheckpoints
    exact hcheckpoints

/-- A frame that ends closes over the checkpoint that it was opened with. -/
theorem During.closesInOrder {first limit : Nat} (hlimit : m.engine.config.maxCallDepth = limit)
    (hm : Piled first limit m) (h : During m k) (hself : k.parents.length = m.parents.length)
    {ending : Ending} {x : Exec (Engine β)} {result : FrameResult} {e' : Engine β}
    (hrun : k.runCurrent = (.finished ending, x))
    (hend : Engine.endFrame k.current.kind ending x.host = (result, e')) :
    ClosesInOrder m.current.kind.checkpoint
      (m.engine.journal.before m.current.kind.checkpoint) result e' := by
  obtain ⟨hlevels, holder⟩ := h.older hlimit hm
  have hk : Piled first limit k := hm.visits hlimit h.visits
  -- as many frames are under way, so the levels are the same
  have hsame : m.levels = k.levels := by
    apply hlevels.eq_of_length
    rw [levels_length, levels_length, hself]
  have hkind : k.current.kind.checkpoint = m.current.kind.checkpoint := by
    have hhead := congrArg List.head? hsame
    simp only [levels, List.map_cons, List.head?_cons, Option.some.injEq] at hhead
    exact (congrArg Level.checkpoint hhead).symm
  have hran : Ran k (.finished ending) x.frame x.host := runCurrent_ran k hrun
  have hsuffix := hran.edited.1.revertsTo.suffix
  have hreached : k.current.kind.checkpoint.length ≤ k.engine.journal.entries.length :=
    hk.reached _ (List.mem_map_of_mem (f := Activation.level) List.mem_cons_self)
  have hcloses := Engine.endFrame_closesInOrder (Nat.le_trans hreached hsuffix.length_le) hend
  rw [before_of_suffix hsuffix hreached, hkind] at hcloses
  simp only [Activation.level] at holder
  rwa [holder] at hcloses

end Machine

/-! ## Calls and creations -/

namespace Request

/-- The machines that the driver comes to for a request. -/
def Visits (request : Request) (e : Engine β) (m : Machine β) : Prop :=
  ∃ act e', request.start e = (.run act, e') ∧ Machine.Visits ⟨e', act, [], none⟩ m

/-- The levels are in order in every machine of a request. -/
theorem Visits.piled {request : Request} {e : Engine β} {m : Machine β}
    (h : request.Visits e m) :
    m.engine.config.maxCallDepth = e.config.maxCallDepth ∧
      Machine.Piled request.depth e.config.maxCallDepth m := by
  obtain ⟨act, e', hstart, hvisits⟩ := h
  have hopens := request.start_opensInOrder e
  have hsetup := request.start_setup e
  rw [hstart] at hopens hsetup
  obtain ⟨hdepth, hlimit⟩ := start_depth hstart
  have hconfig : e'.config.maxCallDepth = e.config.maxCallDepth :=
    congrArg Config.maxCallDepth hsetup.config
  have hfirst : Machine.Piled request.depth e.config.maxCallDepth
      (⟨e', act, [], none⟩ : Machine β) := by
    refine ⟨?_, ?_, hopens.2, trivial⟩
    · simp only [Activation.level, hdepth, List.map_nil, List.length_nil, Nat.add_zero]
    · simp only [Activation.level, hdepth, hlimit]
  refine ⟨?_, hfirst.visits hconfig hvisits⟩
  rw [(Machine.visits_setup hvisits).config, hconfig]

end Request

namespace Engine

/-- **Frames are opened and closed in order.** At every turn of the driver for
    a call or creation the frames under way count their depths up from that of
    the request, none is deeper than the limit, and their checkpoints are in
    order and within the journal. Opening a frame undoes nothing that was
    recorded before. While a frame is under way, what the journal had when it
    was opened stays; when it ends, its checkpoint is within the journal, and if
    it fails just the entries recorded since then are undone. -/
theorem frames_in_order (request : Request) (e : Engine β) :
    OpensInOrder e (request.start e) ∧
    ∀ m, request.Visits e m →
      Machine.Ordered request.depth e.config.maxCallDepth m ∧
      (∀ asked x, m.runCurrent = (Request.action asked, x) →
        m.engine.journal.entries <:+ x.host.journal.entries ∧
          OpensInOrder x.host (asked.start x.host)) ∧
      ∀ k, m.During k →
        k.engine.journal.before m.current.kind.checkpoint =
          m.engine.journal.before m.current.kind.checkpoint ∧
        ∀ ending x result e', k.parents.length = m.parents.length →
          k.runCurrent = (.finished ending, x) →
          endFrame k.current.kind ending x.host = (result, e') →
          ClosesInOrder m.current.kind.checkpoint
            (m.engine.journal.before m.current.kind.checkpoint) result e' := by
  refine ⟨request.start_opensInOrder e, ?_⟩
  intro m hm
  obtain ⟨hlimit, hpiled⟩ := hm.piled
  refine ⟨hpiled.ordered, ?_, ?_⟩
  · intro asked x hrun
    have hran := Machine.runCurrent_ran m hrun
    exact ⟨hran.edited.1.revertsTo.suffix, asked.start_opensInOrder x.host⟩
  · intro k hduring
    refine ⟨(hduring.older hlimit hpiled).2, ?_⟩
    intro ending x result e' hself hrun hend
    exact hduring.closesInOrder hlimit hpiled hself hrun hend

/-- A contract calls another one, which writes a slot and fails. While the
    second one runs two frames are under way, and its write is undone when it
    ends. -/
theorem frames_in_order_failing :
    let calling : Bytes := ⟨#[0x60, 0, 0x60, 0, 0x60, 0, 0x60, 0, 0x60, 0, 0x60, 78, 0x5a, 0xf1]⟩
    let failing : Bytes := ⟨#[0x60, 1, 0x60, 0, 0x55, 0xfe]⟩
    let store : Database :=
      { Database.empty with
        accounts := (Std.ExtTreeMap.empty.insert (.ofNat 77) ⟨1, 5, ⟨1⟩⟩).insert (.ofNat 78)
          ⟨1, 0, ⟨2⟩⟩
        code := (Std.ExtTreeMap.empty.insert ⟨1⟩ calling).insert ⟨2⟩ failing }
    let engine := new store .default (.ofHardfork .cancun)
    let request : Request := .call
      ⟨.call, .ofNat 3, .ofNat 77, .ofNat 77, .transfer 0, ByteArray.empty, 50000, false, 0⟩
    ∃ m x ending result e', request.Visits engine m ∧ m.frames.length = 2 ∧
      Machine.Ordered 0 1024 m ∧ m.runCurrent = (.finished ending, x) ∧
      x.host.journal.entries.length = m.engine.journal.entries.length + 2 ∧
      endFrame m.current.kind ending x.host = (result, e') ∧ result.isSuccess = false ∧
      e'.journal.entries = m.engine.journal.before m.current.kind.checkpoint := by
  intro calling failing store engine request
  have hevaluated : (match request.start engine with
      | (.run act, e') =>
        match (⟨e', act, [], none⟩ : Machine Database).advance with
        | .running m =>
          match m.runCurrent with
          | (.finished ending, x) =>
            m.frames.length == 2 &&
              x.host.journal.entries.length == m.engine.journal.entries.length + 2 &&
              !(endFrame m.current.kind ending x.host).1.isSuccess
          | _ => false
        | _ => false
      | _ => false) = true := by decide +kernel
  split at hevaluated
  · next act e' hstart =>
    split at hevaluated
    · next m hadvance =>
      split at hevaluated
      · next ending x hrun =>
        simp only [Bool.and_eq_true, beq_iff_eq, Bool.not_eq_true'] at hevaluated
        obtain ⟨⟨hframes, hwrites⟩, hfailure⟩ := hevaluated
        have hm : request.Visits engine m := ⟨act, e', hstart, .single hadvance⟩
        obtain ⟨hordered, _, hcloses⟩ := (frames_in_order request engine).2 m hm
        have hclosed := (hcloses m .refl).2 ending x _ _ rfl hrun rfl
        exact ⟨m, x, ending, _, _, hm, hframes, hordered, hrun, hwrites, rfl, hfailure,
          hclosed.undone hfailure⟩
      · cases hevaluated
    · cases hevaluated
  · cases hevaluated

end Engine

end Evm
