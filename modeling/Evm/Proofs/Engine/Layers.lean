import Evm.Proofs.Engine.Conservation
import Evm.Proofs.Engine.Order

/-! # What every tick keeps

    A property of the state is kept by whole runs if frames keep it whatever
    they do with their host, if opening and closing frames keeps it, and if it
    comes back with a state that it held of (`Engine.Maintained`). It then
    holds at every tick, and of every state that the frames under way would go
    back to (`Machine.Layered`).

    Along with the state a property of frames is carried, by which closing a
    frame may know what was known when it was opened.
-/

namespace Evm

open Journal

variable {β : Type} [Backend β]

namespace Engine

/-- Opening a frame keeps `P`. It also holds of the state at the checkpoint of
    the new frame, and `Q` of the frame. -/
inductive Opens (P : Journal β → Prop) (Q : FrameKind → Prop) (e : Engine β) :
    FrameStart × Engine β → Prop where
  | done {result : FrameResult} {e' : Engine β} :
    P e'.journal → Opens P Q e (.done result, e')
  | run {child : Activation} {base : Journal β} {e' : Engine β} :
    RevertsTo e.journal base → P base → child.kind.checkpoint = base.checkpoint →
    RevertsTo base e'.journal → P e'.journal → Q child.kind → Opens P Q e (.run child, e')

/-- All that an engine with a given configuration does keeps `P`, given `Q` of
    the frames that it closes. -/
structure Maintained (config : Config) (P : Journal β → Prop) (Q : FrameKind → Prop) :
    Prop where
  use : ∀ (use : HostUse) (e : Engine β), e.config = config → P e.journal →
    P (endState (use.perform e)).journal
  opens : ∀ (request : Request) (e : Engine β), e.config = config → P e.journal →
    Opens P Q e (request.start e)
  closes : ∀ (kind : FrameKind) (edit : Edit) (j j' : Journal β), Q kind → kind.Closes edit →
    edit.Applies j j' → P j → P j'
  restored : ∀ b j : Journal β, P b → Restored b j → P j

end Engine

namespace Machine

/-- The property holds of the state and of every state at a checkpoint. -/
structure Layered (config : Config) (P : Journal β → Prop) (Q : FrameKind → Prop)
    (b : Journal β) (m : Machine β) : Prop where
  config : m.engine.config = config
  holds : P m.engine.journal
  nested : Nested P b (m.current.kind :: m.parents.map Activation.kind) m.engine.journal
  kinds : ∀ kind ∈ m.current.kind :: m.parents.map Activation.kind, Q kind

namespace Layered

variable {config : Config} {P : Journal β → Prop} {Q : FrameKind → Prop} {b : Journal β}
  {m m' : Machine β} {x : Exec (Engine β)}

/-- What the current frame does in a tick. -/
theorem stepped (hP : Engine.Maintained config P Q) (hm : Layered config P Q b m)
    {action : Option Action} (h : m.stepCurrent = (action, x)) :
    x.host.config = config ∧ P x.host.journal := by
  have hkeeps : ∀ (use : HostUse) (e : Engine β), e.config = config ∧ P e.journal →
      (endState (use.perform e)).config = config ∧ P (endState (use.perform e)).journal := by
    intro use e he
    obtain ⟨_, _, hedited⟩ := Engine.use_authorized use e
    exact ⟨hedited.setup.config.trans he.1, hP.use use e he.1 he.2⟩
  rcases stepCurrent_ticked m with hsame | ⟨ok, y, hy, _, hticked⟩
  · rw [h] at hsame
    cases hsame
    exact ⟨hm.config, hm.holds⟩
  · rw [h] at hticked
    refine hticked.keeps_host (P := fun e => e.config = config ∧ P e.journal)
      (fun use e _ he => hkeeps use e he) ?_
    rw [hy]
    exact ⟨hm.config, hm.holds⟩

/-- Closing the current frame. -/
theorem closed (hP : Engine.Maintained config P Q) (hb : P b) (hm : Layered config P Q b m)
    {ending : Ending} {result : FrameResult} {engine : Engine β}
    (hstep : m.stepCurrent = (some (.finished ending), x))
    (hend : Engine.endFrame m.current.kind ending x.host = (result, engine)) :
    engine.config = config ∧ P engine.journal ∧
      (m.parents.map Activation.kind ≠ [] →
        Nested P b (m.parents.map Activation.kind) engine.journal) := by
  obtain ⟨hconfig, hholds⟩ := hm.stepped hP hstep
  have hnested := hm.nested.trans (stepCurrent_reverts hstep)
  have hclosing := Engine.endFrame_spec m.current.kind ending x.host
  rw [hend] at hclosing
  refine ⟨hclosing.setup.config.trans hconfig, hnested.close hb ?_⟩
  intro base hbase hkind hreverts
  cases hsuccess : result.isSuccess with
  | true =>
    refine ⟨?_, hreverts.trans (Engine.endFrame_success hend hsuccess).2.1⟩
    cases hclosing with
    | kept _ _ hchanges =>
      have hown := hm.kinds _ List.mem_cons_self
      exact hchanges.invariant (fun edit j j' => hP.closes _ edit j j' hown) hholds
    | undone hfailure _ _ =>
      rw [hsuccess] at hfailure
      cases hfailure
  | false =>
    have hrestored := Engine.endFrame_failure hend hsuccess hkind hreverts
    exact ⟨hP.restored _ _ hbase hrestored, hrestored.revertsTo⟩

/-- **A tick keeps the property.** -/
theorem tick (hP : Engine.Maintained config P Q) (hb : P b) (hm : Layered config P Q b m)
    (h : m.tick = .running m') : Layered config P Q b m' := by
  have hmoved := tick_moved m
  rw [h] at hmoved
  cases hmoved with
  | @wentOn x hstep =>
    obtain ⟨hconfig, hholds⟩ := hm.stepped hP hstep
    exact ⟨hconfig, hholds, hm.nested.trans (stepCurrent_reverts hstep), hm.kinds⟩
  | @requested request x start engine hstep hstart =>
    obtain ⟨hconfig, hholds⟩ := hm.stepped hP hstep
    have hnested := hm.nested.trans (stepCurrent_reverts hstep)
    have hopened := hP.opens request x.host hconfig hholds
    have hreverts := (Request.start_balanced request x.host).reverts
    have hsetup := Request.start_setup request x.host
    rw [hstart] at hopened hreverts hsetup
    cases hopened with
    | done hafter =>
      exact ⟨hsetup.config.trans hconfig, hafter, hnested.trans hreverts, hm.kinds⟩
    | run hbefore hbase hkind hinner hafter hchild =>
      refine ⟨hsetup.config.trans hconfig, hafter, .inner hnested hbefore hbase hkind hinner, ?_⟩
      intro kind hmem
      rcases List.mem_cons.mp hmem with rfl | hwaits
      · exact hchild
      · exact hm.kinds kind hwaits
  | @returned ending x result engine parent parents hstep hparents hend =>
    obtain ⟨hconfig, hholds, hnested⟩ := hm.closed hP hb hstep hend
    have hkinds := hm.kinds
    rw [hparents] at hnested hkinds
    exact ⟨hconfig, hholds, hnested (List.cons_ne_nil _ _),
      fun kind hmem => hkinds kind (List.mem_cons_of_mem _ hmem)⟩

theorem ticks (hP : Engine.Maintained config P Q) (hb : P b) (hm : Layered config P Q b m)
    (h : Ticks m m') : Layered config P Q b m' := by
  induction h with
  | refl => exact hm
  | tail _ hstep ih => exact ih.tick hP hb hstep

/-- The last tick. -/
theorem finish (hP : Engine.Maintained config P Q) (hb : P b) (hm : Layered config P Q b m)
    {result : FrameResult} {engine : Engine β} (h : m.tick = .finished result engine) :
    P engine.journal := by
  have hmoved := tick_moved m
  rw [h] at hmoved
  cases hmoved with
  | finished hstep _ hend => exact (hm.closed hP hb hstep hend).2.1

end Layered

end Machine

/-! ## Whole requests -/

namespace Engine.Maintained

variable {config : Config} {P : Journal β → Prop} {Q : FrameKind → Prop} {e : Engine β}
  {request : Request}

/-- The first frame of a request. -/
theorem first (hP : Maintained config P Q) (hconfig : e.config = config) (he : P e.journal)
    {act : Activation} {e' : Engine β} (hstart : request.start e = (.run act, e')) :
    ∃ base, P base ∧ Machine.Layered config P Q base ⟨e', act, [], none⟩ := by
  have hopened := hP.opens request e hconfig he
  have hsetup := Request.start_setup request e
  rw [hstart] at hopened hsetup
  cases hopened with
  | @run _ base _ _ hbase hkind hinner hafter hchild =>
    refine ⟨base, hbase, hsetup.config.trans hconfig, hafter, .first hkind hinner, ?_⟩
    intro kind hmem
    rwa [List.mem_singleton.mp hmem]

/-- **The property holds at every tick of a request.** -/
theorem ticks (hP : Maintained config P Q) (hconfig : e.config = config) (he : P e.journal)
    {m : Machine β} (h : request.Ticks e m) : P m.engine.journal := by
  obtain ⟨act, e', hstart, hticks⟩ := h
  obtain ⟨base, hbase, hfirst⟩ := hP.first hconfig he hstart
  exact (hfirst.ticks hP hbase hticks).holds

/-- **The property holds when a request has been carried out.** -/
theorem perform (hP : Maintained config P Q) (hconfig : e.config = config) (he : P e.journal) :
    P (request.perform e).2.journal := by
  rw [request.perform_eq]
  rcases hstart : request.start e with ⟨result | act, e'⟩
  · have hopened := hP.opens request e hconfig he
    rw [hstart] at hopened
    cases hopened with
    | done hafter => exact hafter
  · obtain ⟨base, hbase, hfirst⟩ := hP.first hconfig he hstart
    obtain ⟨last, hticks, hlast⟩ := Machine.drive_ticks e' act
    exact (hfirst.ticks hP hbase hticks).finish hP hbase hlast

end Engine.Maintained

end Evm
