import Evm.Proofs.Engine.Balance
import Evm.Proofs.Engine.Invariant
import Evm.Proofs.Engine.Recursion
import Evm.Proofs.Frame.Destruction
import Evm.State.Database

/-! # The sum of balances over a whole run

    No tick adds to the sum of balances, and no checkpoint has a larger one to
    go back to (`Solvent`). So the sum never rises, and as long as 256 bits
    hold it no credit overflows.

    That the sum does not fall either is told along the tree of frames: a run
    of a frame keeps it unless the frame destroys its account in favour of
    itself, and a frame that fails goes back to a checkpoint with the same sum
    (`evaluates_total`).
-/

namespace Evm

open Journal

variable {β : Type} [Backend β]

/-! ## Ticks -/

namespace Exec

variable {ok : HostUse → Prop} {x x' y : Exec (Engine β)}

section Ticked

variable {out : Option Action × Exec (Engine β)}

/-- A tick adds nothing to the sum of balances. -/
theorem Ticked.total_le (h : Ticked ok x out) :
    out.2.host.journal.total ≤ x.host.journal.total := by
  have hkeeps : ∀ (use : HostUse) (e : Engine β), ok use →
      e.journal.total ≤ x.host.journal.total →
      (endState (use.perform e)).journal.total ≤ x.host.journal.total :=
    fun use e _ he => ((Engine.NoGain.perform use).total e).trans he
  exact h.keeps_host hkeeps (Nat.le_refl _)

/-- A tick can be undone. -/
theorem Ticked.reverts (h : Ticked ok x out) : RevertsTo x.host.journal out.2.host.journal := by
  have hkeeps : ∀ (use : HostUse) (e : Engine β), ok use →
      RevertsTo x.host.journal e.journal →
      RevertsTo x.host.journal (endState (use.perform e)).journal :=
    fun use e _ he => he.trans (Engine.use_reverts use e)
  exact h.keeps_host hkeeps (.refl _)

end Ticked

/-- A frame does not halt for an overflow while 256 bits hold the sum. -/
theorem Ticked.noOverflow {ending : Ending} {cause : StateError}
    (h : Ticked ok x (some (.finished ending), x')) (hfits : x.host.journal.total < 2 ^ 256)
    (hexit : ending.exit = .halt (.state cause)) : NoOverflow x.host.journal.backend cause := by
  obtain ⟨y, use, hsteps, _, hfails⟩ := h.halt_cause hexit
  -- on the way to the failure nothing was gained
  have hway : Ticked ok x (none, y) := .done (s := .next) hsteps (.inl trivial)
  have hless : y.host.journal.total ≤ x.host.journal.total := hway.total_le
  have hnone := (Engine.NoGain.perform use).failure hfails (by omega) cause rfl
  rwa [hway.reverts.backend] at hnone

/-- **A tick keeps the sum of balances**, unless it destroys the account of the
    frame in favour of itself or ends the frame with a failure. -/
theorem tick_total {action : Option Action} (hnames : ¬x.frame.NamesItself)
    (h : tick x = (action, x'))
    (hends : ∀ ending, action = some (.finished ending) → ending.exit.isSuccess = true) :
    x'.host.journal.total = x.host.journal.total := by
  by_cases hop : x.frame.opcode? = some .selfDestruct
  · unfold tick at h
    cases hstep : step x with
    | error e y =>
      rw [hstep] at h
      cases h
      cases hends _ rfl
    | ok s y =>
      obtain ⟨target, outcome, hother, hdestroyed⟩ := step_destroys hop hnames hstep
      have hlast := settle_ok s y
      rw [hstep] at h
      rw [h] at hlast
      have hkept : y.host.journal.total = x.host.journal.total :=
        Engine.destroy_ok hdestroyed hother
      rwa [← hlast] at hkept
  · have hticked : Ticked (fun use => ¬use.IsDestruct) x (tick x) := by
      refine tick_ticked fun use op hat hsuits hdestruct => ?_
      cases use with
      | selfDestruct address target => exact hop (by rw [hat, hsuits])
      | _ => exact hdestruct
    rw [h] at hticked
    have hkeeps : ∀ (use : HostUse) (e : Engine β), ¬use.IsDestruct →
        e.journal.total = x.host.journal.total →
        (endState (use.perform e)).journal.total = x.host.journal.total :=
      fun use e huse he => (Engine.use_neutral huse e).trans he
    exact hticked.keeps_host hkeeps rfl

/-- Taking an outcome leaves the host alone. -/
theorem take_host (result : FrameResult) (x : Exec (Engine β)) :
    (take result x).2.host = x.host := by
  rcases take_ticked result x with hsame | hticked
  · rw [hsame]
  · exact hticked.keeps_host (P := fun e => e = x.host) (fun _ _ huse => huse.elim) rfl

/-- A frame that never destroys its account in favour of itself keeps the sum
    as long as it goes on. -/
theorem runsOn_total (hclean : ∀ y, RunsOn x y → ¬y.frame.NamesItself) (h : RunsOn x y) :
    y.host.journal.total = x.host.journal.total := by
  induction h with
  | refl => rfl
  | @tail y z hruns hstep ih =>
    exact (tick_total (hclean y hruns) (tick_next.mpr hstep) nofun).trans ih

end Exec

/-! ## Runs of a frame -/

namespace Activation

variable {act : Activation} {answer : Option FrameResult} {e : Engine β}

/-- **A run of a frame keeps the sum of balances**, unless the frame destroys
    its account in favour of itself or fails. -/
theorem runOn_total {action : Action} {x : Exec (Engine β)}
    (hclean : ∀ y, act.Reaches answer e y → ¬y.frame.NamesItself)
    (h : act.runOn answer e = (action, x))
    (hends : ∀ ending, action = .finished ending → ending.exit.isSuccess = true) :
    x.host.journal.total = e.journal.total := by
  -- from where the frame runs on without an answer
  have hrun : ∀ start : Exec (Engine β), start.host = e →
      (∀ y, Exec.RunsOn start y → ¬y.frame.NamesItself) → start.run = (action, x) →
      x.host.journal.total = e.journal.total := by
    intro start hstart hclean hrun
    obtain ⟨y, hruns, htick⟩ := Exec.run_stops start
    rw [hrun] at htick
    rw [← hstart, ← Exec.runsOn_total hclean hruns]
    refine Exec.tick_total (hclean y hruns) htick ?_
    rintro ending ⟨⟩
    exact hends ending rfl
  cases answer with
  | none => exact hrun ⟨act.frame, e⟩ rfl hclean h
  | some result =>
    have hhost := Exec.take_host result ⟨act.frame, e⟩
    have htaken : Exec.resume result ⟨act.frame, e⟩ = (action, x) := h
    rw [Exec.resume_take] at htaken
    rcases htake : Exec.take result ⟨act.frame, e⟩ with ⟨_ | stop, z⟩
    · rw [htake] at hhost htaken
      exact hrun z hhost (fun y hruns => hclean y ⟨z, htake, hruns⟩) htaken
    · rw [htake] at hhost htaken
      cases htaken
      rw [hhost]

theorem runOn_total_of_request {request : Request} {x : Exec (Engine β)}
    (hclean : ∀ y, act.Reaches answer e y → ¬y.frame.NamesItself)
    (h : act.runOn answer e = (request.action, x)) :
    x.host.journal.total = e.journal.total := by
  refine runOn_total hclean h ?_
  intro ending hending
  cases request <;> cases hending

/-- Whatever a frame does until it stops can be undone. -/
theorem runOn_reverts {action : Action} {x : Exec (Engine β)}
    (h : act.runOn answer e = (action, x)) : RevertsTo e.journal x.host.journal :=
  (Machine.runCurrent_ran ⟨e, act, [], answer⟩ h).edited.1.revertsTo

end Activation

/-! ## Requests -/

theorem Request.start_balanced (request : Request) (e : Engine β) :
    Engine.Balanced e (request.start e) := by
  cases request with
  | call message => exact Engine.startCall_balanced message e
  | create message => exact Engine.startCreate_balanced message e

/-! ## The tree of frames -/

section Tree

variable {e : Engine β} {act : Activation} {answer : Option FrameResult}
  {out : FrameResult × Engine β} {base : Journal β}

/-- **A frame can be undone**, and is if it fails. -/
theorem evaluates_reverts (h : Evaluates e act answer out)
    (hkind : act.kind.checkpoint = base.checkpoint) (hbase : RevertsTo base e.journal) :
    RevertsTo base out.2.journal ∧
      (out.1.isSuccess = false → Restored base out.2.journal) := by
  induction h generalizing base with
  | @ended e act answer ending x hrun =>
    have hran := hbase.trans (Activation.runOn_reverts hrun)
    rcases hend : Engine.endFrame act.kind ending x.host with ⟨result, e'⟩
    cases hsuccess : result.isSuccess with
    | true => exact ⟨hran.trans (Engine.endFrame_success hend hsuccess).2.1, nofun⟩
    | false =>
      have hrestored := Engine.endFrame_failure hend hsuccess hkind hran
      exact ⟨hrestored.revertsTo, fun _ => hrestored⟩
  | @settled e e' act answer request x result out hrun hstart _ ih =>
    have hopened := (Request.start_balanced request x.host).reverts
    rw [hstart] at hopened
    exact ih hkind ((hbase.trans (Activation.runOn_reverts hrun)).trans hopened)
  | @entered e e' e'' act child answer request x result out hrun hstart _ _ ihchild ihrest =>
    -- the frame within can be undone down to its own checkpoint
    obtain ⟨inner, hbefore, _, hchild, hafter⟩ :=
      (Request.start_balanced request x.host).frame child (by rw [hstart])
    rw [hstart] at hafter
    have hinner := (ihchild hchild hafter).1
    exact ihrest hkind ((hbase.trans (Activation.runOn_reverts hrun)).trans
      (hbefore.trans hinner))

/-- It is enough to look at frames that succeed. -/
theorem evaluates_total_of_success (h : Evaluates e act answer out)
    (hkind : act.kind.checkpoint = base.checkpoint) (hbase : RevertsTo base e.journal)
    (htotal : base.total = e.journal.total)
    (hsame : out.1.isSuccess = true → out.2.journal.total = e.journal.total) :
    out.2.journal.total = e.journal.total := by
  cases hsuccess : out.1.isSuccess with
  | true => exact hsame hsuccess
  | false => exact ((evaluates_reverts h hkind hbase).2 hsuccess).total_eq.trans htotal

/-- **A frame keeps the sum of balances**, unless somewhere in it an account is
    destroyed in favour of itself, and that is committed. -/
theorem evaluates_total (h : Evaluates e act answer out)
    (hclean : ¬Commits (fun y => y.frame.NamesItself) e act answer)
    (hkind : act.kind.checkpoint = base.checkpoint) (hbase : RevertsTo base e.journal)
    (htotal : base.total = e.journal.total) :
    out.2.journal.total = e.journal.total := by
  induction h generalizing base with
  | @ended e act answer ending x hrun =>
    refine evaluates_total_of_success (.ended hrun) hkind hbase htotal fun hsuccess => ?_
    have hown : ∀ y, act.Reaches answer e y → ¬y.frame.NamesItself :=
      fun y hreach hnames => hclean (.here hreach hnames (.ended hrun) hsuccess)
    rcases hend : Engine.endFrame act.kind ending x.host with ⟨result, e'⟩
    rw [hend] at hsuccess
    obtain ⟨hexit, _, hsame⟩ := Engine.endFrame_success hend hsuccess
    refine hsame.trans (Activation.runOn_total hown hrun ?_)
    rintro _ ⟨⟩
    exact hexit
  | @settled e e' act answer request x result out hrun hstart hrest ih =>
    have hwhole : Evaluates e act answer out := .settled hrun hstart hrest
    refine evaluates_total_of_success hwhole hkind hbase htotal fun hsuccess => ?_
    have hran := Activation.runOn_total_of_request
      (fun y hreach hnames => hclean (.here hreach hnames hwhole hsuccess)) hrun
    have hopened := Request.start_balanced request x.host
    rw [hstart] at hopened
    have hrest := ih (fun hcommits => hclean (.settled hrun hstart hcommits)) hkind
      ((hbase.trans (Activation.runOn_reverts hrun)).trans hopened.reverts)
      ((htotal.trans hran.symm).trans hopened.total.symm)
    exact hrest.trans (hopened.total.trans hran)
  | @entered e e' e'' act child answer request x result out hrun hstart hchild hrest ihchild
      ihrest =>
    have hwhole : Evaluates e act answer out := .entered hrun hstart hchild hrest
    refine evaluates_total_of_success hwhole hkind hbase htotal fun hsuccess => ?_
    have hran := Activation.runOn_total_of_request
      (fun y hreach hnames => hclean (.here hreach hnames hwhole hsuccess)) hrun
    have hopened := Request.start_balanced request x.host
    obtain ⟨inner, hbefore, hinner, hchildkind, hafter⟩ := hopened.frame child (by rw [hstart])
    rw [hstart] at hopened hafter
    -- the frame within starts from a checkpoint with the same sum
    have hvalue := ihchild
      (fun hcommits => hclean (.inner hrun hstart hcommits hwhole hsuccess)) hchildkind hafter
      (hinner.trans hopened.total.symm)
    have hreverts := (evaluates_reverts hchild hchildkind hafter).1
    have hsame : e''.journal.total = e.journal.total :=
      hvalue.trans (hopened.total.trans hran)
    have hrest := ihrest (fun hcommits => hclean (.entered hrun hstart hchild hcommits)) hkind
      ((hbase.trans (Activation.runOn_reverts hrun)).trans (hbefore.trans hreverts))
      (htotal.trans hsame.symm)
    exact hrest.trans hsame

end Tree

/-! ## The invariant of a run -/

namespace Machine

/-- No overflow of a balance is met at a machine: neither does it end the
    current frame, nor is it what the frame is told. -/
structure NoOverflow (m : Machine β) (b : β) : Prop where
  ending : ∀ ending x, m.stepCurrent = (some (.finished ending), x) → ending.exit.NoOverflow b
  answer : ∀ result, m.answer = some result → result.exit.NoOverflow b

/-- The invariant of balances: the sum is bounded, also at every checkpoint that
    can be gone back to. If 256 bits hold the bound, no overflow is told of. -/
structure Solvent (bound : Nat) (b : Journal β) (m : Machine β) : Prop where
  total : m.engine.journal.total ≤ bound
  nested : Nested (fun j => j.total ≤ bound) b (m.current.kind :: m.parents.map Activation.kind)
    m.engine.journal
  answer : bound < 2 ^ 256 → ∀ result, m.answer = some result → result.exit.NoOverflow b.backend

variable {m m' : Machine β} {bound : Nat} {b : Journal β} {x : Exec (Engine β)}

theorem stepCurrent_total {action : Option Action} (h : m.stepCurrent = (action, x)) :
    x.host.journal.total ≤ m.engine.journal.total := by
  rcases stepCurrent_ticked m with hsame | ⟨ok, y, hy, _, hticked⟩
  · rw [h] at hsame
    cases hsame
    exact Nat.le_refl _
  · rw [h] at hticked
    rw [← hy]
    exact hticked.total_le

theorem stepCurrent_reverts {action : Option Action} (h : m.stepCurrent = (action, x)) :
    RevertsTo m.engine.journal x.host.journal := by
  rcases stepCurrent_ticked m with hsame | ⟨ok, y, hy, _, hticked⟩
  · rw [h] at hsame
    cases hsame
    exact .refl _
  · rw [h] at hticked
    rw [← hy]
    exact hticked.reverts

/-- Whatever a frame does, it does to the state. -/
theorem stepCurrent_setup {action : Option Action} (h : m.stepCurrent = (action, x)) :
    Engine.SameSetup m.engine x.host := by
  have hkeeps : ∀ (use : HostUse) (e : Engine β), Engine.SameSetup m.engine e →
      Engine.SameSetup m.engine (endState (use.perform e)) := by
    intro use e he
    obtain ⟨_, _, hedited⟩ := Engine.use_authorized use e
    exact he.trans hedited.setup
  rcases stepCurrent_ticked m with hsame | ⟨ok, y, hy, _, hticked⟩
  · rw [h] at hsame
    cases hsame
    exact ⟨rfl, rfl, rfl⟩
  · rw [h] at hticked
    refine hticked.keeps_host (fun use e _ he => hkeeps use e he) ?_
    rw [hy]
    exact ⟨rfl, rfl, rfl⟩

theorem stepCurrent_noOverflow {ending : Ending}
    (h : m.stepCurrent = (some (.finished ending), x))
    (hfits : m.engine.journal.total < 2 ^ 256) :
    ending.exit.NoOverflow m.engine.journal.backend := by
  intro cause hexit
  rcases stepCurrent_ticked m with hsame | ⟨ok, y, hy, _, hticked⟩
  · rw [h] at hsame
    cases hsame
  · rw [h] at hticked
    rw [← hy] at hfits ⊢
    exact hticked.noOverflow hfits hexit

namespace Solvent

/-- At a machine with the invariant no overflow is met. -/
theorem noOverflow (hm : Solvent bound b m) (hfits : bound < 2 ^ 256) :
    m.NoOverflow b.backend := by
  have htotal := hm.total
  refine ⟨fun ending x hstep => ?_, hm.answer hfits⟩
  rw [← hm.nested.revertsTo.backend]
  exact stepCurrent_noOverflow hstep (by omega)

/-- Closing the current frame. -/
theorem closed (hm : Solvent bound b m) (hb : b.total ≤ bound) {ending : Ending}
    {result : FrameResult} {engine : Engine β}
    (hstep : m.stepCurrent = (some (.finished ending), x))
    (hend : Engine.endFrame m.current.kind ending x.host = (result, engine)) :
    engine.journal.total ≤ bound ∧
      (m.parents.map Activation.kind ≠ [] →
        Nested (fun j => j.total ≤ bound) b (m.parents.map Activation.kind) engine.journal) ∧
      (bound < 2 ^ 256 → result.exit.NoOverflow b.backend) := by
  have hless := stepCurrent_total hstep
  have htotal := hm.total
  have hnested := hm.nested.trans (stepCurrent_reverts hstep)
  have hbackend := hnested.revertsTo.backend
  -- a success adds nothing, and a failure goes back to the checkpoint
  have hclose : ∀ base : Journal β, base.total ≤ bound →
      m.current.kind.checkpoint = base.checkpoint → RevertsTo base x.host.journal →
      engine.journal.total ≤ bound ∧ RevertsTo base engine.journal := by
    intro base hbase hkind hreverts
    cases hsuccess : result.isSuccess with
    | true =>
      obtain ⟨_, hafter, hsame⟩ := Engine.endFrame_success hend hsuccess
      exact ⟨by omega, hreverts.trans hafter⟩
    | false =>
      have hrestored := Engine.endFrame_failure hend hsuccess hkind hreverts
      rw [hrestored.total_eq]
      exact ⟨hbase, hrestored.revertsTo⟩
  have hclosed := hnested.close hb hclose
  refine ⟨hclosed.1, hclosed.2, fun hfits cause hcause => ?_⟩
  rcases Engine.endFrame_exit hend with hsame | ⟨err, hhalt, hnone⟩
  · rw [hsame] at hcause
    exact (hm.noOverflow hfits).ending ending x hstep cause hcause
  · rw [hhalt] at hcause
    rw [← hbackend]
    exact hnone cause (ExitReason.halt.inj hcause)

/-- **A tick keeps the invariant.** -/
theorem tick (hm : Solvent bound b m) (hb : b.total ≤ bound) (h : m.tick = .running m') :
    Solvent bound b m' := by
  have htotal := hm.total
  have hmoved := tick_moved m
  rw [h] at hmoved
  cases hmoved with
  | @wentOn x hstep =>
    have hless := stepCurrent_total hstep
    refine ⟨?_, hm.nested.trans (stepCurrent_reverts hstep), ?_⟩
    · simp only [goOn]
      omega
    · intro _ result hresult
      cases hresult
  | @requested request x start engine hstep hstart =>
    have hless := stepCurrent_total hstep
    have hnested := hm.nested.trans (stepCurrent_reverts hstep)
    have hopened := Request.start_balanced request x.host
    rw [hstart] at hopened
    have hsame : engine.journal.total = x.host.journal.total := hopened.total
    cases start with
    | done result =>
      refine ⟨?_, hnested.trans hopened.reverts, ?_⟩
      · simp only [afterStart]
        omega
      · rintro hfits _ ⟨⟩
        rw [← hnested.revertsTo.backend]
        exact hopened.answer result rfl (by omega)
    | run child =>
      obtain ⟨base, hbefore, hbase, hkind, hafter⟩ := hopened.frame child rfl
      refine ⟨?_, .inner hnested hbefore ?_ hkind hafter, ?_⟩
      · simp only [afterStart]
        omega
      · exact hbase.le.trans (hless.trans htotal)
      · intro _ result hresult
        cases hresult
  | @returned ending x result engine parent parents hstep hparents hend =>
    obtain ⟨hbound, hnested, hanswer⟩ := hm.closed hb hstep hend
    rw [hparents] at hnested
    refine ⟨hbound, hnested (List.cons_ne_nil _ _), ?_⟩
    rintro hfits _ ⟨⟩
    exact hanswer hfits

theorem ticks (hm : Solvent bound b m) (hb : b.total ≤ bound) (h : Ticks m m') :
    Solvent bound b m' := by
  induction h with
  | refl => exact hm
  | tail _ hstep ih => exact ih.tick hb hstep

/-- The last tick. -/
theorem finish (hm : Solvent bound b m) (hb : b.total ≤ bound) {result : FrameResult}
    {engine : Engine β} (h : m.tick = .finished result engine) :
    engine.journal.total ≤ bound ∧ (bound < 2 ^ 256 → result.exit.NoOverflow b.backend) := by
  have hmoved := tick_moved m
  rw [h] at hmoved
  cases hmoved with
  | finished hstep _ hend =>
    obtain ⟨hbound, _, hanswer⟩ := hm.closed hb hstep hend
    exact ⟨hbound, hanswer⟩

end Solvent

end Machine

/-! ## Whole runs -/

namespace Request

/-- Somewhere in the run of a request a frame that is not undone destroys its
    account in favour of itself. -/
def Burns (request : Request) (e : Engine β) : Prop :=
  ∃ act e', request.start e = (.run act, e') ∧ Commits (fun y => y.frame.NamesItself) e' act none

end Request

namespace Engine

/-- **Value is conserved.** A call or creation, successful or not, never makes
    the sum of all balances larger, and makes it smaller only if a frame that
    is not undone destroys its account in favour of itself. If 256 bits hold
    the sum at the start, no credit of the run overflows: a credit that fails
    would end its frame, or be what the frame is told that asked for it. -/
theorem balances_conserved (request : Request) (e : Engine β) :
    (request.perform e).2.journal.total ≤ e.journal.total ∧
      ((request.perform e).2.journal.total = e.journal.total ∨ request.Burns e) ∧
      (e.journal.total < 2 ^ 256 →
        (∀ m, request.Ticks e m → m.NoOverflow e.journal.backend) ∧
          (request.perform e).1.exit.NoOverflow e.journal.backend) := by
  have hopened := request.start_balanced e
  unfold Request.Ticks Request.Burns
  rw [request.perform_eq]
  rcases hstart : request.start e with ⟨result | act, e'⟩
  · rw [hstart] at hopened
    refine ⟨hopened.total.le, .inl hopened.total, fun hfits => ⟨?_, hopened.answer _ rfl hfits⟩⟩
    rintro m ⟨act, e'', ⟨⟩, _⟩
  · rw [hstart] at hopened
    obtain ⟨base, hbefore, hbase, hkind, hafter⟩ := hopened.frame act rfl
    have hsolvent : Machine.Solvent e.journal.total base ⟨e', act, [], none⟩ :=
      ⟨hopened.total.le, .first hkind hafter, fun _ => nofun⟩
    obtain ⟨last, hticks, hlast⟩ := Machine.drive_ticks e' act
    obtain ⟨hless, hresult⟩ := (hsolvent.ticks hbase.le hticks).finish hbase.le hlast
    rw [hbefore.backend] at hresult
    refine ⟨hless, ?_, fun hfits => ⟨?_, hresult hfits⟩⟩
    · by_cases hburns : Commits (fun y => y.frame.NamesItself) e' act none
      · exact .inr ⟨act, e', rfl, hburns⟩
      · have hsame := evaluates_total (Machine.evaluates_drive e' act) hburns hkind hafter
          (hbase.trans hopened.total.symm)
        exact .inl (hsame.trans hopened.total)
    · rintro m ⟨_, _, ⟨⟩, hticks⟩
      rw [← hbefore.backend]
      exact (hsolvent.ticks hbase.le hticks).noOverflow hfits

/-- A contract that sends one of its five coins to another account and then
    calls itself with a value. -/
theorem balances_conserved_sending :
    let code : Bytes := ⟨#[0x60, 0, 0x60, 0, 0x60, 0, 0x60, 0, 0x60, 1, 0x60, 55, 0x5a, 0xf1,
      0x60, 0, 0x60, 0, 0x60, 0, 0x60, 0, 0x60, 1, 0x30, 0x5a, 0xf1]⟩
    let store : Database :=
      { Database.empty with
        accounts := Std.ExtTreeMap.empty.insert (.ofNat 77) ⟨1, 5, ⟨1⟩⟩
        code := Std.ExtTreeMap.empty.insert ⟨1⟩ code }
    let engine := new store .default (.ofHardfork .cancun)
    let request : Request := .call
      ⟨.call, .ofNat 3, .ofNat 77, .ofNat 77, .transfer 0, ByteArray.empty, 200000, false, 0⟩
    engine.journal.total < 2 ^ 256 ∧
      (request.perform engine).2.journal.total ≤ engine.journal.total ∧
      (∃ m, request.Ticks engine m ∧ m.NoOverflow engine.journal.backend) ∧
      (request.perform engine).1.exit.NoOverflow engine.journal.backend := by
  intro code store engine request
  have hfits : engine.journal.total < 2 ^ 256 := by
    have hothers : ∀ a, a ∉ ({.ofNat 77} : Finset Address) → engine.journal.balanceAt a = 0 := by
      intro a ha
      have hne : Address.ofNat 77 ≠ a := fun heq => ha (Finset.mem_singleton.mpr heq.symm)
      have hmissing : engine.journal.presentAccount a = .ok none := by
        show Except.ok ((Std.ExtTreeMap.empty.insert (.ofNat 77) ⟨1, 5, ⟨1⟩⟩ :
          Std.ExtTreeMap Address Account)[a]?) = _
        rw [getElem?_insert_of_ne _ hne]
        rfl
      rw [balanceAt_of_ok hmissing]
      rfl
    have hbalance : engine.journal.balanceAt (.ofNat 77) = 5 := by decide +kernel
    rw [total_eq_sum _ hothers, Finset.sum_singleton, hbalance]
    decide
  obtain ⟨hless, _, hnone⟩ := balances_conserved request engine
  obtain ⟨hticks, hresult⟩ := hnone hfits
  have hruns : (match request.start engine with
      | (.run _, _) => true
      | (.done _, _) => false) = true := by decide +kernel
  rcases hstart : request.start engine with ⟨result | act, e'⟩
  · rw [hstart] at hruns
    cases hruns
  · have hfirst : request.Ticks engine ⟨e', act, [], none⟩ := ⟨act, e', hstart, .refl⟩
    exact ⟨hfits, hless, ⟨_, hfirst, hticks _ hfirst⟩, hresult⟩

end Engine

end Evm
