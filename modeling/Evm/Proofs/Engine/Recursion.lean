import Evm.Proofs.Engine.Tick

/-! # The driver as a recursion

    A frame is evaluated by running it; for every frame that it asks for, that
    frame is evaluated, and the outcome is told to the frame that waits. This
    is the natural recursion over the tree of frames (`Evaluates`). The driver
    keeps the same tree on a list and hands outcomes down the list one turn
    later; it computes the same (`drive_iff_evaluates`).

    What a frame does is kept in the end if neither it nor a frame that waits
    for it fails; `Commits` says that of the states along an evaluation.
-/

namespace Evm

open Journal

variable {β : Type} [Backend β]

/-- Run a frame until it stops, once it has taken an answer if there is one. -/
def Activation.runOn (act : Activation) (answer : Option FrameResult) (e : Engine β) :
    Action × Exec (Engine β) :=
  match answer with
  | some result => Exec.resume result ⟨act.frame, e⟩
  | none => Exec.run ⟨act.frame, e⟩

/-- The value of a frame: what it tells the frame above it, and the engine that
    it leaves. -/
inductive Evaluates :
    Engine β → Activation → Option FrameResult → FrameResult × Engine β → Prop where
  /-- The frame runs to its end and is closed. -/
  | ended {e : Engine β} {act : Activation} {answer : Option FrameResult} {ending : Ending}
      {x : Exec (Engine β)} :
    act.runOn answer e = (.finished ending, x) →
    Evaluates e act answer (Engine.endFrame act.kind ending x.host)
  /-- The frame runs to a request that is settled at once, and goes on with the
      result. -/
  | settled {e e' : Engine β} {act : Activation} {answer : Option FrameResult}
      {request : Request} {x : Exec (Engine β)} {result : FrameResult}
      {out : FrameResult × Engine β} :
    act.runOn answer e = (request.action, x) →
    request.start x.host = (.done result, e') →
    Evaluates e' ⟨x.frame, act.kind⟩ (some result) out →
    Evaluates e act answer out
  /-- The frame runs to a request that opens a frame, and goes on with the
      value of that frame. -/
  | entered {e e' e'' : Engine β} {act child : Activation} {answer : Option FrameResult}
      {request : Request} {x : Exec (Engine β)} {result : FrameResult}
      {out : FrameResult × Engine β} :
    act.runOn answer e = (request.action, x) →
    request.start x.host = (.run child, e') →
    Evaluates e' child none (result, e'') →
    Evaluates e'' ⟨x.frame, act.kind⟩ (some result) out →
    Evaluates e act answer out

namespace Activation

variable {act : Activation} {answer : Option FrameResult} {e : Engine β}

theorem runOn_price {action : Action} {x : Exec (Engine β)}
    (h : act.runOn answer e = (action, x)) :
    x.frame.gas.remaining + action.price ≤
      act.frame.gas.remaining + Machine.answerGas answer := by
  cases answer with
  | none => exact Exec.run_price h
  | some result => exact Exec.resume_price h

theorem runOn_finished {ending : Ending} {x : Exec (Engine β)}
    (h : act.runOn answer e = (.finished ending, x)) : ending.gas = x.frame.gas := by
  cases answer with
  | none => exact Exec.runFor_finished _ h
  | some result => exact Exec.resume_finished h

end Activation

/-! ## What happens on the way -/

/-- The states that a frame comes to before it stops, once it has taken an
    answer if there is one. -/
def Activation.Reaches (act : Activation) (answer : Option FrameResult) (e : Engine β)
    (y : Exec (Engine β)) : Prop :=
  match answer with
  | none => Exec.RunsOn ⟨act.frame, e⟩ y
  | some result => ∃ x, Exec.take result ⟨act.frame, e⟩ = (none, x) ∧ Exec.RunsOn x y

/-- Some frame of an evaluation comes to a state with a property, and what it
    does there is committed: neither that frame nor a frame that waits for it
    fails. -/
inductive Commits (P : Exec (Engine β) → Prop) :
    Engine β → Activation → Option FrameResult → Prop where
  | here {e : Engine β} {act : Activation} {answer : Option FrameResult} {y : Exec (Engine β)}
      {out : FrameResult × Engine β} :
    act.Reaches answer e y → P y →
    Evaluates e act answer out → out.1.isSuccess = true →
    Commits P e act answer
  /-- A frame that this one asks for. -/
  | inner {e e' : Engine β} {act child : Activation} {answer : Option FrameResult}
      {request : Request} {x : Exec (Engine β)} {out : FrameResult × Engine β} :
    act.runOn answer e = (request.action, x) →
    request.start x.host = (.run child, e') →
    Commits P e' child none →
    Evaluates e act answer out → out.1.isSuccess = true →
    Commits P e act answer
  /-- Later on, after a request that was settled at once. -/
  | settled {e e' : Engine β} {act : Activation} {answer : Option FrameResult}
      {request : Request} {x : Exec (Engine β)} {result : FrameResult} :
    act.runOn answer e = (request.action, x) →
    request.start x.host = (.done result, e') →
    Commits P e' ⟨x.frame, act.kind⟩ (some result) →
    Commits P e act answer
  /-- Later on, after a request that opened a frame. -/
  | entered {e e' e'' : Engine β} {act child : Activation} {answer : Option FrameResult}
      {request : Request} {x : Exec (Engine β)} {result : FrameResult} :
    act.runOn answer e = (request.action, x) →
    request.start x.host = (.run child, e') →
    Evaluates e' child none (result, e'') →
    Commits P e'' ⟨x.frame, act.kind⟩ (some result) →
    Commits P e act answer

/-! ## Every frame has a value -/

/-- Every frame has a value, which returns no more gas than there was. The
    induction is on this gas: a request costs more of it than it sends. -/
theorem evaluates_exists (e : Engine β) (act : Activation) (answer : Option FrameResult) :
    ∃ out, Evaluates e act answer out ∧
      out.1.gas.remaining ≤ act.frame.gas.remaining + Machine.answerGas answer := by
  induction hgas : act.frame.gas.remaining + Machine.answerGas answer using
    Nat.strongRecOn generalizing e act answer with
  | ind gas ih =>
  rcases hrun : act.runOn answer e with ⟨action, x⟩
  have hprice := Activation.runOn_price hrun
  rcases action.request_or_finished with ⟨request, rfl⟩ | ⟨ending, rfl⟩
  · rw [Request.price_action, hgas] at hprice
    -- what is left to the frame and what was sent is less than there was
    have hrest : ∀ (e' : Engine β) (result : FrameResult),
        result.gas.remaining ≤ request.gasLimit →
        ∃ out, Evaluates e' ⟨x.frame, act.kind⟩ (some result) out ∧ out.1.gas.remaining ≤ gas := by
      intro e' result hresult
      obtain ⟨out, hout, hback⟩ := ih (x.frame.gas.remaining + result.gas.remaining) (by omega)
        e' ⟨x.frame, act.kind⟩ (some result) rfl
      exact ⟨out, hout, by omega⟩
    rcases hstart : request.start x.host with ⟨result | child, e'⟩
    · obtain ⟨out, hout, hback⟩ := hrest e' result (Request.start_done hstart)
      exact ⟨out, .settled hrun hstart hout, hback⟩
    · have hchild : child.frame.gas.remaining = request.gasLimit := by
        rw [Request.start_run hstart]
        rfl
      obtain ⟨⟨result, e''⟩, hinner, hresult⟩ := ih request.gasLimit (by omega) e' child none
        (by simp [Machine.answerGas, hchild])
      obtain ⟨out, hout, hback⟩ := hrest e'' result hresult
      exact ⟨out, .entered hrun hstart hinner hout, hback⟩
  · refine ⟨_, .ended hrun, ?_⟩
    have hending : ending.gas.remaining = x.frame.gas.remaining := by
      rw [Activation.runOn_finished hrun]
    have hback := Machine.endFrame_remaining act.kind ending x.host
    omega

/-! ## The driver finds it -/

namespace Machine

variable {m last last' : Machine β}

/-- Hand an outcome down to the frame that waits for it, if there is one. -/
def handDown (parents : List Activation) (out : FrameResult × Engine β) : Progress β :=
  match parents with
  | [] => .finished out.1 out.2
  | parent :: parents => .running ⟨out.2, parent, parents, some out.1⟩

theorem advance_requested {e : Engine β} {act : Activation} {parents : List Activation}
    {answer : Option FrameResult} {request : Request} {x : Exec (Engine β)}
    (h : act.runOn answer e = (request.action, x)) :
    (⟨e, act, parents, answer⟩ : Machine β).advance =
      .running (afterStart (request.start x.host).1 (request.start x.host).2 ⟨x.frame, act.kind⟩
        parents) := by
  have hrun : (⟨e, act, parents, answer⟩ : Machine β).runCurrent = (request.action, x) := h
  rw [advance_follow, hrun, follow_request]

theorem advance_ended {e : Engine β} {act : Activation} {parents : List Activation}
    {answer : Option FrameResult} {ending : Ending} {x : Exec (Engine β)}
    (h : act.runOn answer e = (.finished ending, x)) :
    (⟨e, act, parents, answer⟩ : Machine β).advance =
      handDown parents (Engine.endFrame act.kind ending x.host) := by
  have hrun : (⟨e, act, parents, answer⟩ : Machine β).runCurrent = (.finished ending, x) := h
  rw [advance_follow, hrun]
  cases parents <;> rfl

/-- **The driver hands down the value of the frame whose turn it is**, whatever
    frames wait. -/
theorem visits_of_evaluates {e : Engine β} {act : Activation} {answer : Option FrameResult}
    {out : FrameResult × Engine β} (h : Evaluates e act answer out)
    (parents : List Activation) :
    ∃ last, Visits ⟨e, act, parents, answer⟩ last ∧ last.advance = handDown parents out := by
  induction h generalizing parents with
  | ended hrun => exact ⟨_, .refl, advance_ended hrun⟩
  | @settled e e' act answer request x result out hrun hstart _ ih =>
    have hfirst : (⟨e, act, parents, answer⟩ : Machine β).advance = _ := advance_requested hrun
    rw [hstart] at hfirst
    obtain ⟨last, hvisits, hlast⟩ := ih parents
    exact ⟨last, .head hfirst hvisits, hlast⟩
  | @entered e e' e'' act child answer request x result out hrun hstart _ _ ihchild ihrest =>
    have hfirst : (⟨e, act, parents, answer⟩ : Machine β).advance = _ := advance_requested hrun
    rw [hstart] at hfirst
    -- the new frame hands its value down to this one
    obtain ⟨inner, hinner, hhands⟩ := ihchild (⟨x.frame, act.kind⟩ :: parents)
    obtain ⟨last, hvisits, hlast⟩ := ihrest parents
    exact ⟨last, .head hfirst (hinner.trans (.head hhands hvisits)), hlast⟩

/-- The driver comes to one end only. -/
theorem visits_end_unique {out out' : FrameResult × Engine β} (h : Visits m last)
    (hlast : last.advance = .finished out.1 out.2) (h' : Visits m last')
    (hlast' : last'.advance = .finished out'.1 out'.2) : out = out' := by
  have hstuck : ∀ {k k' : Machine β} {out : FrameResult × Engine β},
      k.advance = .finished out.1 out.2 → Visits k k' → k = k' := by
    intro k k' out hk hvisits
    rcases Relation.ReflTransGen.cases_head hvisits with heq | ⟨next, hnext, _⟩
    · exact heq
    · rw [hk] at hnext
      cases hnext
  have hsame : last = last' := by
    have hunique : Relator.RightUnique fun m m' : Machine β => m.advance = .running m' := by
      intro m m1 m2 h1 h2
      rw [h1] at h2
      cases h2
      rfl
    rcases Relation.ReflTransGen.total_of_right_unique hunique h h' with hahead | hahead
    · exact hstuck hlast hahead
    · exact (hstuck hlast' hahead).symm
  subst hsame
  rw [hlast] at hlast'
  injection hlast' with hresult hengine
  exact Prod.ext hresult hengine

theorem drive_of_evaluates {e : Engine β} {act : Activation} {out : FrameResult × Engine β}
    (h : Evaluates e act none out) : drive ⟨e, act, [], none⟩ = out := by
  obtain ⟨last, hvisits, hlast⟩ := visits_of_evaluates h []
  obtain ⟨last', hvisits', hlast'⟩ := drive_finishes ⟨e, act, [], none⟩ rfl rfl
  exact (visits_end_unique hvisits hlast hvisits' hlast').symm

theorem evaluates_drive (e : Engine β) (act : Activation) :
    Evaluates e act none (drive ⟨e, act, [], none⟩) := by
  obtain ⟨out, hout, _⟩ := evaluates_exists e act none
  rwa [drive_of_evaluates hout]

/-- **The driver computes the value of its frame**: the same outcome and the
    same engine as the recursion over the tree of frames, for every frame to
    start with and every engine. -/
theorem drive_iff_evaluates (e : Engine β) (act : Activation) (out : FrameResult × Engine β) :
    drive ⟨e, act, [], none⟩ = out ↔ Evaluates e act none out := by
  constructor
  · rintro rfl
    exact evaluates_drive e act
  · exact drive_of_evaluates

end Machine

end Evm
