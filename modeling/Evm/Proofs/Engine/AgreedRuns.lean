import Evm.Proofs.Engine.Agreement
import Evm.Proofs.Engine.Recursion

/-! # Requests on engines that do the same

    The driver takes related engines turn by turn to related engines, with the
    same frames on both sides, and so both come to the same result. What has to
    be known of the codes is said of those that the run comes to deploy
    (`Request.deployments`).
-/

namespace Evm

open Journal

/-! ## Codes that are deployed -/

section Deployments

variable {β : Type} [Backend β]

/-- What the current frame has to deploy when it ends: the output of a creation
    that is a success. -/
def Machine.offered (m : Machine β) : List Bytes :=
  match m.current.kind, m.runCurrent.1 with
  | .create _ _, .finished ending => if ending.exit.isSuccess then [ending.output] else []
  | _, _ => []

/-- The codes that are offered in a number of turns. -/
def Machine.offeredFor : (bound : Nat) → Machine β → List Bytes
  | 0, _ => []
  | bound + 1, m =>
    m.offered ++
      match m.advance with
      | .running m' => offeredFor bound m'
      | .finished _ _ => []

/-- The codes that a request comes to deploy. -/
def Request.deployments (request : Request) (e : Engine β) : List Bytes :=
  match request.start e with
  | (.run act, e') =>
    Machine.offeredFor (2 * act.frame.gas.remaining + 2) ⟨e', act, [], none⟩
  | (.done _, _) => []

/-- The codes that a transaction comes to deploy. -/
def Engine.deployments (tx : Transaction) (e : Engine β) : List Bytes :=
  if tx.gasLimit < intrinsicGas e.config tx then []
  else
    match prepare tx e with
    | (.error _, _) => []
    | (.ok _, e') => (tx.request (tx.gasLimit - intrinsicGas e.config tx)).deployments e'

/-- What follows the end of a frame. -/
theorem Machine.follow_finished (kind : FrameKind) (parents : List Activation) (ending : Ending)
    (x : Exec (Engine β)) :
    follow kind parents (.finished ending, x) =
      handDown parents (Engine.endFrame kind ending x.host) := by
  cases parents <;> rfl

end Deployments

/-! ## Machines beside each other -/

section Machines

variable {β γ : Type} {R : Engine β → Engine γ → Prop} {known : Hash → Bytes → Prop}
  {free : Address → Prop}

/-- Two machines with the same frames over related engines. -/
structure Machine.Alongside (R : Engine β → Engine γ → Prop) (free : Address → Prop)
    (m : Machine β) (n : Machine γ) : Prop where
  engines : R m.engine n.engine
  current : m.current = n.current
  parents : m.parents = n.parents
  answer : m.answer = n.answer
  clear : ∀ act ∈ m.current :: m.parents, act.kind.Clear free

/-- Two turns led to machines with the same frames, or to the same result. -/
inductive Progress.Alongside (R : Engine β → Engine γ → Prop) (free : Address → Prop) :
    Progress β → Progress γ → Prop where
  | running {m : Machine β} {n : Machine γ} :
    Machine.Alongside R free m n → Progress.Alongside R free (.running m) (.running n)
  | finished (result : FrameResult) {e : Engine β} {f : Engine γ} :
    R e f → Progress.Alongside R free (.finished result e) (.finished result f)

namespace Machine

/-- Going on after a request that was opened in the same way. -/
theorem afterStart_alongside {e : Engine β} {f : Engine γ} {start : FrameStart}
    {current : Activation} {parents : List Activation} (hR : R e f) (hstart : start.Clear free)
    (hclear : ∀ act ∈ current :: parents, act.kind.Clear free) :
    Alongside R free (afterStart start e current parents)
      (afterStart start f current parents) := by
  cases start with
  | done result => exact ⟨hR, rfl, rfl, rfl, hclear⟩
  | run child =>
    refine ⟨hR, rfl, rfl, rfl, fun act hact => ?_⟩
    rcases List.mem_cons.mp hact with rfl | hact
    · exact hstart
    · exact hclear act hact

variable [Backend β] [Backend γ] {m : Machine β} {n : Machine γ}

namespace Alongside

/-- The current frame stops for the same reason. -/
theorem runCurrent (h : Alongside R free m n) (hosts : HostsAgree R) :
    StopsBeside R m.runCurrent n.runCurrent := by
  have hbeside : Beside R ⟨m.current.frame, m.engine⟩ ⟨n.current.frame, n.engine⟩ :=
    ⟨congrArg Activation.frame h.current, h.engines⟩
  unfold Machine.runCurrent
  rw [← h.answer]
  cases m.answer with
  | none => exact hosts.run hbeside
  | some result => exact hosts.resume result hbeside

/-- **One turn** leads to machines with the same frames, or to the same
    result. -/
theorem advance (h : Alongside R free m n) (agree : EnginesAgree R known free)
    (hvouched : AllKnown known m.offered) : Progress.Alongside R free m.advance n.advance := by
  have hstops := h.runCurrent agree.hosts
  have hclear := h.clear
  rw [advance_follow, advance_follow, ← h.current, ← h.parents]
  unfold offered at hvouched
  generalize m.runCurrent = stop, n.runCurrent = stop' at hstops hvouched
  obtain ⟨action, frame, host⟩ := stop
  obtain ⟨_, _, host'⟩ := stop'
  obtain ⟨rfl, rfl, hR⟩ := hstops
  -- the frame that asked has the kind that it had
  have hwaiting : ∀ act ∈ (⟨frame, m.current.kind⟩ :: m.parents : List Activation),
      act.kind.Clear free := by
    intro act hact
    rcases List.mem_cons.mp hact with rfl | hact
    · exact hclear m.current List.mem_cons_self
    · exact hclear act (List.mem_cons_of_mem _ hact)
  rcases action.request_or_finished with ⟨request, rfl⟩ | ⟨ending, rfl⟩
  · obtain ⟨hsame, hengines, hstart⟩ := agree.start request host host' hR
    rw [follow_request, follow_request, ← hsame]
    exact .running (afterStart_alongside hengines hstart hwaiting)
  · have hknown : ∀ checkpoint address, m.current.kind = .create checkpoint address →
        ending.exit.isSuccess = true → ending.output.isEmpty = false →
        known (keccak256 ending.output) ending.output := by
      intro checkpoint address hkind hsuccess
      refine hvouched ending.output ?_
      simp [hkind, hsuccess]
    obtain ⟨hsame, hengines, _⟩ :=
      agree.endFrame (hclear _ List.mem_cons_self) hknown host host' hR
    rw [follow_finished, follow_finished]
    unfold handDown
    rw [← hsame]
    cases hparents : m.parents with
    | nil => exact .finished _ hengines
    | cons parent parents =>
      refine .running ⟨hengines, rfl, rfl, rfl, fun act hact => ?_⟩
      rw [hparents] at hclear
      exact hclear act (List.mem_cons_of_mem _ hact)

/-- **The driver** comes to the same result. -/
theorem driveFor (bound : Nat) (h : Alongside R free m n) (agree : EnginesAgree R known free)
    (hvouched : AllKnown known (offeredFor bound m)) :
    (driveFor bound m).1 = (driveFor bound n).1 ∧
      R (driveFor bound m).2 (driveFor bound n).2 := by
  induction bound generalizing m n with
  | zero =>
    refine ⟨?_, h.engines⟩
    unfold Machine.driveFor
    rw [h.current]
  | succ bound ih =>
    unfold offeredFor at hvouched
    have hturn := h.advance agree fun c hc => hvouched c (List.mem_append_left _ hc)
    unfold Machine.driveFor
    generalize m.advance = progress, n.advance = progress' at hturn hvouched
    cases hturn with
    | running hnext => exact ih hnext fun c hc => hvouched c (List.mem_append_right _ hc)
    | finished result hengines => exact ⟨rfl, hengines⟩

end Alongside

end Machine

/-- **Requests are carried out in the same way.** -/
theorem EnginesAgree.perform [Backend β] [Backend γ] (agree : EnginesAgree R known free)
    {request : Request} {e : Engine β} {f : Engine γ} (hR : R e f)
    (hvouched : AllKnown known (request.deployments e)) :
    (request.perform e).1 = (request.perform f).1 ∧
      R (request.perform e).2 (request.perform f).2 := by
  obtain ⟨hsame, hengines, hclear⟩ := agree.start request e f hR
  unfold Request.deployments at hvouched
  rw [request.perform_eq, request.perform_eq, ← hsame]
  generalize request.start e = started, (request.start f).2 = e'' at *
  obtain ⟨start, e'⟩ := started
  cases start with
  | done result => exact ⟨rfl, hengines⟩
  | run act =>
    have hfirst : Machine.Alongside R free ⟨e', act, [], none⟩ ⟨e'', act, [], none⟩ := by
      refine ⟨hengines, rfl, rfl, rfl, fun act' hact => ?_⟩
      rw [List.mem_singleton.mp hact]
      exact hclear
    exact hfirst.driveFor _ agree hvouched

end Machines

end Evm
