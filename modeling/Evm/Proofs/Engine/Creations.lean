import Evm.Proofs.Engine.Order
import Evm.Proofs.Engine.Standing
import Evm.Proofs.Frame.Output

/-! # The contracts that a run creates

    Opening a creation, running its code and giving it that code are far apart:
    in between any other code may run, call the new account, create more, and
    fail. A creation is kept if its frame succeeds and no frame that waits for
    it fails; `Creates` lists the creations that are kept along the tree of
    frames.

    What is carried along the tree is `Installed`. The address of a creation was
    free when it was asked for and has a nonce from then on, so it is free for
    no other one; and apart from closing a creation, nothing changes the code of
    an account.
-/

namespace Evm

open Journal

variable {β : Type} [Backend β]

/-! ## Creations -/

/-- A creation that was kept. -/
structure Creation (β : Type) where
  /-- The address of the new contract. -/
  address : Address
  /-- The state in which the creation was asked for. -/
  before : Journal β
  /-- The code that the contract was given. -/
  code : Bytes
  /-- The meter of the frame when the code in it had ended. -/
  ended : Gas
  /-- The meter of the frame when it was closed. -/
  closed : Gas

/-- The creations that are kept when a frame is closed: those within it, and
    itself if it is one. A frame that fails keeps none. -/
def FrameKind.keeps (kind : FrameKind) (before : Journal β) (ending : Ending)
    (result : FrameResult) (inner : List (Creation β)) : List (Creation β) :=
  if result.isSuccess then
    match kind with
    | .call _ => inner
    | .create _ address => inner ++ [⟨address, before, ending.output, ending.gas, result.gas⟩]
  else []

/-- The course of a frame up to where its code ends, with the creations in the
    frames that it asked for, as far as they are kept. -/
inductive Creates :
    Engine β → Activation → Option FrameResult → List (Creation β) → Ending × Engine β → Prop where
  /-- The frame runs to its end. -/
  | ended {e : Engine β} {act : Activation} {answer : Option FrameResult} {ending : Ending}
      {x : Exec (Engine β)} :
    act.runOn answer e = (.finished ending, x) →
    Creates e act answer [] (ending, x.host)
  /-- The frame runs to a request that is settled at once, and goes on with the
      result. -/
  | settled {e e' : Engine β} {act : Activation} {answer : Option FrameResult}
      {request : Request} {x : Exec (Engine β)} {result : FrameResult}
      {log : List (Creation β)} {last : Ending × Engine β} :
    act.runOn answer e = (request.action, x) →
    request.start x.host = (.done result, e') →
    Creates e' ⟨x.frame, act.kind⟩ (some result) log last →
    Creates e act answer log last
  /-- The frame runs to a request that opens a frame, and goes on with what
      comes of that frame when it is closed. -/
  | entered {e e' e'' inside : Engine β} {act child : Activation} {answer : Option FrameResult}
      {request : Request} {x : Exec (Engine β)} {inner rest : List (Creation β)}
      {ending : Ending} {result : FrameResult} {last : Ending × Engine β} :
    act.runOn answer e = (request.action, x) →
    request.start x.host = (.run child, e') →
    Creates e' child none inner (ending, inside) →
    Engine.endFrame child.kind ending inside = (result, e'') →
    Creates e'' ⟨x.frame, act.kind⟩ (some result) rest last →
    Creates e act answer (child.kind.keeps x.host.journal ending result inner ++ rest) last

/-- The creations of a request that are kept, with what comes of the request. -/
inductive Request.Creates (request : Request) (e : Engine β) :
    List (Creation β) → FrameResult × Engine β → Prop where
  | settled {result : FrameResult} {e' : Engine β} :
    request.start e = (.done result, e') → request.Creates e [] (result, e')
  | entered {act : Activation} {e' e'' inside : Engine β} {inner : List (Creation β)}
      {ending : Ending} {result : FrameResult} :
    request.start e = (.run act, e') →
    Evm.Creates e' act none inner (ending, inside) →
    Engine.endFrame act.kind ending inside = (result, e'') →
    request.Creates e (act.kind.keeps e.journal ending result inner) (result, e'')

/-! ### They belong to the value of a frame -/

/-- The course of a frame leads to its value. -/
theorem Creates.evaluates {e : Engine β} {act : Activation} {answer : Option FrameResult}
    {log : List (Creation β)} {last : Ending × Engine β} (h : Creates e act answer log last) :
    Evaluates e act answer (Engine.endFrame act.kind last.1 last.2) := by
  induction h with
  | ended hrun => exact .ended hrun
  | settled hrun hstart _ ih => exact .settled hrun hstart ih
  | entered hrun hstart _ hend _ ihchild ihrest =>
    rw [hend] at ihchild
    exact .entered hrun hstart ihchild ihrest

/-- Every frame has such a course. -/
theorem Evaluates.creates {e : Engine β} {act : Activation} {answer : Option FrameResult}
    {out : FrameResult × Engine β} (h : Evaluates e act answer out) :
    ∃ log last, Creates e act answer log last ∧ Engine.endFrame act.kind last.1 last.2 = out := by
  induction h with
  | ended hrun => exact ⟨[], _, .ended hrun, rfl⟩
  | settled hrun hstart _ ih =>
    obtain ⟨log, last, hcreates, hout⟩ := ih
    exact ⟨log, last, .settled hrun hstart hcreates, hout⟩
  | entered hrun hstart _ _ ihchild ihrest =>
    obtain ⟨inner, ⟨ending, inside⟩, hinner, hend⟩ := ihchild
    obtain ⟨rest, last, hrest, hout⟩ := ihrest
    exact ⟨_, last, .entered hrun hstart hinner hend hrest, hout⟩

namespace Request

theorem creates_perform {request : Request} {e : Engine β} {log : List (Creation β)}
    {out : FrameResult × Engine β} (h : request.Creates e log out) : request.perform e = out := by
  cases h with
  | settled hstart => rw [perform_eq, hstart]; rfl
  | entered hstart hinner hend =>
    have hvalue := hinner.evaluates
    rw [hend] at hvalue
    rw [perform_eq, hstart]
    exact Machine.drive_of_evaluates hvalue

end Request

/-! ## The code of accounts -/

namespace Journal

variable {b j j' : Journal β} {a : Address}

/-- Every account that can be read has the same code in both states. -/
def SameCode (b j : Journal β) : Prop :=
  ∀ a old, b.presentAccount a = .ok old →
    ∃ new, j.presentAccount a = .ok new ∧ (new.getD .empty).codeHash = (old.getD .empty).codeHash

namespace SameCode

theorem of_same (h : ∀ a, j.presentAccount a = b.presentAccount a) : SameCode b j :=
  fun a old hold => ⟨old, (h a).trans hold, rfl⟩

theorem trans (h : SameCode b j) (h' : SameCode j j') : SameCode b j' := by
  intro a old hold
  obtain ⟨mid, hmid, hbefore⟩ := h a old hold
  obtain ⟨new, hnew, hafter⟩ := h' a mid hmid
  exact ⟨new, hnew, hafter.trans hbefore⟩

theorem of_changes {owned : Address → Prop} (h : Changes (Edit.Tidy owned) b j) :
    SameCode b j := by
  refine h.invariant (P := fun k => SameCode b k) ?_ (of_same fun _ => rfl)
  intro edit k k' hedit happ hk
  refine hk.trans ?_
  cases edit with
  | account a previous new =>
    intro a' old hold
    by_cases ha : a' = a
    · subst ha
      obtain ⟨hbefore, hafter⟩ := happ.presentAccount
      rw [hold] at hbefore
      cases hbefore
      exact ⟨some new, hafter, hedit⟩
    · refine ⟨old, ?_, rfl⟩
      rw [happ.presentAccount_of_ne, hold]
      rintro previous' new' ⟨⟩
      exact ha rfl
  | _ => exact of_same fun a => happ.presentAccount_of_ne nofun

end SameCode

theorem setCodeHash_ok {hash : Hash} {u : Unit} (h : setCodeHash a hash j = .ok u j') :
    (∃ previous, j.presentAccount a = .ok previous ∧
      j'.presentAccount a = .ok (some { previous.getD .empty with codeHash := hash })) ∧
    ∀ a', a' ≠ a → j'.presentAccount a' = j.presentAccount a' := by
  have hset := modifyAccount_spec a (fun account => .ok { account with codeHash := hash }) j
  rw [show modifyAccount a _ j = .ok u j' from h] at hset
  cases hset with
  | @written previous new j1 _ hreads hnew happ =>
    cases hnew
    have hread : ∀ edit : Edit, edit = .readAccount a → edit.IsRead := by
      rintro edit rfl
      trivial
    have hsame := (Changes.restored (hreads.mono hread)).presentAccount_eq
    obtain ⟨hprevious, hnew⟩ := happ.presentAccount
    refine ⟨⟨previous, ?_, hnew⟩, fun a' ha => ?_⟩
    · rw [← hsame]
      exact hprevious
    · rw [happ.presentAccount_of_ne, hsame]
      rintro previous' new' ⟨⟩
      exact ha rfl

/-- **Giving code to an account** is seen at that account, and nowhere else. -/
theorem setCode_ok {c : Bytes} {hash : Hash} (h : setCode a c j = .ok hash j') :
    (∃ previous, j.presentAccount a = .ok previous ∧
      j'.presentAccount a = .ok (some { previous.getD .empty with codeHash := codeHashOf c })) ∧
    ∀ a', a' ≠ a → j'.presentAccount a' = j.presentAccount a' := by
  unfold setCode at h
  unfold codeHashOf
  by_cases hempty : c.isEmpty
  · rw [if_pos hempty] at h ⊢
    obtain ⟨u, j1, hset, h⟩ := bind_ok h
    cases h
    exact setCodeHash_ok hset
  · rw [if_neg hempty] at h ⊢
    obtain ⟨u, j1, hqueue, h⟩ := bind_ok h
    obtain ⟨u', j2, hset, h⟩ := bind_ok h
    cases h
    -- the list of codes is not where accounts are
    have haccounts : j1.backend = j.backend ∧ j1.accounts = j.accounts := by
      unfold queueCode at hqueue
      simp only [modify_apply] at hqueue
      split at hqueue <;> cases hqueue <;> exact ⟨rfl, rfl⟩
    have hsame := presentAccount_congr haccounts.1 haccounts.2
    obtain ⟨⟨previous, hprevious, hnew⟩, hothers⟩ := setCodeHash_ok hset
    refine ⟨⟨previous, ?_, hnew⟩, fun a' ha => ?_⟩
    · rw [← hsame]
      exact hprevious
    · rw [hothers a' ha, hsame]

end Journal

/-! ## Opening and closing creations -/

namespace Engine

variable {e e' : Engine β}

/-- The creator's own address is not the new one, which therefore was free
    before the creator was counted up, too. -/
theorem Counted.free_before {message : CreateMessage} {nonce : Nat} {b j : Journal β}
    (h : Counted message nonce b j) {a : Address} (hfree : j.Free a) : b.Free a := by
  have hne : a ≠ message.caller := by
    rintro rfl
    obtain ⟨old, _, _, hnew⟩ := h.creator
    exact hfree.not_stands ⟨_, hnew, .inl (Nat.succ_ne_zero nonce)⟩
  have hsame : j.presentAccount a = b.presentAccount a := by
    refine h.changes.invariant (P := fun k => k.presentAccount a = b.presentAccount a) ?_ rfl
    intro edit k k' hcounts happ hk
    rw [happ.presentAccount_of_ne, hk]
    rintro previous new rfl
    exact hne hcounts.1
  obtain ⟨old, hold, hfree⟩ := hfree
  exact ⟨old, hsame ▸ hold, hfree⟩

/-- What is known of the address when the frame of a creation is opened: it was
    free when the creation was asked for, and has a nonce now. -/
theorem start_create {request : Request} {child : Activation}
    (h : request.start e = (.run child, e')) {checkpoint : Checkpoint} {address : Address}
    (hkind : child.kind = .create checkpoint address) :
    e.journal.Free address ∧
      ∃ account, e'.journal.presentAccount address = .ok account ∧
        (account.getD .empty).nonce ≠ 0 := by
  cases request with
  | call message =>
    have houtcome := startCall_outcome message e
    rw [show startCall message e = (.run child, e') from h] at houtcome
    cases houtcome
    cases hkind
  | create message =>
    have houtcome := startCreate_outcome message e
    rw [show startCreate message e = (.run child, e') from h] at houtcome
    cases houtcome with
    | opened hcounted hfree hok =>
      cases hkind
      exact ⟨hcounted.free_before hfree, (endow_endures message hfree).2 _ hok⟩

/-- **The checks that code has passed that was given to an account**, and what
    was paid for it. -/
theorem deploy_ok {address : Address} {code : Bytes} {gas left : Gas}
    (h : deploy address code gas e = (.ok left, e')) :
    ¬(e.config.hardfork.includes .london ∧ code.size ≠ 0 ∧ Bytes.byteAt code 0 = 0xef) ∧
      code.size ≤ e.config.maxCodeSize ∧ gas.charge? (Gas.codeDeposit code.size) = some left ∧
      ∃ hash j, Journal.setCode address code e.journal = .ok hash j ∧
        e' = { e with journal := j } := by
  unfold deploy at h
  rw [state_get_bind_apply, state_ite_apply] at h
  split at h
  · cases h
  next hbyte0 =>
  rw [state_ite_apply] at h
  split at h
  · cases h
  next hsize =>
  cases hcharge : gas.charge? (Gas.codeDeposit code.size) with
  | none =>
    rw [hcharge] at h
    cases h
  | some paid =>
    rw [hcharge] at h
    simp only at h
    rw [state_bind_apply] at h
    cases hcode : Journal.setCode address code e.journal with
    | error err j =>
      rw [attempt_error hcode] at h
      cases h
    | ok hash j =>
      rw [attempt_ok hcode] at h
      cases h
      exact ⟨hbyte0, Nat.le_of_not_lt hsize, rfl, hash, j, rfl, rfl⟩

/-- Closing a call with success changes nothing. -/
theorem endCall_ok {checkpoint : Checkpoint} {ending : Ending} {result : FrameResult}
    (h : endFrame (.call checkpoint) ending e = (result, e')) (hsuccess : result.isSuccess = true) :
    e' = e := by
  have hresult := endCall_result checkpoint (.ended ending.exit ending.gas ending.output) e
  rw [show endCall checkpoint _ e = (result, e') from h] at hresult
  unfold endFrame endCall at h
  rw [← show result = _ from hresult, hsuccess] at h
  cases h
  rfl

end Engine

/-! ## What is carried along a run -/

/-- A creation at an address that was free, of code that passed the checks of the
    rules and that the frame has paid for by the byte. -/
structure Creation.Sound (config : Config) (c : Creation β) : Prop where
  free : c.before.Free c.address
  size : c.code.size ≤ config.maxCodeSize
  firstByte : config.hardfork.includes .london → c.code.size ≠ 0 → Bytes.byteAt c.code 0 ≠ 0xef
  paid : c.closed.remaining + 200 * c.code.size = c.ended.remaining

/-- Some creations, and nothing else that is seen of the code of accounts, lie
    between two engines. -/
structure Installed (e : Engine β) (log : List (Creation β)) (e' : Engine β) : Prop where
  config : e'.config = e.config
  reverts : RevertsTo e.journal e'.journal
  endures : e.journal.Endures e'.journal
  sound : ∀ c ∈ log, c.Sound e.config
  /-- No account was taken where a contract was created. -/
  fresh : ∀ c ∈ log, ¬e.journal.Stands c.address
  /-- The contracts have a nonce and their code. -/
  stands : ∀ c ∈ log, ∃ account, e'.journal.presentAccount c.address = .ok (some account) ∧
    account.nonce ≠ 0 ∧ account.codeHash = codeHashOf c.code
  distinct : (log.map Creation.address).Nodup
  others : ∀ a, a ∉ log.map Creation.address → ∀ old, e.journal.presentAccount a = .ok old →
    ∃ new, e'.journal.presentAccount a = .ok new ∧
      (new.getD .empty).codeHash = (old.getD .empty).codeHash

namespace Installed

variable {e e' e'' : Engine β} {log log' : List (Creation β)}

/-- Nothing is created. -/
theorem nothing (hconfig : e'.config = e.config) (hreverts : RevertsTo e.journal e'.journal)
    (hendures : e.journal.Endures e'.journal) (hcode : SameCode e.journal e'.journal) :
    Installed e [] e' where
  config := hconfig
  reverts := hreverts
  endures := hendures
  sound := nofun
  fresh := nofun
  stands := nofun
  distinct := List.nodup_nil
  others a _ := hcode a

/-- A contract keeps its code, since it is taken. -/
theorem stands_after (h : Installed e log e') (hendures : e'.journal.Endures e''.journal)
    {c : Creation β} (hc : c ∈ log) :
    ∃ account, e''.journal.presentAccount c.address = .ok (some account) ∧
      account.nonce ≠ 0 ∧ account.codeHash = codeHashOf c.code := by
  obtain ⟨account, haccount, hnonce, hcode⟩ := h.stands c hc
  obtain ⟨new, hnew, hsame⟩ := hendures _ _ haccount
  have hle := hsame.nonce
  have hhash := hsame.code (.inl hnonce)
  simp only [Option.getD_some] at hle hhash
  cases new with
  | none => exact absurd hle (by simp only [Option.getD_none, Account.empty]; omega)
  | some new => exact ⟨new, hnew, by simp only [Option.getD_some] at hle; omega, hhash.trans hcode⟩

/-- What is created later is created elsewhere. -/
theorem trans (h : Installed e log e') (h' : Installed e' log' e'') :
    Installed e (log ++ log') e'' where
  config := h'.config.trans h.config
  reverts := h.reverts.trans h'.reverts
  endures := h.endures.trans h'.endures
  sound c hc := by
    rcases List.mem_append.mp hc with hc | hc
    · exact h.sound c hc
    · have hsound := h'.sound c hc
      rwa [h.config] at hsound
  fresh c hc := by
    rcases List.mem_append.mp hc with hc | hc
    · exact h.fresh c hc
    · exact fun hstands => h'.fresh c hc (h.endures.stands hstands)
  stands c hc := by
    rcases List.mem_append.mp hc with hc | hc
    · exact h.stands_after h'.endures hc
    · exact h'.stands c hc
  distinct := by
    rw [List.map_append]
    refine List.nodup_append.mpr ⟨h.distinct, h'.distinct, ?_⟩
    rintro a hbefore a' hafter rfl
    obtain ⟨c, hc, rfl⟩ := List.mem_map.mp hbefore
    obtain ⟨c', hc', hsame⟩ := List.mem_map.mp hafter
    obtain ⟨account, haccount, hnonce, _⟩ := h.stands c hc
    refine h'.fresh c' hc' ?_
    rw [hsame]
    exact ⟨_, haccount, .inl hnonce⟩
  others a ha old hold := by
    rw [List.map_append, List.mem_append, not_or] at ha
    obtain ⟨mid, hmid, hbefore⟩ := h.others a ha.1 old hold
    obtain ⟨new, hnew, hafter⟩ := h'.others a ha.2 mid hmid
    exact ⟨new, hnew, hafter.trans hbefore⟩

/-- One more contract gets its code. -/
theorem deployed (h : Installed e log e') {c : Creation β} {j : Journal β}
    {previous : Option Account} (hsound : c.Sound e.config) (hfresh : ¬e.journal.Stands c.address)
    (hnew : c.address ∉ log.map Creation.address) (hreverts : RevertsTo e.journal j)
    (hendures : e.journal.Endures j) (hnonce : (previous.getD .empty).nonce ≠ 0)
    (hcode : j.presentAccount c.address =
      .ok (some { previous.getD .empty with codeHash := codeHashOf c.code }))
    (hothers : ∀ a, a ≠ c.address → j.presentAccount a = e'.journal.presentAccount a) :
    Installed e (log ++ [c]) { e' with journal := j } where
  config := h.config
  reverts := hreverts
  endures := hendures
  sound c' hc' := by
    rcases List.mem_append.mp hc' with hc' | hc'
    · exact h.sound c' hc'
    · rwa [List.mem_singleton.mp hc']
  fresh c' hc' := by
    rcases List.mem_append.mp hc' with hc' | hc'
    · exact h.fresh c' hc'
    · rwa [List.mem_singleton.mp hc']
  stands c' hc' := by
    rcases List.mem_append.mp hc' with hc' | hc'
    · -- it lies elsewhere
      have hne : c'.address ≠ c.address := by
        intro hsame
        exact hnew (hsame ▸ List.mem_map_of_mem hc')
      rw [hothers _ hne]
      exact h.stands c' hc'
    · rw [List.mem_singleton.mp hc']
      exact ⟨_, hcode, hnonce, rfl⟩
  distinct := by
    rw [List.map_append]
    refine List.nodup_append.mpr ⟨h.distinct, List.nodup_singleton _, ?_⟩
    rintro a hbefore a' hafter rfl
    rw [List.map_singleton, List.mem_singleton] at hafter
    exact hnew (hafter ▸ hbefore)
  others a ha old hold := by
    rw [List.map_append, List.mem_append, not_or] at ha
    rw [hothers a fun hsame => ha.2 (List.mem_singleton.mpr hsame)]
    exact h.others a ha.1 old hold

end Installed

/-! ## Along a run -/

section Steps

variable {e e' e'' inside : Engine β} {act child : Activation} {answer : Option FrameResult}
  {request : Request} {x : Exec (Engine β)} {result : FrameResult} {ending : Ending}
  {inner : List (Creation β)}

theorem Activation.runOn_output (h : act.runOn answer e = (.finished ending, x)) :
    ending.output.size ≤ outputLimit := by
  cases answer with
  | none => exact Exec.run_output h
  | some result => exact Exec.resume_output h

/-- A frame creates nothing by itself. -/
theorem Activation.runOn_installed {action : Action} (h : act.runOn answer e = (action, x)) :
    Installed e [] x.host := by
  have hwithin := Activation.runOn_within h
  refine .nothing hwithin.setup.config (Activation.runOn_reverts h) (Activation.runOn_endures h) ?_
  have htidy : Changes (Edit.Tidy fun _ => True) e.journal x.host.journal := by
    refine hwithin.1.mono fun edit hedit => ?_
    cases edit with
    | account a previous new =>
      obtain ⟨_, _, rfl⟩ := hedit
      rfl
    | _ => trivial
  exact .of_changes htidy

/-- A request that is settled at once creates nothing. -/
theorem Request.start_installed (h : request.start e = (.done result, e')) :
    Installed e [] e' := by
  have hsetup := request.start_setup e
  have hreverts := (request.start_balanced e).reverts
  have hendures := request.start_endures e
  have hstarted := request.start_started e
  rw [h] at hsetup hreverts hendures hstarted
  refine .nothing hsetup.config hreverts hendures ?_
  cases hstarted with
  | done hquiet _ hrestored _ =>
    exact (SameCode.of_changes hquiet).trans (.of_same hrestored.presentAccount_eq)

/-- A charge for code is one of 200 for each byte. -/
theorem Gas.codeDeposit_paid {gas left : Gas} {size : Nat} (hsize : size ≤ outputLimit)
    (h : gas.charge? (Gas.codeDeposit size) = some left) :
    left.remaining + 200 * size = gas.remaining := by
  have hcost : Gas.codeDeposit size = 200 * size := by
    unfold Gas.codeDeposit Gas.capped Word.maxUInt64
    unfold outputLimit at hsize
    omega
  rw [hcost] at h
  obtain ⟨hrich, rfl⟩ := Gas.charge?_ok h
  simp only
  omega

/-- **Closing a frame** with what was created in it: all of that is kept if the
    frame succeeds, and a creation then gives its address a code. -/
theorem Installed.closed (hstart : request.start e = (.run child, e'))
    (hinner : Installed e' inner inside) (houtput : ending.output.size ≤ outputLimit)
    (hend : Engine.endFrame child.kind ending inside = (result, e'')) :
    Installed e (child.kind.keeps e.journal ending result inner) e'' := by
  have hsetup := request.start_setup e
  have hstarted := request.start_started e
  have hclosing := (Engine.endFrame_spec child.kind ending inside).setup
  rw [hstart] at hsetup hstarted
  rw [hend] at hclosing
  cases hstarted with
  | @run _ base _ hbefore hcounted hkind hfresh hafter hendowed _ =>
  have hinside : RevertsTo base inside.journal := hafter.revertsTo.trans hinner.reverts
  have hopened : Installed e [] e' :=
    .nothing hsetup.config (hbefore.revertsTo.trans hafter.revertsTo) (hcounted.trans hendowed)
      ((SameCode.of_changes hbefore).trans (.of_changes hafter))
  unfold FrameKind.keeps
  cases hsuccess : result.isSuccess with
  | false =>
    -- all goes back to the checkpoint
    have hrestored := Engine.endFrame_failure hend hsuccess hkind hinside
    exact .nothing (hclosing.config.trans (hinner.config.trans hsetup.config))
      (hbefore.revertsTo.trans hrestored.revertsTo) (hcounted.trans (.of_restored hrestored))
      ((SameCode.of_changes hbefore).trans (.of_same hrestored.presentAccount_eq))
  | true =>
    have hreverts := (Engine.endFrame_success hend hsuccess).2.1
    rw [if_pos rfl]
    cases hcase : child.kind with
    | call checkpoint =>
      rw [hcase] at hend
      rw [Engine.endCall_ok hend hsuccess]
      exact hopened.trans hinner
    | create checkpoint address =>
      obtain ⟨hfree, first, hfirst, hnonce⟩ := Engine.start_create hstart hcase
      have hendures : base.Endures (Engine.endFrame child.kind ending inside).2.journal :=
        Engine.endFrame_endures hkind hfresh hinside (hendowed.trans hinner.endures)
      rw [hend] at hendures
      rw [hcase] at hend
      obtain ⟨hbyte0, hsize, hcharge, hash, j, hcode, rfl⟩ :=
        Engine.deploy_ok (Engine.endCreate_ok hend hsuccess).1
      obtain ⟨⟨previous, hprevious, hnew⟩, hothers⟩ := setCode_ok hcode
      -- the account has kept its nonce up to here
      obtain ⟨account, haccount, hsame⟩ := hinner.endures address first hfirst
      rw [hprevious] at haccount
      cases haccount
      have hle := hsame.nonce
      have hconfig : inside.config = e.config := hinner.config.trans hsetup.config
      rw [hconfig] at hbyte0 hsize
      refine (hopened.trans hinner).deployed ?_ hfree.not_stands ?_
        (hbefore.revertsTo.trans (hinside.trans hreverts)) (hcounted.trans hendures) (by omega)
        hnew hothers
      · exact ⟨hfree, hsize, fun hlondon hne hbyte => hbyte0 ⟨hlondon, hne, hbyte⟩,
          Gas.codeDeposit_paid houtput hcharge⟩
      · -- inside the frame its own address was taken
        intro hmem
        obtain ⟨c, hc, hcaddress⟩ := List.mem_map.mp hmem
        refine hinner.fresh c hc ?_
        rw [hcaddress]
        exact ⟨first, hfirst, .inl hnonce⟩

/-- **What a frame creates up to where its code ends**, with all frames within. -/
theorem Creates.installed {log : List (Creation β)} {last : Ending × Engine β}
    (h : Creates e act answer log last) :
    Installed e log last.2 ∧ last.1.output.size ≤ outputLimit := by
  induction h with
  | ended hrun => exact ⟨Activation.runOn_installed hrun, Activation.runOn_output hrun⟩
  | settled hrun hstart _ ih =>
    have hbefore := (Activation.runOn_installed hrun).trans (Request.start_installed hstart)
    exact ⟨hbefore.trans ih.1, ih.2⟩
  | entered hrun hstart _ hend _ ihchild ihrest =>
    have hclosed := Installed.closed hstart ihchild.1 ihchild.2 hend
    have hbefore := (Activation.runOn_installed hrun).trans hclosed
    exact ⟨hbefore.trans ihrest.1, ihrest.2⟩

theorem Request.Creates.installed {log : List (Creation β)} {out : FrameResult × Engine β}
    (h : request.Creates e log out) : Installed e log out.2 := by
  cases h with
  | settled hstart => exact Request.start_installed hstart
  | entered hstart hinner hend =>
    obtain ⟨hinstalled, houtput⟩ := hinner.installed
    exact .closed hstart hinstalled houtput hend

end Steps

namespace Engine

end Engine

end Evm
