import Evm.Engine
import Evm.Proofs.Frame.Authority
import Evm.Proofs.Journal.Footprint

/-! # What is done to the state on behalf of an account

    An engine is the host of its frames, and every use that a frame makes of
    it is a sequence of edits of the state. `Edit.By self isStatic` is the set
    of edits that may be made on behalf of the account `self`: it may look at
    every account and credit any of them, but all other writes are to `self`,
    and a static frame makes none at all.

    That frames are confined to the authority of their context
    (`Exec.resume_confined`) then says that a run of a frame makes only edits
    on behalf of its own account.
-/

namespace Evm

open Journal

/-! ## Edits on behalf of an account -/

/-- The edits that may be made on behalf of an account, by a frame that is
    static or not. -/
def Edit.By (self : Address) (isStatic : Bool) : Edit → Prop
  | .readAccount _ | .learnCode _ _ | .warmAddress _ => True
  | .readSlot s | .warmSlot s => s.address = self
  | .account a previous new =>
    isStatic = false ∧ (a = self ∨ ∃ amount, Credited amount previous new)
  | .storage s _ | .transient s _ => s.address = self ∧ isStatic = false
  | .log entry => entry.address = self ∧ isStatic = false
  | .queueCode _ => isStatic = false
  | .created a | .destroyed a => a = self ∧ isStatic = false

/-- Those of them that a frame makes by itself: of the accounts it changes
    nothing but balances, and it sets no code and creates nothing. -/
def Edit.Within (self : Address) (isStatic : Bool) (e : Edit) : Prop :=
  e.By self isStatic ∧
    match e with
    | .account _ previous new => ∃ balance, new = { previous.getD .empty with balance }
    | .queueCode _ | .created _ => False
    | _ => True

namespace Engine

variable {β : Type} [Backend β] {ok : Edit → Prop} {e e' e'' : Engine β}

/-- Edits out of a set were made to the state of an engine, and nothing else
    of it changed. -/
def Edited (ok : Edit → Prop) (e e' : Engine β) : Prop :=
  Changes ok e.journal e'.journal ∧ e' = { e with journal := e'.journal }

namespace Edited

theorem refl (e : Engine β) : Edited ok e e := ⟨.refl _, rfl⟩

theorem trans (h : Edited ok e e') (h' : Edited ok e' e'') : Edited ok e e'' := by
  refine ⟨h.1.trans h'.1, ?_⟩
  rw [h'.2, h.2]

theorem mono {ok' : Edit → Prop} (himp : ∀ edit, ok edit → ok' edit) (h : Edited ok e e') :
    Edited ok' e e' :=
  ⟨h.1.mono himp, h.2⟩

/-- A change of the state alone. -/
theorem of_changes {journal : Journal β} (h : Changes ok e.journal journal) :
    Edited ok e { e with journal } :=
  ⟨h, rfl⟩

end Edited

/-! ## Operations for frames -/

section Operations

variable {α γ : Type} {a : Address} {s : Slot}

/-- An operation for a frame makes edits out of a set. -/
def HostEdits (ok : Edit → Prop) (op : HostM (Engine β) α) : Prop :=
  ∀ e, Edited ok e (endState (op e))

namespace HostEdits

protected theorem pure (a : α) : HostEdits ok (pure a : HostM (Engine β) α) := fun e => .refl e

theorem bind {op : HostM (Engine β) α} {next : α → HostM (Engine β) γ} (hop : HostEdits ok op)
    (hnext : ∀ a, HostEdits ok (next a)) : HostEdits ok (op >>= next) := by
  intro e
  have hedited := hop e
  rw [bind_apply]
  cases h : op e with
  | ok a e' =>
    rw [h] at hedited
    exact hedited.trans (hnext a e')
  | error err e' =>
    rw [h] at hedited
    exact hedited

theorem ite {p : Prop} [Decidable p] {op op' : HostM (Engine β) α}
    (hthen : p → HostEdits ok op) (helse : ¬p → HostEdits ok op') :
    HostEdits ok (if p then op else op') := by
  by_cases h : p
  · rw [if_pos h]
    exact hthen h
  · rw [if_neg h]
    exact helse h

protected theorem get : HostEdits ok (get : HostM (Engine β) (Engine β)) := fun e => .refl e

theorem onState {op : JournalM β α} (hop : Edits ok op) :
    HostEdits ok (onState op : HostM (Engine β) α) := by
  intro e
  have hchanges := hop e.journal
  unfold Engine.onState
  cases h : op e.journal with
  | ok a j =>
    rw [h] at hchanges
    exact .of_changes hchanges
  | error err j =>
    rw [h] at hchanges
    exact .of_changes hchanges

theorem modifyState {f : Journal β → Journal β} (hf : ∀ j, Changes ok j (f j)) :
    HostEdits ok (modify (modifyState f) : HostM (Engine β) PUnit) :=
  fun e => .of_changes (hf e.journal)

omit [Backend β] in
theorem touch_apply (a : Address) (e : Engine β) :
    touch a e = .ok (e.journal.warmAddress a).1 { e with journal := (e.journal.warmAddress a).2 } :=
  rfl

omit [Backend β] in
theorem touchSlot_apply (s : Slot) (e : Engine β) :
    touchSlot s e = .ok (e.journal.warmSlot s).1 { e with journal := (e.journal.warmSlot s).2 } :=
  rfl

theorem touch (hwarm : ok (.warmAddress a)) : HostEdits ok (touch a : HostM (Engine β) Bool) := by
  intro e
  rw [touch_apply]
  exact .of_changes (warmAddress_changes e.journal hwarm)

theorem touchSlot (hwarm : ok (.warmSlot s)) :
    HostEdits ok (touchSlot s : HostM (Engine β) Bool) := by
  intro e
  rw [touchSlot_apply]
  exact .of_changes (warmSlot_changes e.journal hwarm)

theorem loadAccount (hwarm : ok (.warmAddress a)) (hread : ok (.readAccount a)) :
    HostEdits ok (Host.loadAccount a : HostM (Engine β) AccountLoad) :=
  (touch hwarm).bind fun _ => (onState (isEmpty_edits hread)).bind fun _ => .pure _

theorem balance (hwarm : ok (.warmAddress a)) (hread : ok (.readAccount a)) :
    HostEdits ok (Host.balance a : HostM (Engine β) _) :=
  (touch hwarm).bind fun _ => (onState (balance_edits hread)).bind fun _ => .pure _

theorem code (hwarm : ok (.warmAddress a)) (hread : ok (.readAccount a))
    (hlearn : ∀ hash c, ok (.learnCode hash c)) :
    HostEdits ok (Host.code a : HostM (Engine β) _) :=
  (touch hwarm).bind fun _ => (onState (code_edits hread hlearn)).bind fun _ => .pure _

theorem codeHash (hwarm : ok (.warmAddress a)) (hread : ok (.readAccount a))
    (hlearn : ∀ hash c, ok (.learnCode hash c)) :
    HostEdits ok (Host.codeHash a : HostM (Engine β) _) := by
  refine (touch hwarm).bind fun _ => (onState (isEmpty_edits hread)).bind fun _ => ?_
  refine .ite (fun _ => .pure _) fun _ => ?_
  exact (onState (code_edits hread hlearn)).bind fun _ => .pure _

theorem recentBlockHash (number : Word) :
    HostEdits ok (recentBlockHash number : HostM (Engine β) Hash) :=
  HostEdits.get.bind fun _ => .ite (fun _ => .pure _) fun _ => onState (blockHash_edits _)

theorem sload (hwarm : ok (.warmSlot s)) (hread : ok (.readSlot s)) :
    HostEdits ok (Host.sload s : HostM (Engine β) _) :=
  (touchSlot hwarm).bind fun _ => (onState (storage_edits hread)).bind fun _ => .pure _

theorem sstore {value : Word} (hwarm : ok (.warmSlot s)) (hread : ok (.readSlot s))
    (hwrite : ok (.storage s value)) :
    HostEdits ok (Host.sstore s value : HostM (Engine β) _) := by
  refine (touchSlot hwarm).bind fun _ => (onState (slot_edits hread)).bind fun _ => ?_
  exact (onState (setStorage_edits hread hwrite)).bind fun _ => .pure _

/-- A destruction takes from the account that is destroyed and credits the
    beneficiary. -/
theorem destroy {address target : Address} :
    HostEdits (Edit.Within address false) (destroy address target : HostM (Engine β) _) := by
  have hread : ∀ a, Edit.Within address false (.readAccount a) := fun _ => ⟨trivial, trivial⟩
  have hsweep : ∀ balance, HostEdits (Edit.Within address false)
      (sweep address target balance : HostM (Engine β) Unit) := by
    intro balance
    refine .ite (fun _ => onState ?_) fun _ => .pure _
    refine transfer_edits hread ?_ ?_
    · intro _ _ previous new hdebited
      exact ⟨⟨rfl, .inl rfl⟩, _, hdebited.2⟩
    · intro _ _ previous new hcredited
      exact ⟨⟨rfl, .inr ⟨balance, hcredited⟩⟩, _, hcredited.2⟩
  have hdelete : HostEdits (Edit.Within address false)
      (scheduleDeletion address : HostM (Engine β) Unit) := by
    refine HostEdits.get.bind fun _ => .ite (fun _ => ?_) fun _ => .pure _
    have hempty : ∀ previous : Option Account, Edit.Within address false
        (.account address previous { previous.getD .empty with balance := 0 }) :=
      fun _ => ⟨⟨rfl, .inl rfl⟩, 0, rfl⟩
    refine (onState (setBalance_edits (hread _) hempty)).bind fun _ => ?_
    exact modifyState fun j => markDestroyed_changes j ⟨⟨rfl, rfl⟩, trivial⟩
  have hwarm : Edit.Within address false (.warmAddress target) := ⟨trivial, trivial⟩
  unfold Engine.destroy
  refine (touch hwarm).bind fun _ => (onState (balance_edits (hread _))).bind fun balance => ?_
  refine (onState (isEmpty_edits (hread _))).bind fun _ => HostEdits.get.bind fun _ => ?_
  exact (hsweep balance).bind fun _ => hdelete.bind fun _ => .pure _

end HostEdits

end Operations

/-! ## Uses by frames -/

variable {ctx : FrameContext}

/-- **What a frame has the authority for are edits on behalf of its account**,
    and of accounts it changes only balances. -/
theorem use_within (use : HostUse) (h : use.AllowedIn ctx) (e : Engine β) :
    Edited (Edit.Within ctx.address ctx.isStatic) e (use.on e) := by
  have hread : ∀ a, Edit.Within ctx.address ctx.isStatic (.readAccount a) :=
    fun _ => ⟨trivial, trivial⟩
  have hwarm : ∀ a, Edit.Within ctx.address ctx.isStatic (.warmAddress a) :=
    fun _ => ⟨trivial, trivial⟩
  have hlearn : ∀ hash c, Edit.Within ctx.address ctx.isStatic (.learnCode hash c) :=
    fun _ _ => ⟨trivial, trivial⟩
  cases use with
  | loadAccount a => exact HostEdits.loadAccount (hwarm a) (hread a) e
  | balance a => exact HostEdits.balance (hwarm a) (hread a) e
  | code a => exact HostEdits.code (hwarm a) (hread a) hlearn e
  | codeHash a => exact HostEdits.codeHash (hwarm a) (hread a) hlearn e
  | blockHash number => exact HostEdits.recentBlockHash number e
  -- storage is reached at the frame's own address only
  | sload s => exact HostEdits.sload ⟨h, trivial⟩ ⟨h, trivial⟩ e
  | sstore s value => exact HostEdits.sstore ⟨h.1, trivial⟩ ⟨h.1, trivial⟩ ⟨h, trivial⟩ e
  | tload s => exact .refl e
  | tstore s value => exact HostEdits.modifyState (fun j => tstore_changes j ⟨h, trivial⟩) e
  | log entry => exact HostEdits.modifyState (fun j => addLog_changes j ⟨h, trivial⟩) e
  | selfDestruct address target =>
    obtain ⟨rfl, hwritable⟩ := h
    rw [hwritable]
    exact HostEdits.destroy e

/-- A sequence of uses that a context allows. -/
theorem uses_within (h : Uses ctx e e') : Edited (Edit.Within ctx.address ctx.isStatic) e e' := by
  induction h with
  | refl => exact .refl e
  | tail _ hstep ih =>
    obtain ⟨use, hallowed, rfl⟩ := hstep
    exact ih.trans (use_within use hallowed _)

theorem uses_edited (h : Uses ctx e e') : Edited (Edit.By ctx.address ctx.isStatic) e e' :=
  (uses_within h).mono fun _ hwithin => hwithin.1

end Engine

end Evm
