import Evm.Proofs.Engine.Authority
import Evm.Proofs.Frame.Recorder

/-! # What frames are told of their accesses

    An engine makes warm what a frame has it access, and tells the frame
    whether it was cold before. What follows in the same operation makes no
    other access, so that one operation is one access (`Accesses`).

    Over a recorder of an engine every instruction is then right about what is
    cold (`Exec.reports_right`), and what it was told of is what it has made
    warm (`Exec.tick_warmBy`).
-/

namespace Evm

open Journal

namespace Engine

variable {β α γ : Type} [Backend β] {isCold : α → Bool} {cold : Bool}

/-! ## Operations for frames -/

/-- An operation that makes one access and tells whether it was cold. -/
def Accesses (key : AccessKey) (isCold : α → Bool) (op : HostM (Engine β) α) : Prop :=
  ∀ e answer e', op e = .ok answer e' →
    (isCold answer = true ↔ ¬e.journal.IsWarm key) ∧
      ∀ k, e'.journal.IsWarm k ↔ e.journal.IsWarm k ∨ k = key

/-- An operation that makes no access and hands on what was told of one. -/
structure HandsOn (isCold : α → Bool) (cold : Bool) (op : HostM (Engine β) α) : Prop where
  spares : HostEdits Edit.SparesWarmth op
  tells : ∀ e answer e', op e = .ok answer e' → isCold answer = cold

namespace HandsOn

protected theorem pure {answer : α} (h : isCold answer = cold) :
    HandsOn isCold cold (pure answer : HostM (Engine β) α) := by
  refine ⟨.pure answer, ?_⟩
  rintro e _ _ ⟨⟩
  exact h

theorem bind {op : HostM (Engine β) γ} {next : γ → HostM (Engine β) α}
    (hop : HostEdits Edit.SparesWarmth op) (hnext : ∀ c, HandsOn isCold cold (next c)) :
    HandsOn isCold cold (op >>= next) := by
  refine ⟨hop.bind fun c => (hnext c).spares, fun e answer e' h => ?_⟩
  obtain ⟨c, e1, _, hrest⟩ := bind_ok h
  exact (hnext c).tells e1 answer e' hrest

theorem ite {p : Prop} [Decidable p] {op op' : HostM (Engine β) α}
    (hthen : HandsOn isCold cold op) (helse : HandsOn isCold cold op') :
    HandsOn isCold cold (if p then op else op') := by
  split
  · exact hthen
  · exact helse

end HandsOn

namespace Accesses

variable {a : Address} {s : Slot}

omit [Backend β] in
theorem touch : Accesses (.account a) id (touch a : HostM (Engine β) Bool) := by
  intro e answer e' hop
  rw [HostEdits.touch_apply] at hop
  cases hop
  exact ⟨e.journal.warmAddress_isCold a, fun key => e.journal.warmAddress_isWarm key a⟩

omit [Backend β] in
theorem touchSlot : Accesses (.slot s) id (touchSlot s : HostM (Engine β) Bool) := by
  intro e answer e' hop
  rw [HostEdits.touchSlot_apply] at hop
  cases hop
  exact ⟨e.journal.warmSlot_isCold s, fun key => e.journal.warmSlot_isWarm key s⟩

/-- An access, and what hands on what it told. -/
theorem bind {key : AccessKey} {mark : HostM (Engine β) Bool}
    {rest : Bool → HostM (Engine β) α} (hmark : Accesses key id mark)
    (hrest : ∀ cold, HandsOn isCold cold (rest cold)) : Accesses key isCold (mark >>= rest) := by
  intro e answer e'' hop
  obtain ⟨cold, e', hmarked, hhanded⟩ := bind_ok hop
  obtain ⟨hcold, hwarm⟩ := hmark e cold e' hmarked
  have hedited := (hrest cold).spares e'
  rw [hhanded] at hedited
  refine ⟨?_, fun key => ?_⟩
  · rw [(hrest cold).tells e' answer e'' hhanded]
    exact hcold
  · rw [← hwarm]
    exact iff_of_eq (congrFun hedited.1.isWarm key)

theorem loadAccount :
    Accesses (.account a) AccountLoad.isCold (Host.loadAccount a : HostM (Engine β) _) :=
  touch.bind fun _ => .bind (.onState (isEmpty_edits ⟨nofun, nofun⟩)) fun _ => .pure rfl

theorem balance : Accesses (.account a) Loaded.isCold (Host.balance a : HostM (Engine β) _) :=
  touch.bind fun _ => .bind (.onState (balance_edits ⟨nofun, nofun⟩)) fun _ => .pure rfl

theorem code : Accesses (.account a) Loaded.isCold (Host.code a : HostM (Engine β) _) :=
  touch.bind fun _ => .bind (.onState (code_edits ⟨nofun, nofun⟩ fun _ _ => ⟨nofun, nofun⟩))
    fun _ => .pure rfl

theorem codeHash : Accesses (.account a) Loaded.isCold (Host.codeHash a : HostM (Engine β) _) := by
  refine touch.bind fun _ => .bind (.onState (isEmpty_edits ⟨nofun, nofun⟩)) fun _ => ?_
  exact .ite (.pure rfl) (.bind
    (.onState (code_edits ⟨nofun, nofun⟩ fun _ _ => ⟨nofun, nofun⟩)) fun _ => .pure rfl)

theorem sload : Accesses (.slot s) Loaded.isCold (Host.sload s : HostM (Engine β) _) :=
  touchSlot.bind fun _ => .bind (.onState (storage_edits ⟨nofun, nofun⟩)) fun _ => .pure rfl

theorem sstore {value : Word} :
    Accesses (.slot s) StoreOutcome.isCold (Host.sstore s value : HostM (Engine β) _) := by
  refine touchSlot.bind fun _ => .bind (.onState (slot_edits ⟨nofun, nofun⟩)) fun _ => ?_
  exact .bind (.onState (setStorage_edits ⟨nofun, nofun⟩ ⟨nofun, nofun⟩)) fun _ => .pure rfl

/-- Moving the balance and deleting the account make no further access. -/
theorem destroy {target : Address} :
    Accesses (.account target) DestructOutcome.isCold
      (destroy a target : HostM (Engine β) _) := by
  have hsweep : ∀ balance, HostEdits Edit.SparesWarmth
      (sweep a target balance : HostM (Engine β) Unit) := fun balance =>
    .ite (fun _ => .onState (transfer_edits (fun _ => ⟨nofun, nofun⟩)
      (fun _ _ _ _ _ => ⟨nofun, nofun⟩) fun _ _ _ _ _ => ⟨nofun, nofun⟩)) fun _ => .pure _
  have hdelete : HostEdits Edit.SparesWarmth (scheduleDeletion a : HostM (Engine β) Unit) := by
    refine HostEdits.get.bind fun _ => .ite (fun _ => ?_) fun _ => .pure _
    refine (HostEdits.onState (setBalance_edits ⟨nofun, nofun⟩ fun _ => ⟨nofun, nofun⟩)).bind
      fun _ => ?_
    exact .modifyState fun j => markDestroyed_changes j ⟨nofun, nofun⟩
  refine touch.bind fun _ => .bind (.onState (balance_edits ⟨nofun, nofun⟩)) fun balance => ?_
  refine .bind (.onState (isEmpty_edits ⟨nofun, nofun⟩)) fun _ => .bind .get fun _ => ?_
  exact .bind (hsweep balance) fun _ => .bind hdelete fun _ => .pure rfl

end Accesses

/-! ## Uses by frames -/

/-- What a use of a host leaves on record: nothing, or the one access that it
    made. What a use that fails has accessed is not told. -/
inductive Noted (r : Recorder (Engine β)) :
    EStateM.Result EvmError (Recorder (Engine β)) PUnit → Prop where
  | silent {r' : Recorder (Engine β)} : r'.record = r.record →
    r'.host.journal.IsWarm = r.host.journal.IsWarm → Noted r (.ok ⟨⟩ r')
  | reported {r' : Recorder (Engine β)} {report : Report} :
    r'.record = .report report :: r.record →
    (report.isCold = true ↔ ¬r.host.journal.IsWarm report.key) →
    (∀ key, r'.host.journal.IsWarm key ↔ r.host.journal.IsWarm key ∨ key = report.key) →
    Noted r (.ok ⟨⟩ r')
  | failed {err : EvmError} {r' : Recorder (Engine β)} : r'.record = r.record →
    Noted r (.error err r')

omit [Backend β] in
theorem Accesses.noted {key : AccessKey} {op : HostM (Engine β) α} (h : Accesses key isCold op)
    (r : Recorder (Engine β)) : Noted r (Functor.discard (Recorder.reporting key isCold op) r) := by
  cases hop : op r.host with
  | ok answer e' =>
    obtain ⟨hcold, hwarm⟩ := h r.host answer e' hop
    rw [discard_ok (by rw [Recorder.reporting, hop])]
    exact .reported rfl hcold hwarm
  | error err e' =>
    rw [discard_error (by rw [Recorder.reporting, hop])]
    exact .failed rfl

theorem HostEdits.noted {op : HostM (Engine β) α} (h : HostEdits Edit.SparesWarmth op)
    (r : Recorder (Engine β)) : Noted r (Functor.discard (Recorder.passing op) r) := by
  have hedited := h r.host
  cases hop : op r.host with
  | ok answer e' =>
    rw [hop] at hedited
    rw [discard_ok (by rw [Recorder.passing, hop])]
    exact .silent rfl hedited.1.isWarm
  | error err e' =>
    rw [discard_error (by rw [Recorder.passing, hop])]
    exact .failed rfl

/-- **What a use leaves on record.** -/
theorem use_noted (use : HostUse) (r : Recorder (Engine β)) : Noted r (use.perform r) := by
  cases use with
  | loadAccount a => exact Accesses.loadAccount.noted r
  | balance a => exact Accesses.balance.noted r
  | code a => exact Accesses.code.noted r
  | codeHash a => exact Accesses.codeHash.noted r
  | sload s => exact Accesses.sload.noted r
  | sstore s value => exact Accesses.sstore.noted r
  | selfDestruct address target => exact Accesses.destroy.noted r
  | blockHash number => exact (HostEdits.recentBlockHash number).noted r
  | tload s => exact (HostEdits.get.bind fun _ => .pure _).noted r
  | tstore s value =>
    exact (HostEdits.modifyState fun j => tstore_changes j ⟨nofun, nofun⟩).noted r
  | log entry => exact (HostEdits.modifyState fun j => addLog_changes j ⟨nofun, nofun⟩).noted r

end Engine

/-! ## What is warm -/

/-- What was seen before a record or is on it is warm, and nothing else. -/
def Journal.WarmBy {β : Type} (seen : AccessKey → Prop) (record : List Entry) (j : Journal β) :
    Prop :=
  ∀ key, j.IsWarm key ↔ seen key ∨ key ∈ record.map Entry.key

namespace Journal.WarmBy

variable {β : Type} {seen : AccessKey → Prop} {record added : List Entry} {j j' : Journal β}

theorem congr (h : j.WarmBy seen record) (hsame : j'.IsWarm = j.IsWarm) :
    j'.WarmBy seen record :=
  fun key => by rw [hsame, h key]

/-- What was paid has no part in it. -/
theorem charge (h : j.WarmBy seen record) (amount : Nat) :
    j.WarmBy seen (record.map (Entry.charge amount)) := by
  intro key
  rw [h key, Entry.map_key_charge]

/-- What becomes warm is added to the record. -/
theorem add (h : j.WarmBy seen record) (hadded : j'.WarmBy j.IsWarm added) :
    j'.WarmBy seen (added ++ record) := by
  intro key
  rw [hadded, h key, List.map_append, List.mem_append, or_assoc, Or.comm (a := key ∈ _)]

end Journal.WarmBy

/-! ## Instructions -/

section Instructions

variable {β : Type} [Backend β] {seen : AccessKey → Prop} {ok : HostUse → Prop}

omit [Backend β] in
/-- The record of a recorder is right, and together with what was seen before it
    tells what is warm. -/
structure Recorder.Tracks (seen : AccessKey → Prop) (r : Recorder (Engine β)) : Prop where
  right : Right seen r.record
  warm : r.host.journal.WarmBy seen r.record

omit [Backend β] in
/-- A use that succeeds is tracked. -/
theorem Engine.Noted.tracks {r r' : Recorder (Engine β)} (h : Noted r (.ok ⟨⟩ r'))
    (hr : r.Tracks seen) : r'.Tracks seen := by
  cases h with
  | silent hrecord hwarm => exact ⟨hrecord ▸ hr.right, hrecord ▸ hr.warm.congr hwarm⟩
  | @reported _ report hrecord hcold hwarm =>
    rw [hr.warm, not_or] at hcold
    have hadded : r'.host.journal.WarmBy r.host.journal.IsWarm [.report report] := by
      intro key
      rw [hwarm, List.map_singleton, List.mem_singleton, Entry.key]
    exact ⟨hrecord ▸ ⟨hcold, hr.right⟩, hrecord ▸ hr.warm.add hadded⟩

namespace Exec

variable {x y : Exec (Recorder (Engine β))}

theorem SmallSteps.tracks (h : SmallSteps ok x y) (hx : x.host.Tracks seen) :
    y.host.Tracks seen := by
  refine h.keeps (P := fun z => z.host.Tracks seen) ?_ hx
  rintro y z hstep hy
  cases hstep with
  | @host use _ _ hperform =>
    have hnoted := Engine.use_noted use y.host
    rw [hperform] at hnoted
    exact hnoted.tracks hy
  | _ => exact hy

/-- A block that fails has a record that is right, too. -/
theorem FailsAt.right {e : EvmError} (h : FailsAt ok e x y) (hx : x.host.Tracks seen) :
    Right seen y.host.record := by
  cases h with
  | own _ => exact hx.right
  | @host use _ _ hperform =>
    have hnoted := Engine.use_noted use x.host
    rw [hperform] at hnoted
    cases hnoted with
    | failed hrecord => exact hrecord ▸ hx.right

variable {x y : Exec (Engine β)} {action : Option Action}

omit [Backend β] in
theorem recorded_tracks : x.recorded.host.Tracks x.host.journal.IsWarm :=
  ⟨trivial, fun key => by simp [recorded]⟩

/-- **What an instruction is told is right**: what is cold was not warm before it
    and not accessed in the course of it. -/
theorem reports_right (x : Exec (Engine β)) : Right x.host.journal.IsWarm x.reports := by
  have hticked := tick_any x.recorded
  refine Right.charge ?_ _
  generalize tick x.recorded = out at hticked
  cases hticked with
  | done hsteps _ =>
    rw [settle_ok]
    exact (SmallSteps.tracks hsteps recorded_tracks).right
  | halted hsteps hfails => exact hfails.right (SmallSteps.tracks hsteps recorded_tracks)

/-- **What an instruction makes warm** is what it was told of, unless it fails. -/
theorem tick_warmBy (h : tick x = (action, y))
    (hends : ∀ ending, action = some (.finished ending) → ending.exit.isSuccess = true) :
    y.host.journal.WarmBy x.host.journal.IsWarm x.reports := by
  obtain ⟨haction, hbeside⟩ := tick_recorded x
  have hticked := tick_any x.recorded
  rw [h] at haction hbeside
  have hhost : (tick x.recorded).2.host.host = y.host := hbeside.host
  rw [← hhost]
  refine WarmBy.charge ?_ _
  generalize tick x.recorded = out at hticked haction
  cases hticked with
  | done hsteps _ =>
    rw [settle_ok]
    exact (SmallSteps.tracks hsteps recorded_tracks).warm
  | halted _ _ =>
    have hsuccess := hends _ haction.symm
    cases hsuccess

end Exec

end Instructions

end Evm
