import Evm.Proofs.Frame.Lockstep
import Evm.Proofs.Frame.Surcharge

/-! # Hosts that keep a record

    A recorder is a host that answers as the host within it does, and notes of
    each account or slot that a frame had it access whether that was told to be
    cold. A frame cannot tell the two hosts apart, so running an instruction
    once more over a recorder shows what it was told. What it paid for that is
    on its meter, and is put on record with it (`Exec.reports`). An instruction
    that succeeds has paid the surcharge just if it was told of a first access
    (`Exec.reports_of_ok`).
-/

namespace Evm

/-! ## Records -/

/-- An access that a frame made through its host, with what it was told. -/
structure Report where
  key : AccessKey
  isCold : Bool
  /-- What the frame has paid on top for it. -/
  surcharge : Nat
  deriving DecidableEq

/-- What is on record of what was made warm. -/
inductive Entry where
  | report (r : Report)
  /-- The address that an attempt to create a contract derived. -/
  | derived (a : Address)
  deriving DecidableEq

namespace Entry

/-- What was made warm. -/
def key : Entry → AccessKey
  | .report r => r.key
  | .derived a => .account a

/-- What was paid for a report shows when the instruction is done. -/
def charge (amount : Nat) : Entry → Entry
  | .report r => .report { r with surcharge := amount }
  | .derived a => .derived a

@[simp] theorem map_key_charge (amount : Nat) (record : List Entry) :
    (record.map (charge amount)).map key = record.map key := by
  rw [List.map_map]
  refine List.map_congr_left fun entry _ => ?_
  cases entry <;> rfl

/-- What a surcharge was paid for. -/
def surcharged? : Entry → Option AccessKey
  | .report r => if 0 < r.surcharge then some r.key else none
  | .derived _ => none

/-- The entry is of nothing paid, or of something that was told to be cold. -/
def Justified : Entry → Prop
  | .report r => 0 < r.surcharge → r.isCold = true
  | .derived _ => True

/-- What was told to be cold. -/
def cold? : Entry → Option AccessKey
  | .report r => if r.isCold then some r.key else none
  | .derived _ => none

theorem key_of_cold {entry : Entry} {key : AccessKey} (h : entry.cold? = some key) :
    entry.key = key := by
  cases entry with
  | derived a => cases h
  | report r =>
    cases hcold : r.isCold with
    | true => exact Option.some.inj (by rwa [cold?, hcold] at h)
    | false => rw [cold?, hcold] at h; cases h

/-- On a record on which nothing is paid without cause, what a surcharge was paid for is
    a part of what was told to be cold. -/
theorem surcharged_sublist {record : List Entry} (h : ∀ entry ∈ record, entry.Justified) :
    (record.filterMap surcharged?).Sublist (record.filterMap cold?) := by
  induction record with
  | nil => exact List.Sublist.refl []
  | cons entry earlier ih =>
    have hearlier := ih fun entry hentry => h entry (List.mem_cons_of_mem _ hentry)
    cases entry with
    | derived a => exact hearlier
    | report r =>
      by_cases hpaid : 0 < r.surcharge
      · have hsurcharged : surcharged? (.report r) = some r.key := if_pos hpaid
        have hcold : cold? (.report r) = some r.key := if_pos (h _ List.mem_cons_self hpaid)
        rw [List.filterMap_cons_some hsurcharged, List.filterMap_cons_some hcold]
        exact hearlier.cons_cons r.key
      · have hfree : surcharged? (.report r) = none := if_neg hpaid
        rw [List.filterMap_cons_none hfree]
        refine hearlier.trans ?_
        rw [← List.singleton_append, List.filterMap_append]
        exact List.sublist_append_right _ _

end Entry

/-- A record, newest entry first, is right about what is cold: that is what was
    not seen before the record and is not on it earlier. -/
def Right (seen : AccessKey → Prop) : List Entry → Prop
  | [] => True
  | .derived _ :: earlier => Right seen earlier
  | .report r :: earlier =>
    (r.isCold = true ↔ ¬seen r.key ∧ r.key ∉ earlier.map Entry.key) ∧ Right seen earlier

namespace Right

variable {seen : AccessKey → Prop} {later earlier : List Entry}

/-- A record was right all along. -/
theorem suffix (h : Right seen (later ++ earlier)) : Right seen earlier := by
  induction later with
  | nil => exact h
  | cons entry later ih =>
    cases entry with
    | derived a => exact ih h
    | report r => exact ih h.2

/-- What is told somewhere on the record. -/
theorem report {r : Report} (h : Right seen (later ++ .report r :: earlier)) :
    r.isCold = true ↔ ¬seen r.key ∧ r.key ∉ earlier.map Entry.key :=
  h.suffix.1

/-- A record that is right about what an earlier one has made warm continues it. -/
theorem continues {warm : AccessKey → Prop} (h : Right warm later) (hearlier : Right seen earlier)
    (hwarm : ∀ key, warm key ↔ seen key ∨ key ∈ earlier.map Entry.key) :
    Right seen (later ++ earlier) := by
  induction later with
  | nil => exact hearlier
  | cons entry later ih =>
    cases entry with
    | derived a => exact ih h
    | report r =>
      refine ⟨?_, ih h.2⟩
      show _ ↔ ¬seen r.key ∧ r.key ∉ (later ++ earlier).map Entry.key
      rw [h.1, hwarm, List.map_append, List.mem_append, not_or, not_or]
      exact ⟨fun ⟨⟨hseen, hearly⟩, hlate⟩ => ⟨hseen, hlate, hearly⟩,
        fun ⟨hseen, hlate, hearly⟩ => ⟨⟨hseen, hearly⟩, hlate⟩⟩

/-- What was paid has no part in it. -/
theorem charge {record : List Entry} (h : Right seen record) (amount : Nat) :
    Right seen (record.map (Entry.charge amount)) := by
  induction record with
  | nil => exact h
  | cons entry earlier ih =>
    cases entry with
    | derived a => exact ih h
    | report r =>
      refine ⟨?_, ih h.2⟩
      rw [Entry.map_key_charge]
      exact h.1

/-- Derived addresses are not told of. -/
theorem derived {record : List Entry} (h : Right seen record) (addresses : List Address) :
    Right seen (addresses.map .derived ++ record) := by
  induction addresses with
  | nil => exact h
  | cons a addresses ih => exact ih

/-- **Nothing is told to be cold twice**, nor what was seen before. -/
theorem cold_once {record : List Entry} (h : Right seen record) :
    (record.filterMap Entry.cold?).Nodup ∧ ∀ key ∈ record.filterMap Entry.cold?, ¬seen key := by
  induction record with
  | nil => exact ⟨List.nodup_nil, nofun⟩
  | cons entry earlier ih =>
    cases entry with
    | derived a => exact ih h
    | report r =>
      obtain ⟨hnodup, hunseen⟩ := ih h.2
      cases hcold : r.isCold with
      | false =>
        rw [List.filterMap_cons_none (by rw [Entry.cold?, hcold]; rfl)]
        exact ⟨hnodup, hunseen⟩
      | true =>
        obtain ⟨hseen, hnew⟩ := h.1.mp hcold
        rw [List.filterMap_cons_some (b := r.key) (by rw [Entry.cold?, hcold]; rfl)]
        refine ⟨List.nodup_cons.mpr ⟨fun hmem => hnew ?_, hnodup⟩, fun key hkey => ?_⟩
        · obtain ⟨entry, hentry, hkey⟩ := List.mem_filterMap.mp hmem
          exact List.mem_map.mpr ⟨entry, hentry, Entry.key_of_cold hkey⟩
        · rcases List.mem_cons.mp hkey with rfl | hkey
          · exact hseen
          · exact hunseen key hkey

end Right

/-! ## Recorders -/

/-- The uses of a host that are accesses. -/
def HostUse.IsVisit : HostUse → Prop
  | .blockHash _ | .tload _ | .tstore _ _ | .log _ => False
  | _ => True

theorem HostUse.Suits.visits {use : HostUse} {op : Opcode} (h : use.Suits op)
    (huse : use.IsVisit) : op.Visits := by
  cases use with
  | loadAccount a => obtain ⟨scheme, rfl⟩ := h; trivial
  | balance a => rcases h with rfl | rfl <;> trivial
  | code a => rcases h with rfl | rfl <;> trivial
  | codeHash a => cases h; trivial
  | sload s => cases h; trivial
  | sstore s value => cases h; trivial
  | selfDestruct address target => cases h; trivial
  | _ => exact huse.elim

/-- A host that notes the accesses that it is told of, newest first. -/
structure Recorder (η : Type) where
  host : η
  record : List Entry

namespace Recorder

variable {η α : Type}

/-- An operation that is an access, as its answer tells. -/
def reporting (key : AccessKey) (isCold : α → Bool) (op : HostM η α) : HostM (Recorder η) α :=
  fun r =>
    match op r.host with
    | .ok a host => .ok a ⟨host, .report ⟨key, isCold a, 0⟩ :: r.record⟩
    | .error e host => .error e { r with host }

/-- An operation that is no access of an account or slot. -/
def passing (op : HostM η α) : HostM (Recorder η) α := fun r =>
  match op r.host with
  | .ok a host => .ok a { r with host }
  | .error e host => .error e { r with host }

instance [Host η] : Host (Recorder η) where
  env r := Host.env r.host
  config r := Host.config r.host
  loadAccount a := reporting (.account a) AccountLoad.isCold (Host.loadAccount a)
  balance a := reporting (.account a) Loaded.isCold (Host.balance a)
  code a := reporting (.account a) Loaded.isCold (Host.code a)
  codeHash a := reporting (.account a) Loaded.isCold (Host.codeHash a)
  blockHash number := passing (Host.blockHash number)
  sload s := reporting (.slot s) Loaded.isCold (Host.sload s)
  sstore s value := reporting (.slot s) StoreOutcome.isCold (Host.sstore s value)
  tload s := passing (Host.tload s)
  tstore s value := passing (Host.tstore s value)
  log entry := passing (Host.log entry)
  selfDestruct address target :=
    reporting (.account target) DestructOutcome.isCold (Host.selfDestruct address target)

/-- A recorder of a host. -/
def Of (r : Recorder η) (host : η) : Prop := r.host = host

theorem reporting_lockstep (key : AccessKey) (isCold : α → Bool) (op : HostM η α) :
    Lockstep Of (reporting key isCold op) op := by
  rintro ⟨host, record⟩ _ rfl
  unfold reporting
  cases op host with
  | ok a host' => exact .ok a rfl
  | error e host' => exact .error e rfl

theorem passing_lockstep (op : HostM η α) : Lockstep Of (passing op) op := by
  rintro ⟨host, record⟩ _ rfl
  unfold passing
  cases op host with
  | ok a host' => exact .ok a rfl
  | error e host' => exact .error e rfl

/-- **A recorder answers as its host does.** -/
theorem agrees [Host η] : HostsAgree (Of : Recorder η → η → Prop) where
  env _ _ h := congrArg Host.env h
  config _ _ h := congrArg Host.config h
  loadAccount _ := reporting_lockstep _ _ _
  balance _ := reporting_lockstep _ _ _
  code _ := reporting_lockstep _ _ _
  codeHash _ := reporting_lockstep _ _ _
  blockHash _ := passing_lockstep _
  sload _ := reporting_lockstep _ _ _
  sstore _ _ := reporting_lockstep _ _ _
  tload _ := passing_lockstep _
  tstore _ _ := passing_lockstep _
  log _ := passing_lockstep _
  selfDestruct _ _ := reporting_lockstep _ _ _

/-- A use that is no access is not noted. -/
theorem perform_record [Host η] {use : HostUse} {r r' : Recorder η}
    (huse : ¬use.IsVisit) (h : use.perform r = .ok ⟨⟩ r') : r'.record = r.record := by
  have hpassing {α : Type} (op : HostM η α) : (endState (passing op r)).record = r.record := by
    unfold passing
    cases op r.host <;> rfl
  have hend := HostUse.endState_perform use r
  rw [h, endState_ok] at hend
  rw [hend]
  cases use with
  | blockHash number => exact hpassing _
  | tload s => exact hpassing _
  | tstore s value => exact hpassing _
  | log entry => exact hpassing _
  | _ => exact absurd trivial huse

end Recorder

/-! ## Instructions over a recorder -/

namespace Exec

variable {η : Type} [Host η] {x : Exec η}

/-- A frame over a recorder of its host. -/
def recorded (x : Exec η) : Exec (Recorder η) := ⟨x.frame, ⟨x.host, []⟩⟩

/-- What an instruction was told of its accesses, newest first, with what it paid. -/
def reports (x : Exec η) : List Entry :=
  (tick x.recorded).2.host.record.map (Entry.charge x.surcharge)

/-- Over a recorder an instruction does what it does. -/
theorem tick_recorded (x : Exec η) :
    (tick x.recorded).1 = (tick x).1 ∧ Beside Recorder.Of (tick x.recorded).2 (tick x).2 := by
  have hstep := StepsBeside.step Recorder.agrees x.recorded x ⟨rfl, rfl⟩
  unfold tick
  generalize step x.recorded = result, step x = result' at hstep
  cases hstep with
  | error e hleft =>
    have hhalted := HostsAgree.halt e hleft
    exact ⟨congrArg some hhalted.1, hhalted.2⟩
  | ok s hleft =>
    cases s with
    | exit exit output =>
      refine ⟨?_, hleft⟩
      unfold settle
      dsimp only
      rw [hleft.frame]
    | _ => exact ⟨rfl, hleft⟩

/-- What becomes of a step that succeeds over a recorder. -/
theorem step_recorded {s : Step} {y : Exec η} (h : step x = .ok s y) :
    ∃ z : Exec (Recorder η), step x.recorded = .ok s z ∧ z.frame = y.frame ∧
      z.host.host = y.host ∧ x.reports = z.host.record.map (Entry.charge x.surcharge) := by
  have hstep := StepsBeside.step Recorder.agrees x.recorded x ⟨rfl, rfl⟩
  rw [h] at hstep
  generalize hresult : step x.recorded = result at hstep
  cases hstep with
  | ok s hleft =>
    refine ⟨_, rfl, hleft.frame, hleft.host, ?_⟩
    rw [reports, tick, hresult, settle_ok]

omit [Host η] in
/-- What a visit to a recorder is. -/
theorem told_reporting {α : Type} {key : AccessKey} {isCold : α → Bool} {op : HostM η α}
    {r r' : Recorder η} {visit : α → Visit} {v : Visit}
    (h : told (Recorder.reporting key isCold op) r visit = some (v, r'))
    (hkey : ∀ a, (visit a).key = key) (hcold : ∀ a, (visit a).isCold = isCold a) :
    told op r.host visit = some (v, r'.host) ∧
      r'.record = .report ⟨v.key, v.isCold, 0⟩ :: r.record := by
  unfold told Recorder.reporting at h
  unfold told
  cases hop : op r.host with
  | ok a host =>
    simp only [hop] at h
    cases h
    rw [hkey, hcold]
    exact ⟨rfl, rfl⟩
  | error e host =>
    simp only [hop] at h
    cases h

theorem visit?_recorded {op : Opcode} {v : Visit} {r : Recorder η}
    (h : x.recorded.visit? op = some (v, r)) :
    x.visit? op = some (v, r.host) ∧ r.record = [.report ⟨v.key, v.isCold, 0⟩] := by
  unfold visit? at h
  dsimp only at h
  split at h
  case h_10 => cases h
  case h_2 => exact told_reporting h (fun _ => rfl) fun _ => rfl
  all_goals
    next hstack =>
      have hstack : x.frame.stack = _ := hstack
      unfold visit?
      rw [hstack]
      exact told_reporting h (fun _ => rfl) fun _ => rfl

/-- An instruction that makes no access is told of none. -/
theorem reports_of_not_visits {s : Step} {y : Exec η} (h : step x = .ok s y)
    (hop : ∀ op, x.frame.opcode? = some op → ¬op.Visits) : x.reports = [] := by
  obtain ⟨z, hz, _, _, hreports⟩ := step_recorded h
  have hsilent : ∀ (use : HostUse) (op : Opcode),
      x.recorded.frame.opcode? = some op → use.Suits op → ¬use.IsVisit :=
    fun use op hat hsuits huse => hop op hat (hsuits.visits huse)
  obtain ⟨op, hstep, hmade⟩ := step_madeOf hsilent
  rw [hstep] at hz
  have hsmall : ∀ y z : Exec (Recorder η), SmallStep (fun use => ¬use.IsVisit) y z →
      y.host.record = [] → z.host.record = [] := by
    intro y z hstep hy
    cases hstep with
    | host huse hperform => rw [Recorder.perform_record huse hperform, hy]
    | _ => exact hy
  rw [hreports, (hmade.success hz).1.keeps hsmall rfl]
  rfl

/-- The report is of the access that the instruction has made, with the surcharge that it
    has paid for it: none, unless it was told of a first access. What the meter shows
    is the price that the access has in any case, and that surcharge. -/
def Accounts (x : Exec η) (s : Step) (y : Exec η) (r : Report) : Prop :=
  ∃ op visit, x.frame.opcode? = some op ∧ x.visit? op = some (visit, y.host) ∧
    r = ⟨visit.key, visit.isCold, if visit.isCold then op.surcharge else 0⟩ ∧
    x.worth = y.worth + s.sent + (Gas.static op + visit.price) + r.surcharge

/-- **An instruction that succeeds** has made one access and paid for it as it was told,
    or made none. -/
theorem reports_of_ok {s : Step} {y : Exec η} (h : step x = .ok s y) :
    x.reports = [] ∨ ∃ r, x.reports = [.report r] ∧ x.Accounts s y r := by
  by_cases hvisits : ∃ op, x.frame.opcode? = some op ∧ op.Visits
  · obtain ⟨op, hat, hop⟩ := hvisits
    obtain ⟨z, hz, hframe, hhost, hreports⟩ := step_recorded h
    obtain ⟨visit, hvisit, hpaid⟩ := step_pays (x := x.recorded) hat hop hz
    obtain ⟨hvisit, hrecord⟩ := visit?_recorded hvisit
    rw [hhost] at hvisit
    have hbefore : x.recorded.worth = x.worth := rfl
    have hafter : z.worth = y.worth := by
      unfold worth
      rw [hframe]
    rw [hbefore, hafter] at hpaid
    have hsurcharge := surcharge_eq hat hvisit h hpaid
    refine .inr ⟨_, ?_, op, visit, hat, hvisit, rfl, hpaid⟩
    rw [hreports, hrecord, hsurcharge]
    rfl
  · exact .inl (reports_of_not_visits h fun op hat hop => hvisits ⟨op, hat, hop⟩)

/-- A surcharge is paid for first accesses only. -/
theorem reports_surcharged (x : Exec η) : ∀ entry ∈ x.reports, entry.Justified := by
  intro entry hentry
  cases hstep : step x with
  | ok s y =>
    rcases reports_of_ok hstep with hnone | ⟨r, hreports, _, visit, _, _, rfl, _⟩
    · simp [hnone] at hentry
    · rw [hreports, List.mem_singleton] at hentry
      subst hentry
      cases visit.isCold <;> simp [Entry.Justified]
  | error e y =>
    -- nothing was paid
    have hzero : x.surcharge = 0 := by
      unfold surcharge
      rw [hstep]
      split
      · rfl
      · simp
    unfold reports at hentry
    rw [hzero] at hentry
    obtain ⟨noted, _, rfl⟩ := List.mem_map.mp hentry
    cases noted with
    | derived a => trivial
    | report r => exact fun hpaid => absurd hpaid (Nat.lt_irrefl 0)

end Exec

end Evm
