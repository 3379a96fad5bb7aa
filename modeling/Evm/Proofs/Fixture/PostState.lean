import Evm.Proofs.Engine.Writers
import Evm.Proofs.Fixture.SharedCache

/-! # What a case that passes says of the state

    A case with gas and accounts to come to passes exactly if its store can be
    filled, its call succeeds with that gas and output, and afterwards every
    account stated has the slots and the code stated for it
    (`Case.run_eq_ok_iff_met`).

    The slots that are checked are those that the case lists. A slot that is not
    listed is not looked at, and a case passes whatever it holds. So the slots
    of an account are exactly those listed for it if and only if those that are
    not listed are zero. One that is not is as the case put it into the store,
    or a frame that could write acted for the account (`Case.heldSlots_outcome`).
-/

namespace Evm

/-- The slots of an account that are not zero, each with its value. -/
def Database.heldSlots (db : Database) (a : Address) : Set (Word × Word) :=
  {slot | slot.2 ≠ 0 ∧ db.storageValue ⟨a, slot.1⟩ = slot.2}

namespace Fixture

/-! ## Checks in sequence -/

/-- One check: fail with a reason if something is the case. -/
def failIf (p : Prop) [Decidable p] (failure : Failure) : Verdict :=
  if p then throw failure else pure ()

theorem failIf_eq_ok_iff {p : Prop} [Decidable p] {failure : Failure} :
    failIf p failure = .ok () ↔ ¬p := by
  unfold failIf
  by_cases hp : p
  · rw [if_pos hp]
    exact iff_of_false nofun (not_not_intro hp)
  · rw [if_neg hp]
    exact iff_of_true rfl hp

/-- Two checks are passed one after the other. -/
theorem andThen_eq_ok_iff {first second : Verdict} :
    (do first; second) = .ok () ↔ first = .ok () ∧ second = .ok () := by
  cases first with
  | error failure => exact iff_of_false nofun fun h => nomatch h.1
  | ok u => exact (and_iff_right rfl).symm

/-- All checks of a list are passed if each of them is. -/
theorem forM_eq_ok_iff {α : Type} {check : α → Verdict} {l : List α} :
    l.forM check = .ok () ↔ ∀ x ∈ l, check x = .ok () := by
  induction l with
  | nil => exact iff_of_true rfl nofun
  | cons x l ih =>
    show (do check x; l.forM check) = .ok () ↔ _
    rw [andThen_eq_ok_iff, ih, List.forall_mem_cons]

/-! ## One account -/

namespace AccountSpec

variable {spec : AccountSpec} {a : Address} {db : Database} {key : Word}

/-- A slot is listed, whatever its value. -/
def Lists (spec : AccountSpec) (key : Word) : Prop :=
  ∃ entry ∈ spec.storage, Word.ofHex entry.1 = .ok key

/-- The slots that are listed with another value than zero. -/
def listedSlots (spec : AccountSpec) : Set (Word × Word) :=
  {slot | slot.2 ≠ 0 ∧ ∃ text, (text, slot.2) ∈ spec.storage ∧ Word.ofHex text = .ok slot.1}

/-- An account is as stated: every key that is listed is a word, and the slot
    has the value listed; and the code is that stated. -/
structure Met (spec : AccountSpec) (a : Address) (db : Database) : Prop where
  slots : ∀ entry ∈ spec.storage, ∃ key, Word.ofHex entry.1 = .ok key ∧
    db.storageValue ⟨a, key⟩ = entry.2
  code : db.codeAt a = spec.code

theorem check_slot_eq_ok_iff {entry : String × Word} :
    (do
      let key ← storageKey entry.1
      let got := db.storageValue ⟨a, key⟩
      if got ≠ entry.2 then
        throw (Failure.storageMismatch a key entry.2 got)) = Except.ok () ↔
      ∃ key, Word.ofHex entry.1 = .ok key ∧ db.storageValue ⟨a, key⟩ = entry.2 := by
  unfold storageKey
  cases Word.ofHex entry.1 with
  | error reason => exact iff_of_false nofun fun ⟨_, h, _⟩ => nomatch h
  | ok key =>
    refine failIf_eq_ok_iff.trans ?_
    constructor
    · intro hsame
      exact ⟨key, rfl, not_not.mp hsame⟩
    · rintro ⟨_, ⟨⟩, hsame⟩
      exact not_not_intro hsame

/-- **The check of an account** is passed if the account is as stated. -/
theorem check_eq_ok_iff_met : spec.check a db = .ok () ↔ spec.Met a db := by
  have hcode : (if db.codeAt a ≠ spec.code then
      throw (Failure.codeMismatch a spec.code.size (db.codeAt a).size) else pure () : Verdict) =
      .ok () ↔ db.codeAt a = spec.code := failIf_eq_ok_iff.trans not_not
  unfold check
  rw [andThen_eq_ok_iff, forM_eq_ok_iff, hcode]
  simp only [check_slot_eq_ok_iff]
  exact ⟨fun ⟨hslots, hcode⟩ => ⟨hslots, hcode⟩, fun h => ⟨h.slots, h.code⟩⟩

namespace Met

variable (h : spec.Met a db)

include h

/-- What is listed is held. -/
theorem listedSlots_subset : spec.listedSlots ⊆ db.heldSlots a := by
  rintro ⟨key, value⟩ ⟨hne, text, hmem, htext⟩
  obtain ⟨key', hkey', hvalue⟩ := h.slots _ hmem
  obtain rfl := Except.ok.inj (htext.symm.trans hkey')
  exact ⟨hne, hvalue⟩

/-- A slot that is held is listed with its value, if it is listed at all. -/
theorem mem_listedSlots {slot : Word × Word} (hheld : slot ∈ db.heldSlots a)
    (hlists : spec.Lists slot.1) : slot ∈ spec.listedSlots := by
  obtain ⟨⟨text, value⟩, hmem, htext⟩ := hlists
  obtain ⟨key, hkey, hvalue⟩ := h.slots _ hmem
  obtain rfl := Except.ok.inj (htext.symm.trans hkey)
  have hsame : value = slot.2 := hvalue.symm.trans hheld.2
  exact ⟨hheld.1, text, hsame ▸ hmem, htext⟩

/-- **The slots are exactly those listed** if and only if all others are zero. -/
theorem heldSlots_eq_iff :
    db.heldSlots a = spec.listedSlots ↔
      ∀ key, ¬spec.Lists key → db.storageValue ⟨a, key⟩ = 0 := by
  constructor
  · intro hexact key hunlisted
    by_contra hne
    have hheld : (key, db.storageValue ⟨a, key⟩) ∈ db.heldSlots a := ⟨hne, rfl⟩
    rw [hexact] at hheld
    obtain ⟨_, text, hmem, htext⟩ := hheld
    exact hunlisted ⟨_, hmem, htext⟩
  · intro hzero
    -- what is listed is held anyway
    refine Set.Subset.antisymm ?_ h.listedSlots_subset
    intro slot hheld
    refine h.mem_listedSlots hheld ?_
    by_contra hunlisted
    exact hheld.1 (hheld.2.symm.trans (hzero slot.1 hunlisted))

end Met

end AccountSpec

/-! ## One case -/

namespace Case

variable {c : Case} {fork : Hardfork} {cache : CodeCache} {db : Database} {gas : Nat}
  {post : World}

/-- A call leaves what a case states that it leaves. -/
structure Met (c : Case) (gas : Nat) (post : World) (result : TransactionResult)
    (db : Database) : Prop where
  success : result.success = true
  gasLeft : result.gasLeft = gas
  output : ∀ out, c.out = some out → result.output = out
  accounts : ∀ (a : Address) (spec : AccountSpec), post[a]? = some spec → spec.Met a db

/-- The accounts that are stated, one by one. -/
theorem check_accounts_eq_ok_iff :
    (post.toList.forM fun entry => entry.2.check entry.1 db) = .ok () ↔
      ∀ (a : Address) (spec : AccountSpec), post[a]? = some spec → spec.Met a db := by
  rw [forM_eq_ok_iff]
  constructor
  · intro h a spec hspec
    have hmem : (a, spec) ∈ post.toList := Std.ExtTreeMap.mem_toList_iff_getElem?_eq_some.mpr hspec
    exact AccountSpec.check_eq_ok_iff_met.mp (h _ hmem)
  · rintro h ⟨a, spec⟩ hmem
    have hspec : post[a]? = some spec := Std.ExtTreeMap.mem_toList_iff_getElem?_eq_some.mp hmem
    exact AccountSpec.check_eq_ok_iff_met.mpr (h a spec hspec)

/-- The check of the output, if it is stated. -/
def checkOutput (c : Case) (result : TransactionResult) : Verdict :=
  match c.out with
  | some out => failIf (result.output ≠ out) (.outputMismatch out result.output)
  | none => pure ()

theorem checkOutput_eq_ok_iff {result : TransactionResult} :
    c.checkOutput result = .ok () ↔ ∀ out, c.out = some out → result.output = out := by
  unfold checkOutput
  cases c.out with
  | none => exact iff_of_true rfl nofun
  | some out =>
    refine failIf_eq_ok_iff.trans (not_not.trans ?_)
    constructor
    · rintro hsame _ ⟨⟩
      exact hsame
    · intro h
      exact h out rfl

/-- Where a call should succeed, it is checked for success, gas, output and
    accounts, in this order. -/
theorem check_eq {result : TransactionResult} (hgas : c.gas = some gas)
    (hpost : c.post = some post) :
    c.check result db = (do
      failIf (!result.success) (.unexpectedExit result.exit)
      failIf (result.gasLeft ≠ gas) (.gasMismatch gas result.gasLeft)
      c.checkOutput result
      post.toList.forM fun entry => entry.2.check entry.1 db) := by
  unfold check checkOutput failIf
  rw [hgas, hpost]
  simp only
  -- the first check that fails ends all of them on both sides
  by_cases hsuccess : (!result.success) = true
  · rw [if_pos hsuccess, if_pos hsuccess]
    rfl
  rw [if_neg hsuccess, if_neg hsuccess]
  by_cases hleft : result.gasLeft ≠ gas
  · rw [if_pos hleft, if_pos hleft]
    rfl
  rw [if_neg hleft, if_neg hleft]
  cases c.out with
  | none => rfl
  | some out =>
    by_cases hout : result.output ≠ out
    · simp only [if_pos hout]
      rfl
    · simp only [if_neg hout]
      rfl

/-- **The check of a call** that should succeed is passed if everything is as
    stated. -/
theorem check_eq_ok_iff_met {result : TransactionResult} (hgas : c.gas = some gas)
    (hpost : c.post = some post) : c.check result db = .ok () ↔ c.Met gas post result db := by
  rw [check_eq hgas hpost, andThen_eq_ok_iff, andThen_eq_ok_iff, andThen_eq_ok_iff,
    failIf_eq_ok_iff, failIf_eq_ok_iff, checkOutput_eq_ok_iff, check_accounts_eq_ok_iff,
    Bool.not_eq_true', Bool.not_eq_false, not_not]
  constructor
  · rintro ⟨hsuccess, hleft, hout, haccounts⟩
    exact ⟨hsuccess, hleft, hout, haccounts⟩
  · intro h
    exact ⟨h.success, h.gasLeft, h.output, h.accounts⟩

/-- The engine that a case runs on with a cache that was there before. -/
def engineWith (c : Case) (fork : Hardfork) (cache : CodeCache) (db : Database) :
    Engine Database :=
  { c.engine fork db with codeCache := cache }

/-- What the call of a case comes to on a store. -/
def outcome (c : Case) (fork : Hardfork) (cache : CodeCache) (db : Database) :
    TransactionResult × Engine Database :=
  Engine.transact c.transaction (c.engineWith fork cache db)

/-- A case is checked after its call, if its store can be filled. -/
theorem run_of_store (hstore : c.store = .ok db) :
    (c.run fork cache).1 =
      c.check (c.outcome fork cache db).1 (c.outcome fork cache db).2.journal.backend := by
  unfold run
  rw [hstore]
  rfl

/-- A case passes if and only if its store can be filled and the call leaves what
    is stated. -/
theorem run_eq_ok_iff_met (hgas : c.gas = some gas) (hpost : c.post = some post) :
    (c.run fork cache).1 = .ok () ↔ ∃ db, c.store = .ok db ∧
      c.Met gas post (c.outcome fork cache db).1 (c.outcome fork cache db).2.journal.backend := by
  cases hstore : c.store with
  | error failure =>
    have hrun : (c.run fork cache).1 = .error failure := by
      unfold run
      rw [hstore]
    rw [hrun]
    exact iff_of_false nofun fun ⟨_, h, _⟩ => nomatch h
  | ok db =>
    rw [run_of_store hstore, check_eq_ok_iff_met hgas hpost]
    constructor
    · intro hmet
      exact ⟨db, rfl, hmet⟩
    · rintro ⟨_, ⟨⟩, hmet⟩
      exact hmet

/-- **Where slots come from.** A slot that is held after the call was held before
    it with that value, or a frame that could write acted for the account. -/
theorem heldSlots_outcome {a : Address} {slot : Word × Word}
    (hheld : slot ∈ (c.outcome fork cache db).2.journal.backend.heldSlots a) :
    slot ∈ db.heldSlots a ∨
      ∃ m, c.transaction.Ticks (c.engineWith fork cache db) m ∧
        m.current.frame.context.address = a ∧ m.current.frame.context.isStatic = false := by
  obtain ⟨hne, hvalue⟩ := hheld
  by_cases hbefore : db.storageValue ⟨a, slot.1⟩ = slot.2
  · exact .inl ⟨hne, hbefore⟩
  · right
    rw [← hvalue] at hne hbefore
    exact Engine.transact_writer rfl rfl hne (Ne.symm hbefore)

/-- **What a case that passes says.** It passes exactly if its store can be
    filled and the call leaves what is stated. Then the slots listed for an
    account are held, they are all that it holds if and only if no other slot
    is, and one that is held without being listed was put there by the case or
    has an account that a frame acted for which could write. -/
theorem passing_case (c : Case) (fork : Hardfork) (cache : CodeCache) {gas : Nat} {post : World}
    (hgas : c.gas = some gas) (hpost : c.post = some post) :
    ((c.run fork cache).1 = .ok () ↔
      ∃ db, c.store = .ok db ∧
        c.Met gas post (c.outcome fork cache db).1 (c.outcome fork cache db).2.journal.backend) ∧
    ∀ db, c.store = .ok db → (c.run fork cache).1 = .ok () →
      ∀ (a : Address) (spec : AccountSpec), post[a]? = some spec →
        let after := (c.outcome fork cache db).2.journal.backend
        spec.listedSlots ⊆ after.heldSlots a ∧
          (after.heldSlots a = spec.listedSlots ↔
            ∀ key, ¬spec.Lists key → after.storageValue ⟨a, key⟩ = 0) ∧
          ∀ slot ∈ after.heldSlots a, slot ∉ spec.listedSlots →
            ¬spec.Lists slot.1 ∧
              (slot ∈ db.heldSlots a ∨
                ∃ m, c.transaction.Ticks (c.engineWith fork cache db) m ∧
                  m.current.frame.context.address = a ∧
                  m.current.frame.context.isStatic = false) := by
  refine ⟨run_eq_ok_iff_met hgas hpost, ?_⟩
  intro db hstore hpass a spec hspec after
  rw [run_of_store hstore, check_eq_ok_iff_met hgas hpost] at hpass
  have hmet : spec.Met a after := hpass.accounts a spec hspec
  refine ⟨hmet.listedSlots_subset, hmet.heldSlots_eq_iff, ?_⟩
  intro slot hheld hunlisted
  refine ⟨?_, heldSlots_outcome hheld⟩
  intro hlists
  exact hunlisted (hmet.mem_listedSlots hheld hlists)

/-- A case whose call sets slot 0 of its account to one, with the slots that are
    listed for the account. -/
def setsOne (listed : List (String × Word)) : Case where
  fork := none
  block := .default
  exec :=
    { address := .ofNat 77, caller := .ofNat 33, code := ⟨#[0x60, 1, 0x60, 0, 0x55]⟩
      data := ByteArray.empty, gas := 100000, gasPrice := 1, origin := .ofNat 33, value := 0 }
  gas := some 77894
  logs := none
  out := some ByteArray.empty
  pre := ∅
  post := some (Std.ExtTreeMap.empty.insert (.ofNat 77)
    ⟨0, ⟨#[0x60, 1, 0x60, 0, 0x55]⟩, 0, listed⟩)

/-- The slots of the account of that case are exactly those listed, if the slot
    is listed with its value. -/
theorem passing_case_listed :
    let c := setsOne [("0x00", 1)]
    let spec : AccountSpec := ⟨0, ⟨#[0x60, 1, 0x60, 0, 0x55]⟩, 0, [("0x00", 1)]⟩
    c.gas = some 77894 ∧ c.post = some (Std.ExtTreeMap.empty.insert (.ofNat 77) spec) ∧
      (c.run .cancun .empty).1 = .ok () ∧ ∃ db, c.store = .ok db ∧
        (c.outcome .cancun .empty db).2.journal.backend.heldSlots (.ofNat 77) =
          spec.listedSlots := by
  intro c spec
  have hpasses : (c.run .cancun .empty).1 = .ok () := by decide +kernel
  have hran : (c.store.toOption.map fun db =>
      (c.outcome .cancun .empty db).2.journal.backend.storage.toList) =
        some [(⟨.ofNat 77, 0⟩, 1)] := by decide +kernel
  have hkey : Word.ofHex "0x00" = .ok 0 := by decide +kernel
  refine ⟨rfl, rfl, hpasses, ?_⟩
  cases hstore : c.store with
  | error failure =>
    rw [hstore] at hran
    cases hran
  | ok db =>
    rw [hstore] at hran
    have hstorage : (c.outcome .cancun .empty db).2.journal.backend.storage.toList =
        [(⟨.ofNat 77, 0⟩, 1)] := Option.some.inj hran
    obtain ⟨_, hslots⟩ := passing_case c .cancun .empty rfl rfl
    obtain ⟨_, hexact, _⟩ := hslots db hstore hpasses (.ofNat 77) spec
      Std.ExtTreeMap.getElem?_insert_self
    -- the database has no slot but the one that is listed
    refine ⟨db, rfl, hexact.mpr ?_⟩
    intro key hunlisted
    apply Database.storageValue_of_not_mem
    rw [hstorage]
    intro value hmem
    cases List.mem_singleton.mp hmem
    exact hunlisted ⟨_, List.mem_singleton_self _, hkey⟩

/-- **The slots of an account need not be those listed for it.** The same case
    passes if no slot is listed, and slot 0 holds one. -/
theorem passing_case_unlisted :
    let c := setsOne []
    let spec : AccountSpec := ⟨0, ⟨#[0x60, 1, 0x60, 0, 0x55]⟩, 0, []⟩
    c.gas = some 77894 ∧ c.post = some (Std.ExtTreeMap.empty.insert (.ofNat 77) spec) ∧
      (c.run .cancun .empty).1 = .ok () ∧ ∃ db, c.store = .ok db ∧
        (c.outcome .cancun .empty db).2.journal.backend.heldSlots (.ofNat 77) ≠
          spec.listedSlots := by
  intro c spec
  have hpasses : (c.run .cancun .empty).1 = .ok () := by decide +kernel
  have hran : (c.store.toOption.map fun db =>
      (c.outcome .cancun .empty db).2.journal.backend.storageValue ⟨.ofNat 77, 0⟩) = some 1 := by
    decide +kernel
  refine ⟨rfl, rfl, hpasses, ?_⟩
  cases hstore : c.store with
  | error failure =>
    rw [hstore] at hran
    cases hran
  | ok db =>
    rw [hstore] at hran
    refine ⟨db, rfl, fun hsame => ?_⟩
    have hheld : ((0, 1) : Word × Word) ∈
        (c.outcome .cancun .empty db).2.journal.backend.heldSlots (.ofNat 77) :=
      ⟨by decide, Option.some.inj hran⟩
    rw [hsame] at hheld
    obtain ⟨_, text, hmem, _⟩ := hheld
    cases hmem

end Case

end Fixture

end Evm
