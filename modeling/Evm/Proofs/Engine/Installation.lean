import Evm.Proofs.Database
import Evm.Proofs.Engine.Session

/-! # Code that is installed on a new engine

    Installing code goes through the state like everything else: the code is
    queued, the account is read and given the hash, and the state is settled.
    On a new engine over a database all of that comes to what the database
    itself does when code is deployed on it, and the state afterwards is a new
    one over that database, with the account and the code in its caches
    (`installCode_new`).
-/

namespace Evm

open Journal

namespace Database

variable (db : Database) (a : Address) (code : Bytes)

/-- An account of a database with other code. -/
def withCode : Account := { db.accounts.getD a .empty with codeHash := keccak256 code }

/-- The database with the code under its hash and at the account. -/
theorem deploy_eq (hcode : code.isEmpty = false) :
    (db.deploy a code).2 =
      { db with
        accounts := db.accounts.insert a (db.withCode a code)
        code := db.code.insert (keccak256 code) code } := by
  unfold deploy
  rw [hcode]
  rfl

end Database

/-! ## Lists of one thing -/

theorem eq_singleton_of_mem {κ : Type} {k : κ} {keys : List κ} (hlength : keys.length = 1)
    (hk : k ∈ keys) : keys = [k] := by
  obtain ⟨l, rfl⟩ := List.length_eq_one_iff.mp hlength
  rw [List.mem_singleton.mp hk]

/-- The keys of a map with one thing in it. -/
theorem keys_insert_empty {κ α : Type} [Ord κ] [Std.TransOrd κ] [Std.LawfulEqOrd κ] (k : κ)
    (x : α) : ((∅ : Std.ExtTreeMap κ α compare).insert k x).keys = [k] := by
  apply eq_singleton_of_mem
  · simp [Std.ExtTreeMap.length_keys, Std.ExtTreeMap.size_insert]
  · exact Std.ExtTreeMap.mem_keys.mpr Std.ExtTreeMap.mem_insert_self

/-- The members of a set with one thing in it. -/
theorem toList_insert_empty {κ : Type} [Ord κ] [Std.TransOrd κ] [Std.LawfulEqOrd κ] (k : κ) :
    ((∅ : Std.ExtTreeSet κ compare).insert k).toList = [k] := by
  apply eq_singleton_of_mem
  · simp [Std.ExtTreeSet.length_toList, Std.ExtTreeSet.size_insert]
  · exact Std.ExtTreeSet.mem_toList.mpr Std.ExtTreeSet.mem_insert_self

namespace Journal

variable {db : Database} {a : Address} {code : Bytes} {j : Journal Database}

/-- Where nothing is to be deleted nothing is dropped. -/
theorem dropDestroyed_of_none (h : j.destroyed = ∅) : j.dropDestroyed = j := by
  have hnone : ∀ a, j.isDestroyed a = false := by
    intro a
    unfold isDestroyed
    rw [h]
    rfl
  have haccounts : j.dropDestroyed.accounts = j.accounts := by
    apply Std.ExtTreeMap.ext_getElem?
    intro a
    unfold dropDestroyed
    simp [hnone]
  show { j with accounts := j.dropDestroyed.accounts } = j
  rw [haccounts]

/-- A new state over a database on which code was deployed, with the code and
    its account in the caches. -/
def deployed (db : Database) (a : Address) (code : Bytes) : Journal Database :=
  { ofBackend (db.deploy a code).2 with
    accounts := (∅ : Std.ExtTreeMap _ _ compare).insert a
      ⟨some (db.withCode a code), some (db.withCode a code)⟩
    codes := (∅ : Std.ExtTreeMap _ _ compare).insert (keccak256 code) code }

/-- All that was done to a new state is that code was given to an account. -/
structure Given (db : Database) (a : Address) (code : Bytes) (j : Journal Database) : Prop where
  backend : j.backend = db
  accounts : j.accounts = (∅ : Std.ExtTreeMap _ _ compare).insert a
    ⟨some (db.withCode a code), db.accounts[a]?⟩
  slots : j.slots = ∅
  codes : j.codes = (∅ : Std.ExtTreeMap _ _ compare).insert (keccak256 code) code
  newCode : j.newCode = (∅ : Std.ExtTreeSet _ compare).insert (keccak256 code)
  destroyed : j.destroyed = ∅

theorem setCode_new (db : Database) (a : Address) (hcode : code.isEmpty = false) :
    ∃ j, setCode a code (ofBackend db) = .ok (keccak256 code) j ∧ Given db a code j := by
  have hempty : (∅ : Std.ExtTreeMap Address CachedAccount compare)[a]? = none := by simp
  have hnew : (∅ : Std.ExtTreeSet Hash compare).contains (keccak256 code) = false := by simp
  have hfound : (db.accounts[a]?).getD .empty = db.accounts.getD a .empty :=
    Std.ExtTreeMap.getD_eq_getD_getElem?.symm
  unfold setCode queueCode setCodeHash modifyAccount loadAccount ofBackend
  simp only [hcode, Bool.false_eq_true, if_false, bind_apply, modify_apply, get_apply, hnew, note,
    hempty]
  refine ⟨_, rfl, rfl, ?_, rfl, rfl, rfl, rfl⟩
  show ((∅ : Std.ExtTreeMap _ _ compare).insert a _).insert a _ = _
  rw [insert_insert, hfound]
  rfl

namespace Given

/-- The database once the code is written to it. -/
theorem settleCode (h : Given db a code j) :
    settleCode (keccak256 code) j =
      .ok () { j with backend := db.insertCode (keccak256 code) code } := by
  have hknown : j.codes[keccak256 code]? = some code := by
    rw [h.codes, Std.ExtTreeMap.getElem?_insert_self]
  unfold Journal.settleCode
  simp only [bind_apply, get_apply, hknown, h.backend]
  rfl

/-- The accounts once the account is written. If it had the same code before it
    is not written, and is as it should be. -/
theorem settleAccount (h : Given db a code j) (hcode : code.isEmpty = false)
    (hfull : (db.withCode a code).hasCode = true) :
    settleAccount a { j with backend := db.insertCode (keccak256 code) code } =
      .ok () { j with
        backend := (db.deploy a code).2, accounts := (deployed db a code).accounts } := by
  have hne : keccak256 code ≠ emptyCodeHash := by
    intro heq
    simp [Account.hasCode, Database.withCode, heq] at hfull
  have hcached : j.accounts[a]? = some ⟨some (db.withCode a code), db.accounts[a]?⟩ := by
    rw [h.accounts, Std.ExtTreeMap.getElem?_insert_self]
  have hkept : (some (db.withCode a code)).filter (fun account => !account.isEmpty) =
      some (db.withCode a code) := by
    simp [Account.isEmpty, hfull]
  unfold Journal.settleAccount
  simp only [bind_apply, get_apply, hcached, hkept]
  rw [db.deploy_eq a code hcode]
  unfold Database.insertCode
  rw [if_neg hne]
  by_cases hsame : some (db.withCode a code) = db.accounts[a]?
  · have hstored : db.accounts.insert a (db.withCode a code) = db.accounts :=
      insert_of_getElem? _ hsame.symm
    have haccounts : j.accounts = (deployed db a code).accounts := by
      rw [h.accounts, ← hsame]
      rfl
    rw [if_pos hsame, hstored, haccounts]
    rfl
  · have haccounts : j.accounts.insert a
        ⟨some (db.withCode a code), some (db.withCode a code)⟩ =
          (deployed db a code).accounts := by
      rw [h.accounts, insert_insert]
      rfl
    rw [if_neg hsame, haccounts]
    rfl

end Given

/-- **What was given is written**, the code first and then the account. -/
theorem settle_given (h : Given db a code j) (hcode : code.isEmpty = false)
    (hfull : (db.withCode a code).hasCode = true) :
    ∃ logs, settle j = .ok logs (deployed db a code) := by
  have horder : j.ascending = ⟨[], [keccak256 code], [a]⟩ := by
    unfold ascending
    rw [h.slots, h.newCode, h.accounts, keys_insert_empty, toList_insert_empty]
    rfl
  have hdrop : j.dropDestroyed = j := dropDestroyed_of_none h.destroyed
  let written : Journal Database := { j with backend := db.insertCode (keccak256 code) code }
  let last : Journal Database :=
    { j with backend := (db.deploy a code).2, accounts := (deployed db a code).accounts }
  have hloop1 : [].forM Journal.settleSlot j = .ok () j := rfl
  have hloop2 : [keccak256 code].forM Journal.settleCode j = .ok () written := by
    show (Journal.settleCode (keccak256 code) >>= fun _ => pure ()) j = _
    rw [bind_apply, h.settleCode]
    rfl
  have hloop3 : [a].forM Journal.settleAccount written = .ok () last := by
    show (Journal.settleAccount a >>= fun _ => pure ()) _ = _
    rw [bind_apply, h.settleAccount hcode hfull]
    rfl
  -- nothing is left that is kept for the transaction
  have hend : last.endTransaction.2 = deployed db a code := by
    unfold last endTransaction deployed ofBackend
    simp only [h.slots, h.codes]
  refine ⟨last.emitted, ?_⟩
  unfold settle settleIn
  simp only [bind_apply, get_apply, modify_apply, hdrop, horder, hloop1, hloop2, hloop3]
  rw [← hend]
  rfl

end Journal

namespace Engine

/-- **Installing code on a new engine is deploying it on the database.** -/
theorem installCode_new (db : Database) (env : Environment) (config : Config) (a : Address)
    {code : Bytes} (hcode : code.isEmpty = false) (hfull : (db.withCode a code).hasCode = true) :
    installCode a code (new db env config) =
      (.ok (keccak256 code),
        { new (db.deploy a code).2 env config with journal := .deployed db a code }) := by
  obtain ⟨j, hset, hgiven⟩ := setCode_new db a hcode
  obtain ⟨logs, hsettle⟩ := settle_given hgiven hcode hfull
  have hinstall : (do
      let hash ← Journal.setCode a code
      let _ ← Journal.settle
      return hash : JournalM Database Hash) (ofBackend db) =
        .ok (keccak256 code) (.deployed db a code) := by
    rw [bind_apply, hset]
    simp only [bind_apply, hsettle]
    rfl
  unfold installCode
  rw [state_bind_apply, attempt_ok (e := new db env config) hinstall]
  rfl

end Engine

end Evm
