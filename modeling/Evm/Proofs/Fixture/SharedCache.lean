import Evm.Fixture.Report
import Evm.Proofs.Engine.Recached
import Mathlib.Data.Set.Function

/-! # One cache for all cases

    The cases of all files share one cache of jump analyses. No verdict depends
    on it: each case passes or fails, for the same reason, as it does alone, as
    long as no two of the codes involved have one hash
    (`runText?_reports_verdicts_alone`).

    The codes of a case are those that it puts into its store and those that
    its call comes to deploy (`Case.codes`). What is cached is always the
    analysis of one of them under its hash, so a case finds nothing wrong in
    the cache and leaves nothing wrong there (`Case.run_alone`).
-/

namespace Evm

open Journal

/-! ## Codes and their hashes -/

/-- The code with a hash, out of a list. -/
def knownAmong (codes : List Bytes) (hash : Hash) : Option Bytes :=
  codes.find? fun c => keccak256 c = hash

theorem vouches_knownAmong {codes : List Bytes} (h : Set.InjOn keccak256 {c | c ∈ codes}) :
    Vouches (knownAmong codes) codes := by
  intro c hc _
  unfold knownAmong
  cases hfound : codes.find? fun c' => keccak256 c' = keccak256 c with
  | none => simpa using List.find?_eq_none.mp hfound c hc
  | some c' =>
    have hsame : keccak256 c' = keccak256 c := by simpa using List.find?_some hfound
    rw [h (List.mem_of_find?_eq_some hfound) hc hsame]

theorem Vouches.mono {known : Hash → Option Bytes} {codes codes' : List Bytes}
    (h : Vouches known codes') (hsub : codes ⊆ codes') : Vouches known codes :=
  fun c hc => h c (hsub hc)

/-! ## Stores that are filled -/

/-- A loop that may fail keeps what each of its rounds keeps. -/
theorem foldlM_keeps {ε α κ : Type} {f : α → κ → Except ε α} {P : α → Prop} {keys : List κ}
    (hround : ∀ a k a', k ∈ keys → P a → f a k = .ok a' → P a') {a a' : α} (ha : P a)
    (h : keys.foldlM f a = .ok a') : P a' := by
  induction keys generalizing a with
  | nil =>
    cases h
    exact ha
  | cons k keys ih =>
    rw [List.foldlM_cons] at h
    cases hfirst : f a k with
    | error e =>
      rw [hfirst] at h
      cases h
    | ok b =>
      rw [hfirst] at h
      have hb : P b := hround a k b List.mem_cons_self ha hfirst
      exact ih (fun a k a' hk => hround a k a' (List.mem_cons_of_mem _ hk)) hb h

namespace Database

variable {codes : List Bytes} {db : Database}

/-- The codes that a database has are out of a list, each under its hash. -/
def Stocks (codes : List Bytes) (db : Database) : Prop :=
  ∀ hash c, db.code[hash]? = some c → c ∈ codes ∧ c.isEmpty = false ∧ keccak256 c = hash

theorem Stocks.deploy (h : Stocks codes db) (a : Address) {c : Bytes} (hc : c ∈ codes) :
    Stocks codes (db.deploy a c).2 := by
  unfold Database.deploy
  by_cases hempty : c.isEmpty
  · rw [if_pos hempty]
    exact h
  · rw [if_neg hempty]
    intro hash c' hfound
    rcases getElem?_insert_eq_some _ hfound with ⟨rfl, rfl⟩ | hbefore
    · exact ⟨hc, Bool.eq_false_iff.mpr hempty, rfl⟩
    · exact h hash c' hbefore

theorem Stocks.insertAccount (h : Stocks codes db) (a : Address) (account : Account) :
    Stocks codes (db.insertAccount a account) := h

theorem Stocks.insertStorage (h : Stocks codes db) (s : Slot) (value : Word) :
    Stocks codes (db.insertStorage s value) := by
  unfold Database.insertStorage
  split <;> exact h

/-- A new state over such a database knows codes by their hashes. -/
theorem Stocks.knows {known : Hash → Option Bytes} (h : Stocks codes db)
    (hknown : Vouches known codes) : Knows known (.ofBackend db) where
  cached hash c _ hfound := by cases hfound
  stored hash c hne hfound := by
    have hcode : db.code? hash = some c := Except.ok.inj hfound
    unfold Database.code? at hcode
    rw [if_neg hne] at hcode
    obtain ⟨hc, hempty, rfl⟩ := h hash c hcode
    exact hknown c hc hempty

end Database

namespace Fixture

variable {known : Hash → Option Bytes} {fork : Hardfork} {cache : CodeCache}

/-! ## One case -/

namespace Case

variable {c : Case}

/-- The engine that a case runs on alone. -/
def engine (c : Case) (fork : Hardfork) (db : Database) : Engine Database :=
  .new db c.environment (.ofHardfork (c.fork.getD fork))

/-- The verdict on a case that is run alone, on a cache with nothing in it. -/
def verdictAlone (c : Case) (fork : Hardfork) : Verdict := (c.run fork .empty).1

/-- The codes of a case that can be run: of the accounts it puts into its store,
    of the account that it calls, and those that its call comes to deploy. -/
def codes (c : Case) (fork : Hardfork) : List Bytes :=
  match c.store with
  | .error _ => []
  | .ok db =>
    c.exec.code :: c.pre.toList.map (·.2.code) ++
      Engine.deployments c.transaction (c.engine fork db)

theorem seed_stocks {codes : List Bytes} {db db' : Database} {a : Address} {spec : AccountSpec}
    (h : db.Stocks codes) (hc : spec.code ∈ codes) (hseed : spec.seed a db = .ok db') :
    db'.Stocks codes := by
  unfold AccountSpec.seed at hseed
  refine foldlM_keeps (P := Database.Stocks codes) ?_ ?_ hseed
  · intro db entry db' _ hdb hentry
    cases hkey : storageKey entry.1 with
    | error failure =>
      rw [hkey] at hentry
      cases hentry
    | ok key =>
      rw [hkey] at hentry
      cases hentry
      exact hdb.insertStorage _ _
  · split
    · exact h
    · exact (h.insertAccount a _).deploy a hc

/-- The store of a case has codes of the case only. -/
theorem store_stocks {db : Database} (h : c.store = .ok db) : db.Stocks (c.codes fork) := by
  have hcodes : c.codes fork = c.exec.code :: c.pre.toList.map (·.2.code) ++
      Engine.deployments c.transaction (c.engine fork db) := by
    unfold codes
    rw [h]
  have hempty : Database.empty.Stocks (c.codes fork) := fun hash code hfound => nomatch hfound
  unfold store at h
  cases hseeded : c.pre.toList.foldlM (fun db entry => entry.2.seed entry.1 db)
      Database.empty with
  | error failure =>
    rw [hseeded] at h
    cases h
  | ok seeded =>
    have hstocks : seeded.Stocks (c.codes fork) := by
      refine foldlM_keeps (P := Database.Stocks (c.codes fork)) ?_ hempty hseeded
      intro db entry db' hentry hdb
      refine seed_stocks hdb ?_
      rw [hcodes]
      exact List.mem_append_left _
        (List.mem_cons_of_mem _ (List.mem_map_of_mem (f := fun e => e.2.code) hentry))
    rw [hseeded] at h
    obtain rfl := Except.ok.inj h
    split
    · exact hstocks
    · refine hstocks.deploy _ ?_
      rw [hcodes]
      exact List.mem_append_left _ List.mem_cons_self

/-- What is cached makes no difference to the engine of a case. -/
theorem interchangeable {db : Database} (hstore : c.store = .ok db)
    (hcache : cache.Analyzes known) (hknown : Vouches known (c.codes fork)) :
    Engine.Interchangeable known (c.engine fork db)
      { c.engine fork db with codeCache := cache } where
  journal := rfl
  env := rfl
  config := rfl
  precompiles := rfl
  left _ _ hdests := nomatch hdests
  right := hcache
  knows := (store_stocks hstore).knows hknown

/-- **A case has the verdict that it has alone**, and leaves the cache right. -/
theorem run_alone (hcache : cache.Analyzes known) (hknown : Vouches known (c.codes fork)) :
    (c.run fork cache).1 = c.verdictAlone fork ∧ (c.run fork cache).2.Analyzes known := by
  unfold verdictAlone run
  cases hstore : c.store with
  | error failure => exact ⟨rfl, hcache⟩
  | ok db =>
    have hvouched : Vouches known (Engine.deployments c.transaction (c.engine fork db)) := by
      refine hknown.mono ?_
      unfold codes
      rw [hstore]
      exact List.subset_append_right _ _
    obtain ⟨hresult, hended⟩ := (interchangeable hstore hcache hknown).transact hvouched
    refine ⟨?_, hended.right⟩
    exact congrArg₂ c.check hresult.symm (congrArg Journal.backend hended.journal.symm)

end Case

/-! ## One file -/

/-- The reason of a case that fails. -/
def failure? : Verdict → Option Failure
  | .ok () => none
  | .error failure => some failure

/-- The names of the cases that pass. -/
def passing (verdict : Case → Verdict) (cases : CaseFile) : List String :=
  (cases.filter fun entry => (failure? (verdict entry.2)).isNone).map Prod.fst

/-- The names of the cases that fail, each with the reason. -/
def failing (verdict : Case → Verdict) (cases : CaseFile) : List (String × Failure) :=
  cases.filterMap fun entry => (failure? (verdict entry.2)).map (entry.1, ·)

/-- A report tells the verdicts on the cases of a file, in their order, and each
    case once: among those that pass or those that fail. -/
structure Report.Tells (report : Report) (cases : CaseFile) (verdict : Case → Verdict) :
    Prop where
  passed : report.passed = passing verdict cases
  failed : report.failed = failing verdict cases
  complete : (report.passed ++ report.failed.map Prod.fst).Perm (cases.map Prod.fst)
  distinct : (cases.map Prod.fst).Nodup

/-- The names of what is read by name are distinct. -/
theorem byName?_nodup {α : Type} {read : Json → Option α} {j : Json} {l : List (String × α)}
    (h : byName? read j = some l) : (l.map Prod.fst).Nodup := by
  unfold byName? at h
  cases hmembers : j.asMembers? read with
  | none =>
    rw [hmembers] at h
    cases h
  | some members =>
    rw [hmembers] at h
    cases h
    refine List.pairwise_map.mpr (Std.ExtTreeMap.distinct_keys_toList.imp ?_)
    rintro a b hne hsame
    exact hne (by rw [hsame]; exact Std.ReflCmp.compare_self)

theorem readFile?_nodup {text : String} {cases : CaseFile} (h : readFile? text = some cases) :
    (cases.map Prod.fst).Nodup := by
  unfold readFile? at h
  obtain ⟨j, _, hcases⟩ := Option.bind_eq_some_iff.mp h
  exact byName?_nodup hcases

/-- Verdicts added to a report one by one. -/
theorem foldl_add (verdict : Case → Verdict) (cases : CaseFile) (report : Report) :
    cases.foldl (fun report entry => report.add entry.1 (verdict entry.2)) report =
      ⟨report.source, report.passed ++ passing verdict cases,
        report.failed ++ failing verdict cases⟩ := by
  unfold passing failing
  induction cases generalizing report with
  | nil => simp
  | cons entry cases ih =>
    rw [List.foldl_cons, ih]
    cases hverdict : verdict entry.2 with
    | ok u => simp [Report.add, hverdict, failure?]
    | error failure => simp [Report.add, hverdict, failure?]

/-- Passing and failing are the two ways to be there. -/
theorem perm_passing_failing (verdict : Case → Verdict) (cases : CaseFile) :
    (passing verdict cases ++ (failing verdict cases).map Prod.fst).Perm
      (cases.map Prod.fst) := by
  unfold passing failing
  induction cases with
  | nil => exact .nil
  | cons entry cases ih =>
    cases hverdict : verdict entry.2 with
    | ok u => simpa [hverdict, failure?] using ih
    | error failure =>
      simpa [hverdict, failure?] using List.perm_middle.trans (ih.cons entry.1)

/-- The cases of a file are run with the verdicts that they have alone. -/
theorem runCases_alone {cases : CaseFile} (source : String) (hcache : cache.Analyzes known)
    (hknown : ∀ entry ∈ cases, Vouches known (entry.2.codes fork)) :
    (runCases fork source cases cache).1 =
        cases.foldl (fun report entry => report.add entry.1 (entry.2.verdictAlone fork))
          (.empty source) ∧
      (runCases fork source cases cache).2.Analyzes known := by
  unfold runCases
  generalize Report.empty source = report
  induction cases generalizing report cache with
  | nil => exact ⟨rfl, hcache⟩
  | cons entry cases ih =>
    obtain ⟨hverdict, hleft⟩ := entry.2.run_alone hcache (hknown entry List.mem_cons_self)
    rw [List.foldlM_cons, List.foldl_cons, ← hverdict]
    exact ih hleft (fun entry hentry => hknown entry (List.mem_cons_of_mem _ hentry)) _

/-! ## Many files -/

/-- The codes of the cases of a text, if it can be read. -/
def codesOfText (fork : Hardfork) (text : String) : List Bytes :=
  ((readFile? text).getD []).flatMap fun entry => entry.2.codes fork

/-- The cache after texts were run one after another, each with its source. -/
def cacheAfter (fork : Hardfork) (texts : List (String × String)) : CodeCache :=
  texts.foldl (fun cache text => (runText? fork text.1 text.2 cache).2) .empty

/-- The codes of a text vouch for those of each of its cases. -/
theorem vouches_case {text : String} {cases : CaseFile} (hread : readFile? text = some cases)
    (hknown : Vouches known (codesOfText fork text)) :
    ∀ entry ∈ cases, Vouches known (entry.2.codes fork) := by
  intro entry hentry
  refine hknown.mono fun c hc => ?_
  unfold codesOfText
  rw [hread]
  exact List.mem_flatMap.mpr ⟨entry, hentry, hc⟩

/-- A text that can be read is run case by case. -/
theorem runText?_eq {text : String} {cases : CaseFile} (hread : readFile? text = some cases)
    (source : String) (cache : CodeCache) :
    runText? fork source text cache =
      (some (runCases fork source cases cache).1, (runCases fork source cases cache).2) := by
  unfold runText?
  rw [hread]
  rfl

/-- A text leaves the cache right, whether it can be read or not. -/
theorem runText?_analyzes {text : String} (source : String) (hcache : cache.Analyzes known)
    (hknown : Vouches known (codesOfText fork text)) :
    (runText? fork source text cache).2.Analyzes known := by
  cases hread : readFile? text with
  | none =>
    unfold runText?
    rw [hread]
    exact hcache
  | some cases =>
    rw [runText?_eq hread]
    exact (runCases_alone source hcache (vouches_case hread hknown)).2

theorem cacheAfter_analyzes {texts : List (String × String)}
    (hknown : Vouches known (texts.flatMap fun text => codesOfText fork text.2)) :
    (cacheAfter fork texts).Analyzes known := by
  have hloop : ∀ cache : CodeCache, cache.Analyzes known →
      (texts.foldl (fun cache text => (runText? fork text.1 text.2 cache).2)
        cache).Analyzes known := by
    induction texts with
    | nil => exact fun _ hcache => hcache
    | cons text texts ih =>
      intro cache hcache
      refine ih (hknown.mono (List.subset_append_right _ _)) _ ?_
      exact runText?_analyzes text.1 hcache (hknown.mono (List.subset_append_left _ _))
  exact hloop _ fun _ _ hdests => nomatch hdests

/-- **Sharing the cache changes no verdict.** Whatever texts were run before, the
    report on a text that can be read tells of each of its cases, once, the
    verdict that it has alone. No two of the codes involved have one hash. -/
theorem runText?_reports_verdicts_alone (fork : Hardfork) (earlier : List (String × String))
    (source : String) {text : String} {cases : CaseFile} (hread : readFile? text = some cases)
    (hdistinct : Set.InjOn keccak256
      {c | c ∈ (earlier.flatMap fun before => codesOfText fork before.2) ++
        codesOfText fork text}) :
    ∃ report, (runText? fork source text (cacheAfter fork earlier)).1 = some report ∧
      report.source = source ∧ report.Tells cases fun c => c.verdictAlone fork := by
  have hknown := vouches_knownAmong hdistinct
  have hcache := cacheAfter_analyzes (hknown.mono (List.subset_append_left _ _))
  have htext : Vouches _ (codesOfText fork text) := hknown.mono (List.subset_append_right _ _)
  have hran := (runCases_alone source hcache (vouches_case hread htext)).1
  rw [foldl_add fun c => c.verdictAlone fork] at hran
  simp only [Report.empty, List.nil_append] at hran
  rw [runText?_eq hread, hran]
  exact ⟨_, rfl, rfl, rfl, rfl, perm_passing_failing (fun c => c.verdictAlone fork) cases,
    readFile?_nodup hread⟩

/-- Two codes of two hashes do not collide, however often they occur. -/
theorem injOn_of_two {codes : List Bytes} {a b : Bytes} (hcodes : ∀ c ∈ codes, c = a ∨ c = b)
    (hne : keccak256 a ≠ keccak256 b) : Set.InjOn keccak256 {c | c ∈ codes} := by
  intro c hc c' hc' hsame
  rcases hcodes c hc with rfl | rfl <;> rcases hcodes c' hc' with rfl | rfl
  · rfl
  · exact absurd hsame hne
  · exact absurd hsame.symm hne
  · rfl

/-- A text is parsed character by character. -/
theorem parse?_ofList (cs : List Char) :
    Json.parse? (String.ofList cs) =
      match Json.value? (2 * cs.length + 2) cs with
      | some (j, rest) => if (Json.skipBlanks rest).isEmpty then some j else none
      | none => none := by
  have hchars : (String.ofList cs).toList = cs := String.toList_ofList
  unfold Json.parse?
  generalize (String.ofList cs).toList = chars at hchars
  subst hchars
  rfl

set_option maxRecDepth 8000 in
/-- A file with a case that jumps and passes, and one that stops and fails, is run
    a second time, after a text that cannot be read. -/
theorem runText?_reports_verdicts_alone_again :
    let text :=
      "\x7b\"jumps\":
      [null,[\"0000000000000000000000000000000000000000\",\"\",\"\",\"\",\"\",null,null],
      [\"0000000000000000000000000000000000001000\",
      \"0000000000000000000000000000000000000000\",
      \"6003565b00\",\"\",\"10\",\"\",
      \"0000000000000000000000000000000000000000\",\"\"],
      \"4\",null,null,\x7b\x7d,null],
      \"stops\":
      [null,[\"0000000000000000000000000000000000000000\",\"\",\"\",\"\",\"\",null,null],
      [\"0000000000000000000000000000000000001000\",
      \"0000000000000000000000000000000000000000\",
      \"00\",\"\",\"10\",\"\",
      \"0000000000000000000000000000000000000000\",\"\"],
      \"f\",null,null,\x7b\x7d,null]\x7d"
    let earlier := [("first", text), ("broken", "[")]
    ∃ cases report, readFile? text = some cases ∧
      (runText? .cancun "second" text (cacheAfter .cancun earlier)).1 = some report ∧
      report.Tells cases (fun c => c.verdictAlone .cancun) ∧
      report.passed = ["jumps"] ∧ report.failed = [("stops", .gasMismatch 15 16)] := by
  intro text earlier
  let jumping : Bytes := ⟨#[0x60, 3, 0x56, 0x5b, 0]⟩
  let stopping : Bytes := ⟨#[0]⟩
  have hran : (readFile? text).map (fun cases =>
      (cases.flatMap fun entry => entry.2.codes .cancun,
        passing (fun c => c.verdictAlone .cancun) cases,
        failing (fun c => c.verdictAlone .cancun) cases)) =
      some ([jumping, stopping], ["jumps"], [("stops", .gasMismatch 15 16)]) := by
    unfold readFile?
    rw [show Json.parse? text = _ from parse?_ofList _]
    decide +kernel
  obtain ⟨cases, hread, hcases⟩ := Option.map_eq_some_iff.mp hran
  obtain ⟨hcodes, hpassing, hfailing⟩ : _ ∧ _ ∧ _ :=
    ⟨congrArg (·.1) hcases, congrArg (·.2.1) hcases, congrArg (·.2.2) hcases⟩
  have htext : codesOfText .cancun text = [jumping, stopping] := by
    unfold codesOfText
    rw [hread]
    exact hcodes
  have hbroken : codesOfText .cancun "[" = [] := by decide +kernel
  have hdistinct : Set.InjOn keccak256
      {c | c ∈ (earlier.flatMap fun before => codesOfText .cancun before.2) ++
        codesOfText .cancun text} := by
    have hlist : (earlier.flatMap fun before => codesOfText .cancun before.2) ++
        codesOfText .cancun text = [jumping, stopping, jumping, stopping] := by
      simp [earlier, htext, hbroken]
    rw [hlist]
    exact injOn_of_two (a := jumping) (b := stopping) (by simp) (by decide +kernel)
  obtain ⟨report, hreport, _, htells⟩ :=
    runText?_reports_verdicts_alone .cancun earlier "second" hread hdistinct
  exact ⟨cases, report, hread, hreport, htells, htells.passed.trans hpassing,
    htells.failed.trans hfailing⟩

end Fixture

end Evm
