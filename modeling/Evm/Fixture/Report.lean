import Evm.Fixture.Rate
import Evm.Fixture.Reader
import Evm.Fixture.Verdict

/-!
# Reports

    All cases of a file are run one after another, in the order of their
    names, and sorted into those that pass and those that fail. Reports on
    several files add up to a tally. One cache of jump analyses serves all
    cases of all files.
-/

namespace Evm.Fixture

/-! ## One file -/

/-- The report on a file. -/
structure Report where
  /-- The name of the file. -/
  source : String
  /-- The cases that pass. -/
  passed : List String
  /-- The cases that fail, each with the reason. -/
  failed : List (String × Failure)
  deriving DecidableEq

namespace Report

/-- The report on a file without cases. -/
def empty (source : String) : Report := ⟨source, [], []⟩

/-- Add the verdict on one case. -/
def add (report : Report) (name : String) : Verdict → Report
  | .ok () => { report with passed := report.passed ++ [name] }
  | .error failure => { report with failed := report.failed ++ [(name, failure)] }

/-- How many cases there are. -/
def total (report : Report) : Nat := report.passed.length + report.failed.length

/-- The share of the cases that pass. -/
def passRate (report : Report) : Rate := .percentage report.passed.length report.total

end Report

/-- Run the cases of a file. -/
def runCases (fork : Hardfork) (source : String) (cases : CaseFile) :
    StateM CodeCache Report :=
  cases.foldlM
    (fun report entry => do return report.add entry.1 (← entry.2.run fork)) (.empty source)

/-- **Run a file** given as text, if it can be read. -/
def runText? (fork : Hardfork) (source text : String) : StateM CodeCache (Option Report) :=
  match readFile? text with
  | none => return none
  | some cases => return some (← runCases fork source cases)

/-! ## Many files -/

/-- What is known of all files together. -/
structure Tally where
  passed : Nat
  failed : Nat
  /-- Files that could not be read. -/
  unreadable : Nat
  /-- The cases that fail, named after their file and themselves, each with
      the reason. -/
  failures : List (String × Failure)
  deriving DecidableEq

namespace Tally

/-- Nothing is known yet. -/
def empty : Tally := ⟨0, 0, 0, []⟩

/-- Add a report. -/
def add (tally : Tally) (report : Report) : Tally :=
  { tally with
    passed := tally.passed + report.passed.length
    failed := tally.failed + report.failed.length
    failures :=
      tally.failures ++ report.failed.map fun f => (s!"{report.source}::{f.1}", f.2) }

/-- Add a file that could not be read. -/
def addUnreadable (tally : Tally) : Tally := { tally with unreadable := tally.unreadable + 1 }

/-- How many cases were run. -/
def total (tally : Tally) : Nat := tally.passed + tally.failed

/-- The share of the cases that pass. -/
def passRate (tally : Tally) : Rate := .percentage tally.passed tally.total

/-- Whether every case passed and every file could be read. -/
def allPassed (tally : Tally) : Bool := tally.failed == 0 && tally.unreadable == 0

end Tally

end Evm.Fixture
