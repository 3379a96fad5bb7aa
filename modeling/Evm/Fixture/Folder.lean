import Evm.Fixture.FileTree
import Evm.Fixture.Report

/-!
# Folders of fixtures

    The fixture files below a folder are run in the order of their places,
    which are compared name by name. Only files with the extension `json`
    count. Where a path leads to nothing, there are no fixtures; where it
    leads to a file, there is no folder to look into.
-/

namespace Evm.Fixture

/-- Whether a file name has the extension `json`, with something in front of
    it. -/
def isFixtureName (name : String) : Bool :=
  match (name.splitOn ".").reverse with
  | "json" :: stem => ".".intercalate stem.reverse ≠ ""
  | _ => false

/-- A fixture file: the names on its path from a folder on, and its text. -/
structure File where
  path : List String
  text : String
  deriving DecidableEq

/-- The fixtures below a place, in order. -/
def fixturesBelow (tree : FileTree) (place : Place) : List File :=
  tree.files.toList.filterMap fun entry =>
    if place.isPrefixOf entry.1 ∧ isFixtureName (entry.1.getLast?.getD "") then
      some ⟨entry.1.drop place.length, entry.2⟩
    else none

/-- A path leads to a file where a folder is needed. -/
inductive FolderError where
  | notAFolder
  deriving DecidableEq

/-- The fixtures of the folder that a path leads to. -/
def fixturesOf (tree : FileTree) (folder : String) : Except FolderError (List File) :=
  match tree.place? folder with
  | none => .ok []
  | some place =>
    if tree.isFile place then .error .notAFolder else .ok (fixturesBelow tree place)

/-- The name of a file below a folder: the folder's path as it was written,
    followed by the names from there on. -/
def nameBelow (folder : String) (path : List String) : String :=
  let rest := "/".intercalate path
  if folder.isEmpty ∨ folder.endsWith "/" then folder ++ rest else folder ++ "/" ++ rest

/-- Run one file of a folder. -/
def runFile (fork : Hardfork) (folder : String) (tally : Tally) (file : File) :
    StateM CodeCache Tally := do
  match (← runText? fork (nameBelow folder file.path) file.text) with
  | some report => return tally.add report
  | none => return tally.addUnreadable

/-- **Run a folder.** -/
def runFolder (fork : Hardfork) (tree : FileTree) (folder : String) :
    Except FolderError Tally :=
  (fixturesOf tree folder).map fun fixtures =>
    ((fixtures.foldlM (runFile fork folder) Tally.empty).run .empty).1

end Evm.Fixture
