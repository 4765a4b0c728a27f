import CommitVerdict.PathText
import CommitVerdict.Verdict

namespace CommitVerdict

/-- The directories of the two areas, relative to the root of the repository, as written. -/
structure ProjectLayout where
  testsDir : String
  codeDir : String
deriving DecidableEq, Repr

namespace ProjectLayout

def default : ProjectLayout := ⟨"tests", "src"⟩

def toJson (l : ProjectLayout) : Json :=
  .object [("tests_dir", .string l.testsDir), ("code_dir", .string l.codeDir)]

def decode (j : Json) : Decoded ProjectLayout := do
  let fields ← Json.recordFields "ProjectLayout"
    [Json.rule "tests_dir" Json.decodePath, Json.rule "code_dir" Json.decodePath] j
  return {
    testsDir := ← Json.require fields "tests_dir" Json.decodePath
    codeDir := ← Json.require fields "code_dir" Json.decodePath }

end ProjectLayout

/-- What a commit touches, and the number of its files. -/
structure ChangeSet where
  touchesTests : Bool
  touchesProductionCode : Bool
  filesChanged : Nat
deriving DecidableEq, Repr

namespace ChangeSet

/-- Reduces the changed files. A file counts for an area when it lies below it by whole components,
so `tests_util/x` is not among the tests. -/
def classify (files : List String) (layout : ProjectLayout) : ChangeSet where
  touchesTests := files.any (PathText.isBelow · layout.testsDir)
  touchesProductionCode := files.any (PathText.isBelow · layout.codeDir)
  filesChanged := files.length

/-- The verdict that needs no test run, if there is one. Without a change of production code the
parent's code is the commit's own, so there is nothing to compare. -/
def triage (c : ChangeSet) : Option Verdict :=
  match c.touchesTests, c.touchesProductionCode with
  | false, true => some .codeChangeWithoutTests
  | _, false => some .noUnitTestChange
  | true, true => none

def toJson (c : ChangeSet) : Json :=
  .object
    [("touches_tests", .bool c.touchesTests),
     ("touches_production_code", .bool c.touchesProductionCode),
     ("files_changed", .ofNat c.filesChanged)]

def decode (j : Json) : Decoded ChangeSet := do
  let fields ← Json.recordFields "ChangeSet"
    [Json.rule "touches_tests" Json.decodeBool,
     Json.rule "touches_production_code" Json.decodeBool,
     Json.rule "files_changed" Json.decodeCount] j
  return {
    touchesTests := ← Json.require fields "touches_tests" Json.decodeBool
    touchesProductionCode := ← Json.require fields "touches_production_code" Json.decodeBool
    filesChanged := ← Json.require fields "files_changed" Json.decodeCount }

end ChangeSet

end CommitVerdict
