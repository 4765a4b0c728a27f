import CommitVerdict.TestRun

namespace CommitVerdict

/-- The judgement on the tests that a commit changes. -/
inductive Verdict where
  /-- Production code changed and tests did not; nothing was run. -/
  | codeChangeWithoutTests
  /-- There is nothing to measure. -/
  | noUnitTestChange
  /-- The suite fails on the commit itself, and may pass on the parent's production code. -/
  | couldNotPass (testsDoNotBreakAnything : Bool)
  /-- The suite passes with and without the change. -/
  | testsDoNotBreakAnything
  | legitimate
deriving DecidableEq, Repr

namespace Verdict

def codeWithoutTestsMessage : String := "Code changes without unittests"
def noTestChangeMessage : String := "No change to unittests"
def couldNotPassMessage : String := "Could not pass unittests"
def testsDoNotBreakMessage : String := "Unittests do not break any codes"
def legitimateMessage : String := "Legitimate unittests"

/-- All messages there are. -/
def allMessages : List String :=
  [codeWithoutTestsMessage, noTestChangeMessage, couldNotPassMessage, testsDoNotBreakMessage,
   legitimateMessage]

/-- The verdict on two findings: the suite fails on the commit, and the suite passes on the
parent's production code. -/
def ofFlags : Bool → Bool → Verdict
  | true, both => .couldNotPass both
  | false, true => .testsDoNotBreakAnything
  | false, false => .legitimate

/-- The verdict on the outcome with the change and the one without it. -/
def ofPhases (postChange preChange : TestOutcome) : Verdict :=
  ofFlags (!postChange.isPass) preChange.isPass

/-- The messages of a verdict, one for each finding. -/
def messages : Verdict → List String
  | .codeChangeWithoutTests => [codeWithoutTestsMessage]
  | .noUnitTestChange => [noTestChangeMessage]
  | .couldNotPass true => [couldNotPassMessage, testsDoNotBreakMessage]
  | .couldNotPass false => [couldNotPassMessage]
  | .testsDoNotBreakAnything => [testsDoNotBreakMessage]
  | .legitimate => [legitimateMessage]

/-- Whether the verdict fails a batch. -/
def isFailure : Verdict → Bool
  | .legitimate => false
  | .noUnitTestChange => false
  | _ => true

/-- All messages on one line. -/
def shortDescription (v : Verdict) : String := "; ".intercalate v.messages

/-- The tag that names the kind of verdict in documents. -/
def tag : Verdict → String
  | .codeChangeWithoutTests => "code_change_without_tests"
  | .noUnitTestChange => "no_unit_test_change"
  | .couldNotPass _ => "could_not_pass"
  | .testsDoNotBreakAnything => "tests_do_not_break_anything"
  | .legitimate => "legitimate"

def toJson (v : Verdict) : Json :=
  let fields := match v with
    | .couldNotPass flag => [("tests_do_not_break_anything", Json.bool flag)]
    | _ => []
  .object (("type", .string v.tag) :: fields)

/-- The shapes of the kinds of verdict in documents. -/
def variantRules : List Json.VariantRule :=
  [⟨"code_change_without_tests", "CodeChangeWithoutTests", []⟩,
   ⟨"no_unit_test_change", "NoUnitTestChange", []⟩,
   ⟨"could_not_pass", "CouldNotPass",
     [Json.rule "tests_do_not_break_anything" Json.decodeBool]⟩,
   ⟨"tests_do_not_break_anything", "TestsDoNotBreakAnything", []⟩,
   ⟨"legitimate", "Legitimate", []⟩]

def decode (j : Json) : Decoded Verdict := do
  let (tag, fields) ← Json.taggedFields "Verdict" "type" variantRules j
  match tag with
  | "code_change_without_tests" => return .codeChangeWithoutTests
  | "no_unit_test_change" => return .noUnitTestChange
  | "could_not_pass" =>
    return .couldNotPass (← Json.require fields "tests_do_not_break_anything" Json.decodeBool)
  | "tests_do_not_break_anything" => return .testsDoNotBreakAnything
  | _ => return .legitimate

end Verdict

end CommitVerdict
