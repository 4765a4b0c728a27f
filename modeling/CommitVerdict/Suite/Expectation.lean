import CommitVerdict.FileSystem
import CommitVerdict.Suite

namespace CommitVerdict

namespace Expectation

/-- The end of the names of expectations. -/
def suffix : List Char := ".expect".toList

/-- The name that an expectation is about. -/
def subject? (name : String) : Option String :=
  let cs := name.toList
  if suffix.isSuffixOf cs then some (String.ofList (cs.take (cs.length - suffix.length))) else none

/-- The text of a file. -/
def content? (files : Directory) (path : String) : Option String :=
  (FileSystem.read files [] path).toOption.map Utf8.text

/-- The expectations in a directory, in the order of their names. -/
def expectations (files : Directory) (testsDir : String) : List (String × String) :=
  match FileSystem.canonicalize files [] testsDir with
  | .error _ => []
  | .ok directory =>
    let names := (files.names directory).mergeSort fun a b => decide (a ≤ b)
    names.filterMap fun name => do
      let subject ← subject? name
      let wanted ← content? files (PathText.join testsDir name)
      some (subject, wanted)

/-- Why an expectation is not met; none if it is met. -/
def complaint? (files : Directory) (codeDir subject wanted : String) : Option String :=
  let path := PathText.join codeDir subject
  if wanted = "any" then none
  else if wanted = "fail" then some s!"{subject}: forced failure"
  else if wanted = "absent" && !FileSystem.existsAt files [] path then none
  else
    match content? files path with
    | some actual =>
      if actual = wanted then none else some s!"{subject}: expected <{wanted}>, got <{actual}>"
    | none => some s!"{subject}: expected <{wanted}>, got nothing"

def run (testsDir codeDir : String) (files : Directory) : TestRun :=
  let wanted := expectations files testsDir
  match wanted.findSome? fun row => complaint? files codeDir row.1 row.2 with
  | some reason => .finished "" s!"FAIL: {reason}" 1 .millisecond
  | none => .finished s!"Ran {wanted.length} tests\nOK" "" 0 .millisecond

/-- The suite; it changes no files and remembers nothing. -/
def suite (program : String) (available : Bool) (testsDir codeDir : String) : Suite Unit where
  name := program
  program := program
  available := available
  invoke _ files :=
    let r := run testsDir codeDir files
    ⟨r, Suite.outputLines r, files, ()⟩

end Expectation

end CommitVerdict
