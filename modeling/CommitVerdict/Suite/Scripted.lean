import CommitVerdict.FileSystem
import CommitVerdict.Suite

namespace CommitVerdict

/-- A step writes and removes files of the working directory and then gives a fixed result. -/
structure ScriptStep where
  write : List (String × Planting)
  remove : List String
  run : TestRun

namespace Scripted

def silent : ScriptStep := ⟨[], [], .finished "" "" 0 .zero⟩

/-- The step of the run of a number, counted from zero. -/
def stepAt (script : List ScriptStep) (number : Nat) : ScriptStep :=
  (script[number]?.orElse fun _ => script.getLast?).getD silent

/-- The suite; it remembers the number of its runs. -/
def suite (program : String) (available : Bool) (script : List ScriptStep) : Suite Nat where
  name := program
  program := program
  available := available
  invoke number files :=
    let step := stepAt script number
    let files := FileSystem.plantAll files [] step.write
    let files := step.remove.foldl (fun files path => FileSystem.removeAll files [] path) files
    ⟨step.run, Suite.outputLines step.run, files, number + 1⟩

end Scripted

end CommitVerdict
