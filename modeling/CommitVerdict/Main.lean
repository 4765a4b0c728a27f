import CommitVerdict.Description.Machine
import CommitVerdict.Json.Reader

open CommitVerdict

/-- Reads the whole input. -/
partial def readAllInput (input : IO.FS.Stream) (soFar : String) : IO String := do
  let line ← input.getLine
  if line.isEmpty then return soFar else readAllInput input (soFar ++ line)

/-- Reads the description of a machine from the standard input, runs a session on it with the arguments, and
writes what the session writes. -/
def main (arguments : List String) : IO UInt32 := do
  let input ← readAllInput (← IO.getStdin) ""
  let described := (Json.parse? input).getD (.object [])
  let transcript := CommandLine.run arguments (Description.surroundings described)
  (← IO.getStdout).putStr transcript.stdout
  (← IO.getStderr).putStr transcript.stderr
  return UInt32.ofNat transcript.exitCode
