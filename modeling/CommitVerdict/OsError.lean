namespace CommitVerdict

/-- Errors that the operating system reports. -/
inductive OsError where
  | notFound
  | executableFormat
  | permissionDenied
  | exists
  | notDirectory
  | isDirectory
  | tooManyLinks
  /-- A name or an argument has a byte that ends texts. -/
  | nulByte
  | other (text : String)
deriving DecidableEq, Repr

namespace OsError

/-- What is wrong, in the words of the system. -/
def reason : OsError → String
  | .notFound => "No such file or directory"
  | .executableFormat => "Exec format error"
  | .permissionDenied => "Permission denied"
  | .exists => "File exists"
  | .notDirectory => "Not a directory"
  | .isDirectory => "Is a directory"
  | .tooManyLinks => "Too many levels of symbolic links"
  | .nulByte => "nul byte found in provided data"
  | .other text => text

/-- The number of the error; none for what is found before the system is asked. -/
def number? : OsError → Option Nat
  | .notFound => some 2
  | .executableFormat => some 8
  | .permissionDenied => some 13
  | .exists => some 17
  | .notDirectory => some 20
  | .isDirectory => some 21
  | .tooManyLinks => some 40
  | .nulByte => none
  | .other _ => none

def message (e : OsError) : String :=
  match e.number? with
  | some number => s!"{e.reason} (os error {number})"
  | none => e.reason

end OsError

end CommitVerdict
