import CommitVerdict.Utility.Condition
import CommitVerdict.Utility.Files
import CommitVerdict.Utility.Filters
import CommitVerdict.Utility.Print

namespace CommitVerdict

namespace Utility

/-- Programs that do nothing but end with a status. -/
def constant (status : UInt8) : Utility := fun c => c.exit status

/-- The programs by their names. -/
def catalogue : List (String × Utility) :=
  [("[", test), ("basename", basename), ("cat", cat), ("chmod", chmod), ("cmp", cmp),
   ("cp", transfer false), ("dirname", dirname), ("echo", echo .program), ("false", constant 1),
   ("grep", grep), ("head", head), ("ln", ln), ("ls", ls), ("mkdir", mkdir), ("mv", transfer true),
   ("printf", printf .program), ("pwd", pwd), ("rm", rm), ("rmdir", rmdir), ("seq", seq),
   ("sleep", constant 0), ("sort", sort), ("sync", constant 0), ("tail", tail), ("tee", tee),
   ("test", test), ("touch", touch), ("tr", tr), ("true", constant 0), ("uniq", uniq), ("wc", wc),
   ("yes", yes)]

def named? (name : String) : Option Utility :=
  (catalogue.find? fun entry => entry.1 == name).map (·.2)

end Utility

/-- What the file of a program makes the system run. A copy of the file is the same program. -/
inductive Image where
  /-- A program that the machine comes with. -/
  | program (name : String)
  /-- A script, with the program that reads it and the argument that this program gets first. -/
  | script (interpreter : String) (argument : Option String)
deriving DecidableEq, Repr

namespace Image

/-- The mark of machine code. -/
def mark : Bytes := [127, 69, 76, 70]

/-- The content of the file of a program. -/
def content (name : String) : Bytes := mark ++ Utf8.encode name

/-- Reads the content of a file that is to be run. The first line of a script names its interpreter
after a number sign and an exclamation mark. -/
def read? (content : Bytes) : Option Image :=
  if mark.isPrefixOf content then some (.program (Utf8.text (content.drop mark.length)))
  else
    match content with
    | 35 :: 33 :: rest =>
      let isSpace (b : UInt8) : Bool := b == 32 || b == 9
      let line := (rest.takeWhile fun b => b != 10).dropWhile isSpace
      let line := (line.reverse.dropWhile isSpace).reverse
      let interpreter := line.takeWhile fun b => !isSpace b
      let argument := (line.drop interpreter.length).dropWhile isSpace
      if interpreter.isEmpty then none
      else
        some (.script (Utf8.text interpreter)
          (if argument.isEmpty then none else some (Utf8.text argument)))
    | _ => none

/-- The names of the shell. -/
def shellNames : List String := ["sh", "dash"]

/-- The program that runs another one in a changed environment. -/
def environmentName : String := "env"

/-- The directory of the programs. -/
def directory : Path := ["usr", "bin"]

/-- The files of the programs, on an otherwise empty machine. -/
def installed : FileSystem :=
  let names := shellNames ++ environmentName :: Utility.catalogue.map (·.1)
  let programs := names.map fun name =>
    (directory ++ [name], Leaf.entry (.executable (content name)))
  Tree.ofLeaves
    ((["bin"], .entry (.link "usr/bin")) :: (["dev", "null"], .entry (.file []))
      :: (Utility.zeroPath, .entry (.file [])) :: (["root"], .emptyDirectory)
      :: (["tmp"], .emptyDirectory) :: programs)

/-- The search path on which the programs are found. -/
def searchPath : String := "/usr/local/sbin:/usr/local/bin:/usr/sbin:/usr/bin:/sbin:/bin"

end Image

end CommitVerdict
