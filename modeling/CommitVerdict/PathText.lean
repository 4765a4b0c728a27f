namespace CommitVerdict

namespace PathText

/-- Splits at slashes: the pieces between them, empty ones included. -/
def pieces : List Char → List (List Char)
  | [] => [[]]
  | c :: rest =>
    match pieces rest with
    | [] => [[c]]
    | piece :: more => if c = '/' then [] :: piece :: more else (c :: piece) :: more

def isAbsolute (path : String) : Bool := path.toList.head? == some '/'

/-- Whether a piece names a file or a directory. -/
def isName (piece : List Char) : Bool := !piece.isEmpty && piece != ['.']

/-- The components of a path: the root is written as a slash, a leading dot as a dot. Repeated and trailing
slashes and every other lone dot carry no meaning; two dots are an ordinary component. -/
def components (path : String) : List String :=
  let cs := path.toList
  let first := match pieces cs with
    | [] :: _ :: _ => ["/"]
    | ['.'] :: _ => ["."]
    | _ => []
  first ++ ((pieces cs).filter isName).map String.ofList

/-- The path without its last component; none for the empty path and for the root. -/
def parent? (path : String) : Option String :=
  match (components path).reverse with
  | [] => none
  | ["/"] => none
  | _ :: parents =>
    match parents.reverse with
    | "/" :: names => some ("/" ++ "/".intercalate names)
    | names => some ("/".intercalate names)

/-- A path as seen from a directory; an absolute path stands for itself. -/
def join (directory path : String) : String :=
  if isAbsolute path || directory.isEmpty then path
  else if directory.endsWith "/" then directory ++ path
  else directory ++ "/" ++ path

/-- Whether `path` is `area` or lies below it, component by component. -/
def isBelow (path area : String) : Bool := (components area).isPrefixOf (components path)

end PathText

end CommitVerdict
