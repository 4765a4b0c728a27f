import CommitVerdict.Number.Literal

namespace CommitVerdict

/-- Numbers keep their written form and objects keep their fields in written order, so a document can be
compared with its text. -/
inductive Json where
  | null
  | bool (b : Bool)
  | number (n : NumberLiteral)
  | string (s : String)
  | array (items : List Json)
  | object (fields : List (String × Json))
deriving Repr, Inhabited, BEq

namespace Json

def ofNat (n : Nat) : Json := .number (.ofNat n)

def ofInt (i : Int) : Json := .number (.ofInt i)

def ofStrings (xs : List String) : Json := .array (xs.map .string)

/-- The value of the first field of that name. -/
def lookup (fields : List (String × Json)) (name : String) : Option Json :=
  (fields.find? fun field => field.1 == name).map (·.2)

/-- Puts a field into a list sorted by name; a field of the same name is replaced. -/
def insertField (name : String) (value : Json) : List (String × Json) → List (String × Json)
  | [] => [(name, value)]
  | field :: rest =>
    if name < field.1 then (name, value) :: field :: rest
    else if name = field.1 then (name, value) :: rest
    else field :: insertField name value rest

/-- Sorts fields by name; of several with one name the last stands. -/
def sortFields (fields : List (String × Json)) : List (String × Json) :=
  fields.foldl (fun sorted field => insertField field.1 field.2 sorted) []

mutual

/-- The document with the fields of every object sorted by name. Of several fields with one name the last
stands. -/
def sorted : Json → Json
  | .array items => .array (sortedItems items)
  | .object fields => .object (sortFields (sortedValues fields))
  | leaf => leaf

/-- Sorts within the items of an array. -/
def sortedItems : List Json → List Json
  | [] => []
  | item :: rest => sorted item :: sortedItems rest

/-- Sorts within the values of fields. -/
def sortedValues : List (String × Json) → List (String × Json)
  | [] => []
  | (name, value) :: rest => (name, sorted value) :: sortedValues rest

end

end Json

end CommitVerdict
