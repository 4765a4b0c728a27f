import CommitVerdict.Duration
import CommitVerdict.Text.Quoted

namespace CommitVerdict

/-- What stands in a document where something else was expected. -/
inductive Unexpected where
  | bool (b : Bool)
  | integer (i : Int)
  /-- A number that is no integer, in the form in which the document's format writes it. -/
  | real (text : String)
  | string (s : String)
  | null
  | sequence
  | map
deriving DecidableEq, Repr

namespace Unexpected

def describe : Unexpected → String
  | .bool b => s!"boolean `{b}`"
  | .integer i => s!"integer `{i}`"
  | .real text => s!"floating point `{text}`"
  | .string s => s!"string {quoted s}"
  | .null => "null"
  | .sequence => "sequence"
  | .map => "map"

end Unexpected

/-- Why a document does not describe a value of a type. -/
inductive DecodeError where
  | invalidType (found : Unexpected) (expected : String)
  | invalidValue (found : Unexpected) (expected : String)
  | invalidLength (length : Nat) (expected : String)
  | missingField (name : String)
  | unknownVariant (name : String) (expected : List String)
  | unknownField (name : String) (expected : List String)
  /-- A text that is refused for a reason of its own type. -/
  | refused (reason : String)
  /-- A number of seconds that is no duration. -/
  | duration (reason : Duration.OutOfRange)
deriving DecidableEq, Repr

namespace DecodeError

/-- The alternatives to an unknown name: two are joined by "or", more follow "one of". -/
def alternatives : List String → String
  | [] => "there are no variants"
  | [a] => s!"expected `{a}`"
  | [a, b] => s!"expected `{a}` or `{b}`"
  | names => "expected one of " ++ ", ".intercalate (names.map fun name => s!"`{name}`")

def message : DecodeError → String
  | .invalidType found expected => s!"invalid type: {found.describe}, expected {expected}"
  | .invalidValue found expected => s!"invalid value: {found.describe}, expected {expected}"
  | .invalidLength length expected => s!"invalid length {length}, expected {expected}"
  | .missingField name => s!"missing field `{name}`"
  | .unknownVariant name expected => s!"unknown variant `{name}`, {alternatives expected}"
  | .unknownField name expected => s!"unknown field `{name}`, {alternatives expected}"
  | .refused reason => reason
  | .duration reason => reason.message

/-- Whether the error is no refusal of the document but ends the program. A number of seconds does so that is
made a duration although it is none, since nothing looks at it before. -/
def aborts : DecodeError → Bool
  | .duration _ => true
  | _ => false

end DecodeError

/-- The result of decoding a document. -/
abbrev Decoded (α : Type) := Except DecodeError α

end CommitVerdict
