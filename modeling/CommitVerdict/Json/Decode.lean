import CommitVerdict.Json.Number
import CommitVerdict.DecodeError

namespace CommitVerdict

namespace Json

/-- A document as something that was not expected. -/
def unexpected : Json → Unexpected
  | .null => .null
  | .bool b => .bool b
  | .string s => .string s
  | .array _ => .sequence
  | .object _ => .map
  | .number n =>
    match n.reading? with
    | some (.natural n) => .integer n
    | some (.negative i) => .integer i
    | some (.real x) => .real x.literal.text
    | none => .real n.text

def decodeBool : Json → Decoded Bool
  | .bool b => .ok b
  | other => .error (.invalidType other.unexpected "a boolean")

def decodeString : Json → Decoded String
  | .string s => .ok s
  | other => .error (.invalidType other.unexpected "a string")

/-- A path, written as a string. -/
def decodePath : Json → Decoded String
  | .string s => .ok s
  | other => .error (.invalidType other.unexpected "path string")

/-- An integer between two bounds, named `expected` in errors. -/
def decodeInteger (low high : Int) (expected : String) (j : Json) : Decoded Int :=
  let bounded (i : Int) : Decoded Int :=
    if low ≤ i && i ≤ high then .ok i else .error (.invalidValue (.integer i) expected)
  match j with
  | .number n =>
    match n.reading? with
    | some (.natural n) => bounded n
    | some (.negative i) => bounded i
    | _ => .error (.invalidType (Json.number n).unexpected expected)
  | other => .error (.invalidType other.unexpected expected)

/-- A count: a natural number below `2 ^ 64`. -/
def decodeCount (j : Json) : Decoded Nat :=
  (decodeInteger 0 (Int.pow 2 64 - 1) "usize" j).map Int.toNat

/-- An exit code: a signed integer of 32 bits. -/
def decodeExitCode (j : Json) : Decoded Int :=
  decodeInteger (-Int.pow 2 31) (Int.pow 2 31 - 1) "i32" j

/-- A double; integers are accepted too. -/
def decodeReal (j : Json) : Decoded Binary64 :=
  match j with
  | .number n =>
    match n.reading? with
    | some reading => .ok reading.toBinary64
    | none => .error (.invalidType j.unexpected "f64")
  | other => .error (.invalidType other.unexpected "f64")

/-- A duration, written as a number of seconds. -/
def decodeDuration (j : Json) : Decoded Duration := do
  let seconds ← decodeReal j
  (Duration.ofSeconds seconds).mapError DecodeError.duration

def decodeList {α : Type} (decode : Json → Decoded α) : Json → Decoded (List α)
  | .array items => items.mapM decode
  | other => .error (.invalidType other.unexpected "a sequence")

/-- One of a few names: a string, or an object with the name as its only field, of value null. -/
def decodeName {α : Type} (names : List (String × α)) (j : Json) : Decoded α := do
  let variant (name : String) : Decoded α :=
    match names.find? fun entry => entry.1 == name with
    | some entry => .ok entry.2
    | none => .error (.unknownVariant name (names.map (·.1)))
  match j with
  | .string name => variant name
  | .object [(name, content)] =>
    let value ← variant name
    match content with
    | .null => .ok value
    | other => .error (.invalidType other.unexpected "unit")
  | .object _ => .error (.invalidValue .map "map with a single key")
  | other => .error (.invalidType other.unexpected "string or map")

/-- A field of a record: its name, and the check that its value has to pass. -/
structure FieldRule where
  name : String
  check : Json → Decoded Unit

/-- The rule of a field that is decoded by `decode`. -/
def rule {α : Type} (name : String) (decode : Json → Decoded α) : FieldRule :=
  ⟨name, fun j => (decode j).map fun _ => ()⟩

/-- How a record of some fields is named in errors. -/
structure RecordName where
  /-- The record in an array that is too short. -/
  short : String
  /-- The record in an array that is too long. -/
  long : String

/-- Visits the fields of an object and checks those that the record has. -/
def visitFields (rules : List FieldRule) (fields : List (String × Json)) : Decoded Unit :=
  fields.forM fun field =>
    match rules.find? fun rule => rule.name == field.1 with
    | some rule => rule.check field.2
    | none => .ok ()

/-- Names the items of an array after the fields of the record, in declaration order. -/
def nameItems (record : RecordName) (rules : List FieldRule) (items : List Json) :
    Decoded (List (String × Json)) := do
  (rules.zip items).forM fun (rule, item) => rule.check item
  if items.length < rules.length then
    .error (.invalidLength items.length record.short)
  else if rules.length < items.length then
    .error (.invalidLength items.length record.long)
  else
    .ok ((rules.map (·.name)).zip items)

/-- The value of a field that the record cannot do without. -/
def require {α : Type} (fields : List (String × Json)) (name : String)
    (decode : Json → Decoded α) : Decoded α :=
  match lookup fields name with
  | some value => decode value
  | none => .error (.missingField name)

/-- The fields of a record, which is written as an object of its fields or as an array of them in declaration
order. The fields of an object are visited in the order of their names and the first bad value is the error;
fields that the record does not have are ignored, and a field of an object may be missing. -/
def recordFields (name : String) (rules : List FieldRule) (j : Json) :
    Decoded (List (String × Json)) := do
  let short := s!"struct {name} with {rules.length} elements"
  match j with
  | .object fields =>
    visitFields rules fields
    .ok fields
  | .array items => nameItems ⟨short, "fewer elements in array"⟩ rules items
  | other => .error (.invalidType other.unexpected s!"struct {name}")

/-- A variant of a tagged union: its tag, the name of its record and its fields. -/
structure VariantRule where
  tag : String
  record : String
  fields : List FieldRule

/-- A number of elements in words. -/
def elements (n : Nat) : String := if n = 1 then "1 element" else s!"{n} elements"

/-- The tag and the fields of a tagged union, which is an object with the tag among its fields or an
array with the tag in front. -/
def taggedFields (union tagName : String) (variants : List VariantRule) (j : Json) :
    Decoded (String × List (String × Json)) := do
  let variant (tag : Json) : Decoded VariantRule :=
    match tag with
    | .string s =>
      match variants.find? fun variant => variant.tag == s with
      | some variant => .ok variant
      | none => .error (.unknownVariant s (variants.map (·.tag)))
    | other => .error (.invalidType other.unexpected "variant identifier")
  match j with
  | .object fields =>
    match lookup fields tagName with
    | none => .error (.missingField tagName)
    | some tag =>
      let variant ← variant tag
      let rest := fields.filter fun field => field.1 != tagName
      visitFields variant.fields rest
      .ok (variant.tag, rest)
  | .array [] => .error (.missingField tagName)
  | .array (tag :: items) =>
    let variant ← variant tag
    let count := variant.fields.length
    let short := s!"struct variant {union}::{variant.record} with {elements count}"
    let long := s!"{elements count} in sequence"
    let fields ← nameItems ⟨short, long⟩ variant.fields items
    .ok (variant.tag, fields)
  | other => .error (.invalidType other.unexpected s!"internally tagged enum {union}")

end Json

end CommitVerdict
