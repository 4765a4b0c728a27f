import CommitVerdict.Number.Decimal

namespace CommitVerdict

/-- How a table came about. That decides what may still be added to it: nothing to an inline table; entries of
a dotted key only to tables made by dotted keys; and a header may complete a table that was only implied by
longer headers, but never one that has been given before. -/
inductive TomlOrigin where
  /-- Written in braces. -/
  | inline
  /-- Named on the way to the table of a header. -/
  | implied
  /-- Named on the way to the value of a dotted key. -/
  | dotted
  /-- Named by a header of its own. -/
  | header
deriving DecidableEq, Repr

inductive TomlFloat where
  | finite (x : Binary64)
  | infinite (negative : Bool)
  | nan
deriving DecidableEq, Repr

namespace TomlFloat

/-- Positional notation with the fewest digits that read back. -/
def text : TomlFloat → String
  | .finite x => x.shortest.positional.text
  | .infinite negative => if negative then "-inf" else "inf"
  | .nan => "NaN"

end TomlFloat

inductive Toml where
  | string (s : String)
  | integer (i : Int)
  | float (x : TomlFloat)
  | boolean (b : Bool)
  | datetime
  | array (items : List Toml)
  | table (origin : TomlOrigin) (entries : List (String × Toml))
  /-- Tables under headers in double brackets, in order. -/
  | tables (elements : List (List (String × Toml)))
deriving Repr, Inhabited

/-- A table: its entries in the order in which they were completed. -/
abbrev TomlEntries := List (String × Toml)

namespace TomlEntries

def find? (entries : TomlEntries) (key : String) : Option Toml :=
  (List.find? (fun entry => entry.1 == key) entries).map (·.2)

/-- Replaces the value of a key in place. -/
def replace (entries : TomlEntries) (key : String) (value : Toml) : TomlEntries :=
  List.map (fun entry => if entry.1 == key then (key, value) else entry) entries

def erase (entries : TomlEntries) (key : String) : TomlEntries :=
  List.filter (fun entry => entry.1 != key) entries

/-- Adds a value under a key and the dotted keys in front of it. -/
def assign : List String → String → Toml → TomlEntries → Option TomlEntries
  | [], key, value, entries =>
    if (find? entries key).isSome then none else some (entries ++ [(key, value)])
  | step :: path, key, value, entries =>
    match find? entries step with
    | none => (assign path key value []).map fun inner => entries ++ [(step, .table .dotted inner)]
    | some (.table .dotted inner) =>
      (assign path key value inner).map fun inner =>
        replace entries step (.table .dotted inner)
    | some (.table .implied inner) =>
      if path.isEmpty then none
      else
        (assign path key value inner).map fun inner =>
          replace entries step (.table .implied inner)
    | some (.tables elements) =>
      if path.isEmpty then none
      else
        (assign path key value (elements.getLast?.getD [])).map fun inner =>
          replace entries step (.tables (elements.dropLast ++ [inner]))
    | some _ => none

/-- Changes the table that the leading keys of a header lead to; tables on the way are implied. -/
def descend (change : TomlEntries → Option TomlEntries) :
    List String → TomlEntries → Option TomlEntries
  | [], entries => change entries
  | step :: path, entries =>
    match find? entries step with
    | none => (descend change path []).map fun inner => entries ++ [(step, .table .implied inner)]
    | some (.table .inline _) => none
    | some (.table origin inner) =>
      (descend change path inner).map fun inner => replace entries step (.table origin inner)
    | some (.tables elements) =>
      (descend change path (elements.getLast?.getD [])).map fun inner =>
        replace entries step (.tables (elements.dropLast ++ [inner]))
    | some _ => none

end TomlEntries

/-- A value under a key, with the dotted keys in front of it. -/
structure TomlAssignment where
  path : List String
  key : String
  value : Toml

/-- What a part of a document is about. -/
inductive TomlHeader where
  /-- The table of the document itself. -/
  | root
  /-- The table of a header in single brackets. -/
  | table (path : List String) (key : String)
  /-- A further table of a header in double brackets. -/
  | element (path : List String) (key : String)

/-- A part of a document: a header and the assignments under it. -/
structure TomlSection where
  header : TomlHeader
  assignments : List TomlAssignment

namespace TomlSection

def assignAll (assignments : List TomlAssignment) (entries : TomlEntries) : Option TomlEntries :=
  assignments.foldlM (fun entries a => TomlEntries.assign a.path a.key a.value entries) entries

/-- Adds a part to a document. A table that was implied so far moves behind all others when its
header comes. -/
def addTo (document : TomlEntries) (part : TomlSection) : Option TomlEntries :=
  match part.header with
  | .root => assignAll part.assignments document
  | .table path key =>
    let complete (entries : TomlEntries) : Option TomlEntries := do
      let start ← match TomlEntries.find? entries key with
        | none => some []
        | some (.table .implied inner) => some inner
        | some _ => none
      let inner ← assignAll part.assignments start
      some (TomlEntries.erase entries key ++ [(key, .table .header inner)])
    TomlEntries.descend complete path document
  | .element path key =>
    let extend (entries : TomlEntries) : Option TomlEntries := do
      let inner ← assignAll part.assignments []
      match TomlEntries.find? entries key with
      | none => some (entries ++ [(key, .tables [inner])])
      | some (.tables elements) =>
        some (TomlEntries.replace entries key (.tables (elements ++ [inner])))
      | some _ => none
    TomlEntries.descend extend path document

/-- The document that parts make up; none if one of them contradicts those before it. -/
def document? (parts : List TomlSection) : Option TomlEntries := parts.foldlM addTo []

end TomlSection

end CommitVerdict
