import CommitVerdict.Host
import CommitVerdict.Json.Basic
import CommitVerdict.Text.Hex

namespace CommitVerdict

namespace Description

/-- A multiplier whose multiples are spread over all ids. -/
def spread : Nat := 903257686484120154655273696409592283959795001195

/-- The id of the commit of a number. -/
def commitId (n : Nat) : CommitId := .ofNat ((n + 1) * spread)

def field (j : Json) (name : String) : Option Json :=
  match j with
  | .object fields =>
    match Json.lookup fields name with
    | some .null => none
    | other => other
  | _ => none

def items : Json → List Json
  | .array xs => xs
  | _ => []

def fields : Json → List (String × Json)
  | .object fs => fs
  | _ => []

def text : Json → String
  | .string s => s
  | _ => ""

def natural : Json → Nat
  | .number n => n.whole
  | _ => 0

/-- The bytes that pairs of hexadecimal digits write. -/
def hexBytes : List Char → Bytes
  | a :: b :: rest =>
    match hexValue? [a, b] with
    | some value => UInt8.ofNat value :: hexBytes rest
    | none => hexBytes rest
  | _ => []

/-- The entry that a value describes: a text for a file, or an object that says what kind of entry
it is. -/
def asEntry (j : Json) : Option Entry :=
  match j with
  | .string s => some (.file (Utf8.encode s))
  | _ =>
    match field j "exec", field j "link", field j "hex" with
    | some content, _, _ => some (.executable (Utf8.encode (text content)))
    | _, some target, _ => some (.link (text target))
    | _, _, some digits => some (.file (hexBytes (text digits).toList))
    | none, none, none => none

/-- What a map of files asks for, in the order of its paths. A path with a trailing slash is a
directory. -/
def plantings (j : Json) : List (String × Planting) :=
  (fields j).filterMap fun (path, value) =>
    if path.endsWith "/" then some (path, .directory)
    else (asEntry value).map fun e => (path, .entry e)

/-- A tree after the changes of a commit. A value of null removes a path with everything below it, any other
value puts an entry there, and all removals come first. -/
def editedTree (base : Snapshot) (edits : List (String × Json)) : Snapshot :=
  let isRemoval (edit : String × Json) : Bool := edit.2 == .null
  let removed := (edits.filter isRemoval).foldl
    (fun tree edit => tree.removeBelow (Path.ofText edit.1)) base
  removed.putAll (edits.filterMap fun edit => (asEntry edit.2).map fun e => (Path.ofText edit.1, e))

/-- Adds the commit of a number to a history. -/
def addCommit (h : History) (number : Nat) (j : Json) : History :=
  let parents := match field j "parents" with
    | some numbers => (items numbers).map natural
    | none => if number = 0 then [] else [number - 1]
  let base := match (parents.head?.map commitId).bind h.find? with
    | some parent => parent.tree
    | none => Tree.empty
  let message := ((field j "message").map text).getD s!"commit {number}"
  let commit : Commit :=
    ⟨commitId number, parents.map commitId, message,
     editedTree base (((field j "files").map fields).getD [])⟩
  (h.add? commit).getD h

/-- The history that its commits describe. They are numbered from zero, and each of them is given by the
changes to the tree of its first parent. -/
def history (commits : List Json) : History :=
  commits.zipIdx.foldl (fun h entry => addCommit h entry.2 entry.1) .empty

def tag (name : String) (j : Json) : Tag :=
  match field j "annotated" with
  | some number => ⟨name, commitId (natural number), true⟩
  | none => ⟨name, commitId (natural j), false⟩

/-- Where a repository stands that has a branch, or a commit of its own if the history holds it. -/
def head (h : History) (main : String) (detached : Option CommitId) :
    { head : Head // ∀ id, head = .detached id → h.Holds id } :=
  match detached with
  | none => ⟨.branch main, by simp⟩
  | some id => if held : h.Holds id then ⟨.detached id, by simp [held]⟩ else ⟨.branch main, by simp⟩

/-- The repository that a document describes. Names that lead to no commit are left out. -/
def repository (j : Json) : Repository :=
  let commits := ((field j "commits").map items).getD []
  let main := ((field j "head").map text).getD "main"
  let branches : Branches := match field j "branches" with
    | some named => (fields named).map fun (name, number) => (name, commitId (natural number))
    | none => if commits.isEmpty then [] else [(main, commitId (commits.length - 1))]
  let tags := (((field j "tags").map fields).getD []).map fun (name, value) => tag name value
  let h := history commits
  let stand := head h main ((field j "detached").map fun number => commitId (natural number))
  { history := h
    head := stand.1
    branches := List.filter (fun branch => decide (h.Holds branch.2)) branches
    tags := tags.filter fun tag => decide (h.Holds tag.target)
    headHeld := stand.2
    branchesHeld := fun _ member => of_decide_eq_true (List.mem_filter.mp member).2
    tagsHeld := fun _ member => of_decide_eq_true (List.mem_filter.mp member).2 }

end Description

end CommitVerdict
