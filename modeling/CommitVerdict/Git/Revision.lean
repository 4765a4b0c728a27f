import CommitVerdict.Git.WorkingCopy

namespace CommitVerdict

inductive RevisionBase where
  | name (text : String)
  /-- The latest position of a name, `NAME@` with a zero in braces. -/
  | latest (name : String)
  /-- The newest commit whose message contains a text. -/
  | message (text : String)
deriving DecidableEq, Repr

inductive RevisionStep where
  /-- That many first parents up. -/
  | ancestor (n : Nat)
  /-- The parent of that number; zero stands for the commit itself. -/
  | parent (n : Nat)
  /-- The commit that a tag leads to, or the commit itself. -/
  | peel
  /-- Nothing but an annotated tag. -/
  | tag
  /-- The newest ancestor whose message contains a text. -/
  | message (text : String)
deriving DecidableEq, Repr

/-- A reference to a commit, as users write it: a base and steps from it. -/
structure Revision where
  base : RevisionBase
  steps : List RevisionStep
deriving DecidableEq, Repr

namespace Revision

/-- The text up to a closing brace, and what follows it. -/
def untilBrace : List Char → Option (List Char × List Char)
  | [] => none
  | '\x7d' :: rest => some ([], rest)
  | c :: rest => (untilBrace rest).map fun (content, left) => (c :: content, left)

/-- The step that stands in braces. -/
def bracedStep? (content : List Char) : Option RevisionStep :=
  match content with
  | [] => some .peel
  | '/' :: text => some (.message (.ofList text))
  | _ =>
    if content = "commit".toList then some .peel
    else if content = "tag".toList then some .tag
    else none

/-- A count in front of the rest of a text; one if there is no digit. -/
def readCount (cs : List Char) : Nat × List Char :=
  let digits := cs.takeWhile Char.isDigit
  if digits.isEmpty then (1, cs)
  else ((String.ofList digits).toNat?.getD 0, cs.dropWhile Char.isDigit)

def readSteps : Nat → List Char → Option (List RevisionStep)
  | _, [] => some []
  | 0, _ => none
  | fuel + 1, '~' :: rest =>
    let (n, rest) := readCount rest
    (readSteps fuel rest).map (.ancestor n :: ·)
  | fuel + 1, '^' :: '\x7b' :: rest => do
    let (content, rest) ← untilBrace rest
    let step ← bracedStep? content
    (readSteps fuel rest).map (step :: ·)
  | fuel + 1, '^' :: rest =>
    let (n, rest) := readCount rest
    (readSteps fuel rest).map (.parent n :: ·)
  | _ + 1, _ => none

/-- Splits a text where the steps begin. -/
def splitBase : List Char → List Char × List Char
  | [] => ([], [])
  | '@' :: '\x7b' :: rest => ([], '@' :: '\x7b' :: rest)
  | c :: rest =>
    if c == '^' || c == '~' || c == ':' then ([], c :: rest)
    else
      let (name, left) := splitBase rest
      (c :: name, left)

def parse? (text : String) : Option Revision :=
  let cs := text.toList
  match cs with
  | ':' :: '/' :: message => some ⟨.message (.ofList message), []⟩
  | ['@'] => some ⟨.name "HEAD", []⟩
  | _ =>
    let (name, rest) := splitBase cs
    match rest with
    | '@' :: '\x7b' :: '0' :: '\x7d' :: rest => do
      let steps ← readSteps rest.length rest
      some ⟨.latest (.ofList name), steps⟩
    | _ =>
      if name.isEmpty then none
      else do
        let steps ← readSteps rest.length rest
        some ⟨.name (.ofList name), steps⟩

/-- Places at which a name is looked up, the first that exists winning. -/
def places (name : String) : List String :=
  [name, "refs/" ++ name, "refs/tags/" ++ name, "refs/heads/" ++ name, "refs/remotes/" ++ name,
   "refs/remotes/" ++ name ++ "/HEAD"]

/-- What a revision leads to on the way. -/
structure Target where
  commit : CommitId
  /-- Whether it is an annotated tag of the commit rather than the commit. -/
  annotated : Bool
deriving DecidableEq, Repr

/-- The text behind the start of a name. -/
def after? (start text : String) : Option String :=
  if start.toList.isPrefixOf text.toList then
    some (.ofList (text.toList.drop start.length))
  else none

end Revision

namespace WorkingCopy

open Revision

/-- What stands at the full name of a reference. -/
def reference? (w : WorkingCopy) (name : String) : Option Target :=
  let commit (id : CommitId) : Target := ⟨id, false⟩
  if name = "HEAD" then w.headCommit?.map commit
  else if name = "refs/remotes/origin/HEAD" then
    (w.remoteHead.bind w.remoteBranches.find?).map commit
  else
    match after? "refs/heads/" name, after? "refs/tags/" name,
      after? "refs/remotes/origin/" name with
    | some branch, _, _ => (w.branches.find? branch).map commit
    | _, some tag, _ =>
      (w.tags.find? fun t => t.name == tag).map fun t => ⟨t.target, t.annotated⟩
    | _, _, some branch => (w.remoteBranches.find? branch).map commit
    | none, none, none => none

/-- What a name leads to. -/
def named? (w : WorkingCopy) (name : String) : Option Target :=
  (places name).findSome? w.reference?

/-- The only commit whose id starts with some digits. -/
def abbreviated? (w : WorkingCopy) (digits : List Char) : Option Target :=
  match w.history.commits.filter fun c => c.id.startsWith (digits.map Char.toLower) with
  | [c] => some ⟨c.id, false⟩
  | _ => none

def base? (w : WorkingCopy) : RevisionBase → Option Target
  | .name text =>
    let digits := text.toList
    let isHex := digits.all isHexDigit
    let full := if isHex && digits.length == CommitId.width then w.abbreviated? digits else none
    let short :=
      if isHex && 4 ≤ digits.length && digits.length < CommitId.width then
        w.abbreviated? digits
      else none
    (full.orElse fun _ => w.named? text).orElse fun _ => short
  | .latest name => w.named? (if name.isEmpty then "HEAD" else name)
  | .message text => (w.history.newest? (fun _ => true) text).map fun c => ⟨c.id, false⟩

def step? (w : WorkingCopy) (t : Target) : RevisionStep → Option Target
  | .ancestor n =>
    ((w.history.find? t.commit).bind (w.history.ancestor? n)).map fun c => ⟨c.id, false⟩
  | .parent 0 => some ⟨t.commit, false⟩
  | .parent (n + 1) => do
    let c ← w.history.find? t.commit
    let parent ← c.parents[n]?
    some ⟨parent, false⟩
  | .peel => some ⟨t.commit, false⟩
  | .tag => if t.annotated then some t else none
  | .message text =>
    let ancestors := w.history.reachable t.commit
    (w.history.newest? (fun id => ancestors.contains id) text).map fun c => ⟨c.id, false⟩

/-- The commit that a revision leads to. -/
def revision? (w : WorkingCopy) (r : Revision) : Option CommitId := do
  let start ← w.base? r.base
  let target ← r.steps.foldlM w.step? start
  some target.commit

/-- The commit that a reference names, as it stands or as a branch of the source. -/
def resolve (w : WorkingCopy) (reference : String) : Except GitError CommitId :=
  let attempt (text : String) : Option CommitId := (Revision.parse? text).bind w.revision?
  match (attempt reference).orElse fun _ => attempt ("origin/" ++ reference) with
  | some id => .ok id
  | none => .error (.unresolvableReference reference)

end WorkingCopy

end CommitVerdict
