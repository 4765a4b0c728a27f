import CommitVerdict.Git.Delta
import CommitVerdict.Git.Error
import CommitVerdict.Git.Pathspec
import CommitVerdict.Git.Repository

namespace CommitVerdict

/-- A clone of a repository with its files. A lock file stops the clone from storing its index, but not from
writing files before that; the unstored index is kept in memory until the next one is stored. -/
structure WorkingCopy where
  history : History
  head : Head
  /-- The branches of the clone itself. -/
  branches : Branches
  /-- The branches of the source when it was cloned. -/
  remoteBranches : Branches
  /-- The branch that the source stood on, if it has a commit. -/
  remoteHead : Option String
  tags : List Tag
  /-- The tracked files, as known in memory. -/
  index : Snapshot
  /-- The tracked files, as stored. -/
  storedIndex : Snapshot
  /-- The directory of the clone, with the part `.git` that a suite may write to. -/
  files : Directory

namespace WorkingCopy

/-- The name under which a clone keeps its own data. -/
def dataName : String := ".git"

def lockPath : Path := [dataName, "index.lock"]

/-- Whether somebody holds the lock of the index. -/
def isLocked (w : WorkingCopy) : Bool := w.files.contains lockPath

/-- The commit that the clone stands on, if any. -/
def headCommit? (w : WorkingCopy) : Option CommitId :=
  match w.head with
  | .branch name => w.branches.find? name
  | .detached id => some id

/-- The files without the clone's own data. -/
def workingFiles (w : WorkingCopy) : Directory := w.files.removeBelow [dataName]

/-- A directory that has a clone's own data in it and nothing else. -/
def bareFiles : Directory := Directory.makeDirectory Tree.empty [dataName]

/-- Puts entries into a directory. -/
def putEntries (d : Directory) (entries : List (Path × Entry)) : Directory :=
  d.putAll (entries.map fun entry => (entry.1, .entry entry.2))

/-- A clone knows the branches of its source under `origin`, has a branch of its own only for the one that the
source stands on, and starts with the files of that branch's commit. -/
def clone (source : Repository) : WorkingCopy :=
  let start : Option (Commit × Branches) := match source.head with
    | .branch name =>
      (source.branches.find? name).bind fun id =>
        (source.history.find? id).map fun c => (c, [(name, id)])
    | .detached id => (source.history.find? id).map fun c => (c, [])
  let tree := (start.map fun s => s.1.tree).getD Tree.empty
  { history := source.history
    head := source.head
    branches := (start.map fun s => s.2).getD []
    remoteBranches := source.branches
    remoteHead := match source.head with
      | .branch name => (source.branches.find? name).map fun _ => name
      | .detached _ => none
    tags := source.tags
    index := tree
    storedIndex := tree
    files := putEntries bareFiles tree.leaves }

def find (w : WorkingCopy) (id : CommitId) : Except GitError Commit :=
  match w.history.find? id with
  | some c => .ok c
  | none => .error (.operationFailed (.objectNotFound id))

/-- The first parent of a commit. -/
def parent (w : WorkingCopy) (id : CommitId) : Except GitError (Option CommitId) :=
  (w.find id).map fun c => c.parents.head?

/-- The paths that the differences between a commit and its first parent name. -/
def changedPaths (w : WorkingCopy) (id : CommitId) : Except GitError (List Path) :=
  (w.find id).map fun c => Delta.allPaths (Delta.between (w.history.parentTree c) c.tree)

/-- The changed paths as texts. -/
def changedFiles (w : WorkingCopy) (id : CommitId) : Except GitError (List String) :=
  (w.changedPaths id).map fun paths => paths.map Path.toText

/-- The index after the selected paths have been made those of a tree. -/
def indexAfter (w : WorkingCopy) (target : Snapshot) (selects : Path → Bool) : Snapshot :=
  (w.index.restrict fun p => !selects p).putAll (target.restrict selects).leaves

/-- The files after the selected tracked paths have been made those of a tree. Selected files that
nobody tracks stay, unless they stand in the way. -/
def filesAfter (w : WorkingCopy) (target : Snapshot) (selects : Path → Bool) : Directory :=
  putEntries (w.files.restrict fun p => !(selects p && (w.index.get? p).isSome))
    (target.restrict selects).leaves

/-- Writes selected files and stores the index. The result is the clone after it, and the error if
there is one. -/
def overwrite (w : WorkingCopy) (target : Snapshot) (selects : Path → Bool) :
    WorkingCopy × Except GitError Unit :=
  let index := w.indexAfter target selects
  let written := { w with index := index, files := w.filesAfter target selects }
  if w.isLocked then (written, .error (.operationFailed .indexLocked))
  else ({ written with storedIndex := index }, .ok ())

/-- Moves the branch that the clone stands on, or its detached head. -/
def moveHead (w : WorkingCopy) (id : CommitId) : WorkingCopy :=
  match w.head with
  | .branch name => { w with branches := w.branches.set name id }
  | .detached _ => { w with head := .detached id }

/-- Removes every file that is not in the tree. -/
def clean (w : WorkingCopy) (target : Snapshot) : WorkingCopy :=
  let kept := w.files.restrict fun p => [dataName].isPrefixOf p
  { w with files := putEntries kept target.leaves }

/-- Makes the clone stand on a commit, with the files of that commit and no others. -/
def resetHard (w : WorkingCopy) (id : CommitId) : WorkingCopy × Except GitError Unit :=
  match w.find id with
  | .error e => (w, .error e)
  | .ok c =>
    match w.overwrite c.tree fun _ => true with
    | (w, .error e) => (w, .error e)
    | (w, .ok ()) => ((w.moveHead id).clean c.tree, .ok ())

/-- Makes the selected paths those of a commit, or removes them if there is no commit. All other files are
left alone, as well as files that nobody tracks. -/
def restorePaths (w : WorkingCopy) (source : Option CommitId) (paths : List String) :
    WorkingCopy × Except GitError Unit :=
  let spec := Pathspec.ofTexts paths
  match source with
  | none => w.overwrite Tree.empty spec.selects
  | some id =>
    match w.find id with
    | .error e => (w, .error e)
    | .ok c => w.overwrite c.tree spec.selects

end WorkingCopy

end CommitVerdict
