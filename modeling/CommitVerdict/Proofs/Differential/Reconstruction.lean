import CommitVerdict.Proofs.Differential.Phases

namespace CommitVerdict

/-- The paths that a differential run decides about: files of the commit or of its first parent that
the pattern of the production code selects. -/
def Reverts (h : History) (c : Commit) (area : String) (q : Path) : Prop :=
  (Pathspec.ofTexts [area]).selects q = true ∧
    ((c.tree.get? q).isSome = true ∨ ((h.parentTree c).get? q).isSome = true)

/-- The paths at which a differential run puts a file of the first parent back. -/
def PutsBack (h : History) (c : Commit) (area : String) (q : Path) : Prop :=
  (Pathspec.ofTexts [area]).selects q = true ∧ ((h.parentTree c).get? q).isSome = true

/-- The first run starts from `before` and leaves `left`, the second one starts from `after`. -/
structure Reconstruction (h : History) (c : Commit) (area : String)
    (before left after : Directory) : Prop where
  /-- The first run starts from the files of the commit and no others. -/
  postChange : before.working = Directory.ofSnapshot c.tree
  /-- The second run starts with the parent's entry, or without a file, wherever it is decided. -/
  reverted : ∀ q, Reverts h c area q → after.entryAt? q = (h.parentTree c).get? q
  /-- Everything else stays, paths that are not selected among it, unless a file is put back above or
  below it. -/
  kept : ∀ q, ¬ Reverts h c area q → (∀ r, PutsBack h c area r → Path.conflicts r q = false) →
    after.get? q = left.get? q
  /-- Directories stay, unless a file above or below them is decided about. -/
  keptDirectories : ∀ q, (∀ r, Reverts h c area r → Path.conflicts r q = false) →
    after.isDirectoryAt q = left.isDirectoryAt q

namespace Progress

variable {σ : Type} {p p' : Progress σ} {suite : Suite σ} {layout : ProjectLayout} {id : CommitId}
  {c : Commit} {first second : Invocation σ} {before after : Directory}

theorem blocks_restrict_iff {h : History} {area : String} {q : Path} :
    ((h.parentTree c).restrict (Pathspec.ofTexts [area]).selects).Blocks q ↔
      ∃ r, PutsBack h c area r ∧ Path.conflicts r q = true := by
  rw [Tree.blocks_restrict]
  constructor
  · rintro ⟨r, hr, hselects, hconflict⟩
    exact ⟨r, ⟨hselects, Tree.get?_isSome_iff.mpr hr⟩, hconflict⟩
  · rintro ⟨r, ⟨hselects, hr⟩, hconflict⟩
    exact ⟨r, Tree.get?_isSome_iff.mp hr, hselects, hconflict⟩

/-- In the way of a file that is put back there is only what the parent has. -/
theorem Phases.get?_after_of_conflict (hphases : p.Phases suite layout c first second before after)
    {q r : Path} (hr : PutsBack p.copy.history c layout.codeDir r)
    (hconflict : Path.conflicts r q = true) :
    after.get? q = (if (Pathspec.ofTexts [layout.codeDir]).selects q then
      (p.copy.history.parentTree c).get? q else none).map .entry := by
  rw [hphases.after_eq, WorkingCopy.get?_filesAfter_of_blocks
    (blocks_restrict_iff.mpr ⟨r, hr, hconflict⟩), Tree.get?_restrict]

/-- Elsewhere the selected files of the commit are gone, and the first run decides. -/
theorem Phases.get?_after_of_free (hphases : p.Phases suite layout c first second before after)
    {q : Path} (hfree : ∀ r, PutsBack p.copy.history c layout.codeDir r → Path.conflicts r q = false) :
    after.get? q = if (Pathspec.ofTexts [layout.codeDir]).selects q && (c.tree.get? q).isSome then none
      else first.files.get? q := by
  have hclear : ¬ ((p.copy.history.parentTree c).restrict
      (Pathspec.ofTexts [layout.codeDir]).selects).Blocks q := by
    rw [blocks_restrict_iff]
    rintro ⟨r, hr, hconflict⟩
    simp [hfree r hr] at hconflict
  rw [hphases.after_eq, WorkingCopy.get?_filesAfter_of_not_blocks hclear,
    WorkingCopy.withFiles_index, WorkingCopy.standingOn_index, WorkingCopy.withFiles_files]

theorem Phases.entryAt?_after_of_reverts (hphases : p.Phases suite layout c first second before after)
    {q : Path} (hq : Reverts p.copy.history c layout.codeDir q) :
    after.entryAt? q = (p.copy.history.parentTree c).get? q := by
  obtain ⟨hselects, hfile⟩ := hq
  unfold Directory.entryAt?
  by_cases hconflict : ∃ r, PutsBack p.copy.history c layout.codeDir r ∧ Path.conflicts r q = true
  · obtain ⟨r, hr, hconflict⟩ := hconflict
    rw [hphases.get?_after_of_conflict hr hconflict, if_pos hselects]
    cases (p.copy.history.parentTree c).get? q <;> rfl
  · have hfree : ∀ r, PutsBack p.copy.history c layout.codeDir r → Path.conflicts r q = false := by
      intro r hr
      by_contra hne
      exact hconflict ⟨r, hr, by simpa using hne⟩
    have hparent : (p.copy.history.parentTree c).get? q = none := by
      by_contra hsome
      have hself := hfree q ⟨hselects, Option.isSome_iff_ne_none.mpr hsome⟩
      simp at hself
    have htracked : (c.tree.get? q).isSome = true := by
      simpa [hparent] using hfile
    rw [hphases.get?_after_of_free hfree, hselects, htracked, hparent]
    rfl

theorem Phases.get?_after_of_not_reverts
    (hphases : p.Phases suite layout c first second before after) {q : Path}
    (hq : ¬ Reverts p.copy.history c layout.codeDir q)
    (hfree : ∀ r, PutsBack p.copy.history c layout.codeDir r → Path.conflicts r q = false) :
    after.get? q = first.files.get? q := by
  have huntracked :
      ((Pathspec.ofTexts [layout.codeDir]).selects q && (c.tree.get? q).isSome) = false := by
    by_contra htracked
    rw [Bool.not_eq_false, Bool.and_eq_true] at htracked
    exact hq ⟨htracked.1, .inl htracked.2⟩
  rw [hphases.get?_after_of_free hfree, huntracked]
  rfl

/-- If nothing is decided in the way of a path, nothing changes at it or below it. -/
theorem Phases.get?_after_below (hphases : p.Phases suite layout c first second before after)
    {q r : Path} (hfree : ∀ r, Reverts p.copy.history c layout.codeDir r → Path.conflicts r q = false)
    (hbelow : q <+: r) : after.get? r = first.files.get? r := by
  have hclear : ∀ s, PutsBack p.copy.history c layout.codeDir s → Path.conflicts s r = false := by
    intro s hs
    by_contra hconflict
    have hq := Path.conflicts_of_isPrefix hbelow (by simpa using hconflict)
    rw [hfree s ⟨hs.1, .inr hs.2⟩] at hq
    cases hq
  refine hphases.get?_after_of_not_reverts (fun hr => ?_) hclear
  have hapart := hfree r hr
  rw [Path.conflicts_iff.mpr (.inr hbelow)] at hapart
  cases hapart

theorem Phases.isDirectoryAt_after (hphases : p.Phases suite layout c first second before after)
    {q : Path} (hfree : ∀ r, Reverts p.copy.history c layout.codeDir r → Path.conflicts r q = false) :
    after.isDirectoryAt q = first.files.isDirectoryAt q := by
  have hbelow : after.hasBelow q = first.files.hasBelow q := by
    rw [Bool.eq_iff_iff, Tree.hasBelow_iff, Tree.hasBelow_iff]
    constructor
    · rintro ⟨r, leaf, hget, hr, hne⟩
      exact ⟨r, leaf, hphases.get?_after_below hfree hr ▸ hget, hr, hne⟩
    · rintro ⟨r, leaf, hget, hr, hne⟩
      exact ⟨r, leaf, hphases.get?_after_below hfree hr ▸ hget, hr, hne⟩
  rw [Directory.isDirectoryAt, Directory.isDirectoryAt, hbelow,
    hphases.get?_after_below hfree (List.prefix_refl q)]

theorem Phases.reconstruction (hphases : p.Phases suite layout c first second before after)
    (hfind : p.copy.history.find? id = some c) :
    Reconstruction p.copy.history c layout.codeDir before first.files after where
  postChange := by
    rw [hphases.before_eq]
    exact WorkingCopy.working_standingOn p.copy (History.trackable_tree hfind)
  reverted _ := hphases.entryAt?_after_of_reverts
  kept _ := hphases.get?_after_of_not_reverts
  keptDirectories _ := hphases.isDirectoryAt_after

/-- Whatever the history of the workspace and whatever the suite does, an evaluation runs the suite
twice, on the files of the commit and on the same files with the production code of its first
parent. -/
theorem evaluate_reconstructs {results : PhaseResults}
    (hrun : p.evaluate suite layout id = (p', .ok results)) :
    ∃ c before after, p.copy.history.find? id = some c ∧
      let first := suite.invoke p.memory before
      let second := suite.invoke first.memory after
      p'.seen = p.seen ++ [before, after] ∧ p'.memory = second.memory ∧
        results = ⟨first.run, second.run⟩ ∧
        Reconstruction p.copy.history c layout.codeDir before first.files after := by
  obtain ⟨c, first, second, before, after, hfind, hphases, hresults, -, hmemory, hseen⟩ :=
    phases_of_evaluate hrun
  have hfirst := hphases.first_eq
  have hsecond := hphases.second_eq
  refine ⟨c, before, after, hfind, hseen, ?_, ?_, ?_⟩
  · rw [hmemory, hsecond, hfirst]
  · rw [hresults, hsecond, hfirst]
  · rw [← hfirst]
    refine ⟨?_, fun q => hphases.entryAt?_after_of_reverts,
      fun q => hphases.get?_after_of_not_reverts, fun q => hphases.isDirectoryAt_after⟩
    rw [hphases.before_eq]
    exact WorkingCopy.working_standingOn p.copy (History.trackable_tree hfind)

end Progress

namespace Sample

def root : Commit where
  id := .ofNat 1
  parents := []
  message := "root"
  tree := .ofLeaves [(["src", "calc"], .file [49]), (["tests", "calc"], .file [49])]

def feature : Commit where
  id := .ofNat 2
  parents := [root.id]
  message := "feature"
  tree := .ofLeaves
    [(["src", "calc"], .file [50]), (["src", "more"], .link "calc"), (["tests", "calc"], .file [50])]

def history : History where
  commits := [root, feature]
  distinct := by decide
  closed := by decide
  trackable := by decide

def repository : Repository where
  history := history
  head := .branch "main"
  branches := [("main", feature.id)]
  tags := []
  headHeld := by simp
  branchesHeld := by decide
  tagsHeld := by simp

/-- What the suite leaves behind. -/
def generated : Snapshot := .ofLeaves [(["src", "gen"], .file [])]

/-- Passes if the code is what the tests expect, and remembers how often it ran. -/
def suite : Suite Nat where
  name := "suite"
  program := "suite"
  available := true
  invoke number files :=
    { run := .finished "" ""
        (if files.get? ["src", "calc"] = files.get? ["tests", "calc"] then 0 else 1) .zero
      output := []
      files := WorkingCopy.putEntries files generated.leaves
      memory := number + 1 }

end Sample

set_option maxRecDepth 4000 in
theorem Progress.evaluate_reconstructs_sample :
    ∃ p' results c before after,
      (start (.clone Sample.repository) 0).evaluate Sample.suite .default Sample.feature.id =
          (p', .ok results) ∧
        p'.seen = [before, after] ∧
        Reconstruction Sample.history c "src" before (Sample.suite.invoke 0 before).files after := by
  obtain ⟨p', results, hrun⟩ : ∃ p' results, (start (.clone Sample.repository) 0).evaluate Sample.suite
      .default Sample.feature.id = (p', .ok results) := ⟨_, _, rfl⟩
  obtain ⟨c, before, after, -, hseen, -, -, hreconstruction⟩ := evaluate_reconstructs hrun
  exact ⟨p', results, c, before, after, hrun, hseen, hreconstruction⟩

end CommitVerdict
