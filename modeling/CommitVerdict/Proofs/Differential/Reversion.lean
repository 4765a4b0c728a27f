import CommitVerdict.Proofs.Differential.TestsArea

namespace CommitVerdict

namespace WorkingCopy

variable {w : WorkingCopy} {target : Snapshot} {selects : Path → Bool} {p q : Path}

/-- At a selected path the index has what the source has. -/
theorem get?_indexAfter_of_selects (hselects : selects p = true) :
    (w.indexAfter target selects).get? p = target.get? p := by
  have hrestrict : (target.restrict selects).get? p = target.get? p := by
    rw [Tree.get?_restrict, if_pos hselects]
  by_cases hblocks : (target.restrict selects).Blocks p
  · rw [indexAfter, Tree.get?_putAll_of_blocks _ hblocks, hrestrict]
  · have hnone : target.get? p = none := by
      by_contra hsome
      obtain ⟨e, he⟩ := Option.ne_none_iff_exists'.mp hsome
      exact hblocks (Tree.blocks_of_get? (hrestrict.trans he))
    rw [indexAfter, Tree.get?_putAll_of_not_blocks _ hblocks, Tree.get?_restrict, hnone]
    simp [hselects]

/-- What stands in the way of a file is not a file of the same tree. -/
theorem get?_eq_none_of_conflicts {α : Type} {t : Tree α} {a : α} (hp : t.get? p = some a)
    (hconflict : Path.conflicts p q = true) (hne : p ≠ q) : t.get? q = none := by
  by_contra hsome
  obtain ⟨b, hb⟩ := Option.ne_none_iff_exists'.mp hsome
  have hapart := Tree.not_conflicts_of_ne t (Tree.get?_eq_some_iff.mp hp) (Tree.get?_eq_some_iff.mp hb) hne
  simp [hconflict] at hapart

/-- If the source and the index have the same entries at the selected paths, nothing that is selected stands
in the way of anything else. -/
theorem get?_eq_none_of_blocks (hsame : ∀ p, selects p = true → target.get? p = w.index.get? p)
    (hblocks : (target.restrict selects).Blocks q) (hselects : ¬ selects q = true) :
    w.index.get? q = none := by
  obtain ⟨p, hp, hkeep, hconflict⟩ := Tree.blocks_restrict.mp hblocks
  obtain ⟨e, he⟩ := Option.isSome_iff_exists.mp (Tree.get?_isSome_iff.mpr hp)
  have hne : p ≠ q := by
    rintro rfl
    exact hselects hkeep
  exact get?_eq_none_of_conflicts ((hsame p hkeep).symm.trans he) hconflict hne

/-- A restoration leaves the index as it is exactly if the source has the entries of the index at all
selected paths. -/
theorem indexAfter_eq_iff :
    w.indexAfter target selects = w.index ↔ ∀ p, selects p = true → target.get? p = w.index.get? p := by
  constructor
  · intro heq p hselects
    rw [← get?_indexAfter_of_selects hselects, heq]
  · intro hsame
    refine Tree.ext_get? fun q => ?_
    by_cases hselects : selects q = true
    · rw [get?_indexAfter_of_selects hselects, hsame q hselects]
    by_cases hblocks : (target.restrict selects).Blocks q
    · rw [indexAfter, Tree.get?_putAll_of_blocks _ hblocks, Tree.get?_restrict, if_neg hselects,
        get?_eq_none_of_blocks hsame hblocks hselects]
    · rw [indexAfter, Tree.get?_putAll_of_not_blocks _ hblocks, Tree.get?_restrict]
      simp [hselects]

/-- The working files follow the index, if they are those of the index and no others. -/
theorem working_filesAfter_eq (hworking : w.files.working = Directory.ofSnapshot w.index)
    (htarget : target.Trackable) :
    (w.filesAfter target selects).working = Directory.ofSnapshot (w.indexAfter target selects) := by
  have hput (base : Directory) : putEntries base (target.restrict selects).leaves =
      base.putAll (Directory.ofSnapshot (target.restrict selects)).leaves := rfl
  refine Tree.ext_get? fun q => ?_
  rw [filesAfter, Directory.working_putEntries _ (htarget.restrict selects), Directory.working_restrict,
    hworking, hput, Directory.ofSnapshot, Directory.ofSnapshot, Directory.ofSnapshot, Tree.get?_mapLeaves,
    indexAfter]
  by_cases hblocks : (target.restrict selects).Blocks q
  · rw [Tree.get?_putAll_of_blocks _ (Tree.blocks_mapLeaves.mpr hblocks), Tree.get?_mapLeaves,
      Tree.get?_putAll_of_blocks _ hblocks]
  · rw [Tree.get?_putAll_of_not_blocks _ (mt Tree.blocks_mapLeaves.mp hblocks), Tree.get?_restrict,
      Tree.get?_mapLeaves, Tree.get?_putAll_of_not_blocks _ hblocks, Tree.get?_restrict]
    cases hselects : selects q <;> cases hindex : w.index.get? q <;> simp

theorem data_filesAfter (w : WorkingCopy) (htarget : target.Trackable) (hindex : w.index.Trackable) :
    (w.filesAfter target selects).data = w.files.data := by
  rw [filesAfter, Directory.data_putEntries _ (htarget.restrict selects)]
  refine Tree.ext_get? fun q => ?_
  rw [Directory.get?_data, Directory.get?_data, Tree.get?_restrict]
  split
  · rename_i hdata
    have huntracked : w.index.get? q = none := by
      refine hindex.get?_eq_none fun hq => ?_
      have hapart := Path.IsTrackable.not_conflicts_data hq (List.isPrefixOf_iff_prefix.mp hdata)
      simp at hapart
    simp [huntracked]
  · rfl

/-- With the files of the index and no others, a restoration leaves the files as they are exactly if the
source has the entries of the index at all selected paths. -/
theorem filesAfter_eq_iff (hworking : w.files.working = Directory.ofSnapshot w.index)
    (hindex : w.index.Trackable) (htarget : target.Trackable) :
    w.filesAfter target selects = w.files ↔ ∀ p, selects p = true → target.get? p = w.index.get? p := by
  rw [← indexAfter_eq_iff]
  have hfollows : (w.filesAfter target selects).working =
      Directory.ofSnapshot (w.indexAfter target selects) := working_filesAfter_eq hworking htarget
  constructor
  · intro heq
    rw [heq, hworking] at hfollows
    refine Tree.ext_get? fun q => ?_
    rw [← Directory.entryAt?_ofSnapshot, ← hfollows, Directory.entryAt?_ofSnapshot]
  · intro heq
    rw [heq, ← hworking] at hfollows
    refine Tree.ext_get? fun q => ?_
    have hwork := congrArg (·.get? q) hfollows
    have hdata : (w.filesAfter target selects).data.get? q = w.files.data.get? q := by
      rw [data_filesAfter w htarget hindex]
    simp only [Directory.get?_working, Directory.get?_data] at hwork hdata
    cases hbegins : [dataName].isPrefixOf q <;> simp_all

end WorkingCopy

/-- Whether, on every commit, the reversion of production code right behind a reset changes the files, and
the index, exactly if the changes of the commit count as ones of production code. -/
def RevertsItsChanges (s : String) : Prop :=
  ∀ (w w₁ : WorkingCopy) (id : CommitId), w.resetHard id = (w₁, .ok ()) →
    ∃ parent files w₂, w₁.parent id = .ok parent ∧ w₁.changedFiles id = .ok files ∧
      w₁.restorePaths parent [s] = (w₂, .ok ()) ∧ ∀ testsDir : String,
        (w₂.files = w₁.files ↔
          (ChangeSet.classify files ⟨testsDir, s⟩).touchesProductionCode = false) ∧
        (w₂.index = w₁.index ↔
          (ChangeSet.classify files ⟨testsDir, s⟩).touchesProductionCode = false)

namespace WorkingCopy

variable {w : WorkingCopy} {id : CommitId} {c : Commit} {s : String}

/-- The reversion right behind a reset goes through, and leaves the files and the index as they are exactly if
it selects no change of the commit. -/
theorem reverts_of_standingOn (hfind : w.history.find? id = some c) (hunlocked : w.isLocked = false) :
    ∃ w₂, (w.standingOn c).restorePaths c.parents.head? [s] = (w₂, .ok ()) ∧
      (w₂.files = (w.standingOn c).files ↔
        ∀ p ∈ w.history.changes c, ¬ (Pathspec.ofTexts [s]).selects p = true) ∧
      (w₂.index = (w.standingOn c).index ↔
        ∀ p ∈ w.history.changes c, ¬ (Pathspec.ofTexts [s]).selects p = true) := by
  let selects := (Pathspec.ofTexts [s]).selects
  let target := w.history.parentTree c
  have htree := History.trackable_tree hfind
  have htarget := History.trackable_parentTree hfind
  have hstands : (w.standingOn c).history.find? id = some c := by rwa [standingOn_history]
  have hworking : (w.standingOn c).files.working = Directory.ofSnapshot (w.standingOn c).index := by
    rw [working_standingOn w htree, standingOn_index]
  have hsame : (∀ p, selects p = true → target.get? p = (w.standingOn c).index.get? p) ↔
      ∀ p ∈ w.history.changes c, ¬ selects p = true := by
    rw [standingOn_index]
    refine forall_congr' fun p => ?_
    rw [History.mem_changes_iff, ne_comm, not_imp_comm, not_not]
  refine ⟨(w.standingOn c).overwritten target selects, ?_, ?_, ?_⟩
  · rw [restorePaths_parent hstands, standingOn_history]
    exact overwrite_eq_ok_iff.mpr ⟨isLocked_standingOn hunlocked htree, rfl⟩
  · rw [← hsame]
    exact filesAfter_eq_iff hworking ((standingOn_index w c).symm ▸ htree) htarget
  · rw [← hsame]
    exact indexAfter_eq_iff

end WorkingCopy

section

variable {s : String} {h : History} {id : CommitId} {c : Commit}

/-- No change counts as one of production code exactly if none of them lies in the area. -/
theorem untouched_iff (hfind : h.find? id = some c) (testsDir : String) :
    (ChangeSet.classify ((h.changes c).map Path.toText) ⟨testsDir, s⟩).touchesProductionCode = false ↔
      ∀ p ∈ h.changes c, ¬ PathText.components s <+: p := by
  have hbelow : ∀ p ∈ h.changes c, PathText.isBelow p.toText s = true ↔ PathText.components s <+: p :=
    fun p hp => PathText.isBelow_toText_iff (History.trackable_of_mem_changes hfind hp)
  simp only [ChangeSet.classify, List.any_map, List.any_eq_false, Function.comp_apply]
  exact forall₂_congr fun p hp => not_congr (hbelow p hp)

theorem History.changes_ofFile (p : Path) (hp : p.isTrackable = true) :
    (ofFile p hp).changes (.ofFile p) = [p] := by
  have hparent : (ofFile p hp).parentTree (.ofFile p) = Tree.empty := parentTree_of_none rfl
  rw [changes, hparent]
  simp [Tree.differences, Tree.empty, Commit.ofFile, Tree.differingPaths]

/-- Reverting production code is worth its while on all commits exactly if both readings of the area agree. -/
theorem revertsItsChanges_iff_readAlike : RevertsItsChanges s ↔ ReadAlike s := by
  constructor
  · intro hreverts p hp
    -- a repository with one commit that adds the file
    let h := History.ofFile p hp
    have hfind : h.find? (.ofNat 0) = some (.ofFile p) := rfl
    let w := WorkingCopy.clone (.standingOn h (.ofNat 0) (History.holds_of_find? hfind))
    have hunlocked : w.isLocked = false := WorkingCopy.isLocked_clone _
    obtain ⟨w₂, hrestore, hsame, -⟩ := WorkingCopy.reverts_of_standingOn (w := w) (s := s) hfind hunlocked
    obtain ⟨parent, files, w₂', hparent, hfiles, hrestore', htouched⟩ :=
      hreverts w (w.standingOn (.ofFile p)) (.ofNat 0)
        (WorkingCopy.resetHard_eq_ok_iff.mpr ⟨_, hfind, hunlocked, rfl⟩)
    have hstands : (w.standingOn (.ofFile p)).history.find? (.ofNat 0) = some (.ofFile p) := by
      rwa [WorkingCopy.standingOn_history]
    obtain rfl := Except.ok.inj (hparent.symm.trans (WorkingCopy.parent_of_find? hstands))
    obtain rfl := Except.ok.inj (hfiles.symm.trans (WorkingCopy.changedFiles_of_find? hstands))
    obtain rfl : w₂ = w₂' := (Prod.mk.inj (hrestore.symm.trans hrestore')).1
    have hchanges : w.history.changes (.ofFile p) = [p] := History.changes_ofFile p hp
    have hiff := hsame.symm.trans ((htouched "").1.trans
      (untouched_iff (s := s) (h := (w.standingOn (.ofFile p)).history) hstands ""))
    rw [WorkingCopy.standingOn_history] at hiff
    have hboth : (¬ (Pathspec.ofTexts [s]).selects p = true) ↔ ¬ PathText.components s <+: p := by
      simpa [hchanges] using hiff
    exact (not_iff_not.mp hboth).symm
  · intro halike w w₁ id hreset
    obtain ⟨c, hfind, hunlocked, rfl⟩ := WorkingCopy.resetHard_eq_ok_iff.mp hreset
    have hstands : (w.standingOn c).history.find? id = some c := by rwa [WorkingCopy.standingOn_history]
    obtain ⟨w₂, hrestore, hfiles, hindex⟩ := WorkingCopy.reverts_of_standingOn (s := s) hfind hunlocked
    refine ⟨_, _, w₂, WorkingCopy.parent_of_find? hstands, WorkingCopy.changedFiles_of_find? hstands,
      hrestore, fun testsDir => ?_⟩
    have hreadings : (∀ p ∈ w.history.changes c, ¬ (Pathspec.ofTexts [s]).selects p = true) ↔
        ∀ p ∈ w.history.changes c, ¬ PathText.components s <+: p := by
      refine forall₂_congr fun p hp => not_congr ?_
      exact (halike p (History.trackable_of_mem_changes hfind hp)).symm
    rw [hfiles, hindex, WorkingCopy.standingOn_history, untouched_iff hfind, hreadings]
    exact ⟨Iff.rfl, Iff.rfl⟩

end

/-- A directory in the spelling of the files below it: names joined by single slashes, none of them a lone or
a double dot, without wildcards, and without an exclamation mark in front. -/
structure PlainlyWritten (s : String) : Prop where
  names : ∀ piece ∈ PathText.pieces s.toList, piece ∉ [[], ['.'], ['.', '.']]
  literal : ∀ c ∈ s.toList, c ∉ ['*', '?', '[']
  unmarked : s.toList.head? ≠ some '!'

namespace PlainlyWritten

variable {s : String}

theorem ne_empty (hplain : PlainlyWritten s) : s ≠ "" := by
  rintro rfl
  exact hplain.names [] (List.mem_singleton_self _) List.mem_cons_self

/-- Only a text with an exclamation mark in front writes a pattern that deselects. -/
theorem not_marked (hplain : PlainlyWritten s) : ¬ Marked s := by
  rintro ⟨-, -, pattern, hparse, hnegated, -, -⟩
  rcases PathPattern.source_of_parse? (PathPattern.isWhole_of_negated hparse hnegated) hparse with ⟨hopen, -⟩ | ⟨-, body, hbody, -⟩
  · simp [hopen] at hnegated
  · exact hplain.unmarked (Utf8.head_of_encode (d := '!') (by decide) hbody)

/-- Of the plainly written areas, exactly those have their changes reverted, and nothing else, that are read
as they are written, besides those that can have no file and select none. -/
theorem revertsItsChanges_iff (hplain : PlainlyWritten s) :
    RevertsItsChanges s ↔ Verbatim s ∨
      (Path.isTrackable (PathText.components s) = false ∧
        ∀ p : Path, p.isTrackable = true → (Pathspec.ofTexts [s]).selects p = false) := by
  rw [revertsItsChanges_iff_readAlike, readAlike_iff]
  simp only [hplain.ne_empty, hplain.not_marked, false_or]

theorem revertsItsChanges_iff_src : PlainlyWritten "src" ∧ RevertsItsChanges "src" :=
  have hplain : PlainlyWritten "src" := ⟨by decide, by simp, by decide⟩
  ⟨hplain, (revertsItsChanges_iff hplain).mpr (.inl Sample.verbatim_src)⟩

end PlainlyWritten

namespace Sample

/-- One file of version 1 or 2, beside a directory `#src`. -/
def besideFiles (version : UInt8) : Snapshot := .only ["#src2", "calc"] (.file [version])

theorem besideFiles_trackable (version : UInt8) : (besideFiles version).Trackable :=
  Snapshot.trackable_only (by decide) _

def beside : Repository :=
  .standingOn (.ofChange (besideFiles 1) (besideFiles 2) (besideFiles_trackable 1) (besideFiles_trackable 2))
    (.ofNat 2) (by decide)

end Sample

/-- A directory whose name begins as a comment does writes no pattern. The file beside it is not in it, and
yet reverting it takes that file back, right behind a reset to a commit that touches no production code. -/
theorem WorkingCopy.restorePaths_comment :
    PlainlyWritten "#src" ∧ ∃ files w₁ w₂,
      (clone Sample.beside).resetHard (.ofNat 2) = (w₁, .ok ()) ∧
        w₁.parent (.ofNat 2) = .ok (some (.ofNat 1)) ∧ w₁.changedFiles (.ofNat 2) = .ok files ∧
        (ChangeSet.classify files ⟨"tests", "#src"⟩).touchesProductionCode = false ∧
        w₁.restorePaths (some (.ofNat 1)) ["#src"] = (w₂, .ok ()) ∧
        w₁.index.get? ["#src2", "calc"] = some (.file [2]) ∧
        w₂.index.get? ["#src2", "calc"] = some (.file [1]) := by
  have hfind : (clone Sample.beside).history.find? (.ofNat 2) = some (.second (Sample.besideFiles 2)) := rfl
  have hunlocked : (clone Sample.beside).isLocked = false := isLocked_clone _
  have hstands : ((clone Sample.beside).standingOn (.second (Sample.besideFiles 2))).history.find? (.ofNat 2) =
      some (.second (Sample.besideFiles 2)) := by rwa [standingOn_history]
  have hreset := resetHard_eq_ok_iff.mpr ⟨_, hfind, hunlocked, rfl⟩
  refine ⟨⟨by decide, by simp, by decide⟩, _, _, _, hreset, parent_of_find? hstands,
    changedFiles_of_find? hstands, ?_, rfl, ?_, ?_⟩
  · rw [standingOn_history, untouched_iff hfind]
    intro p hp
    by_cases hp' : p = ["#src2", "calc"]
    · rw [hp']
      decide
    · refine (History.mem_changes_iff.mp hp (Option.ext fun e => ?_)).elim
      have hversions (version : UInt8) : (Sample.besideFiles version).get? p ≠ some e := fun hget =>
        hp' (Snapshot.get?_only_eq_some_iff.mp hget).1
      exact iff_of_false (hversions 2) (hversions 1)
  · rfl
  · rfl

end CommitVerdict
