import CommitVerdict.Proofs.Area.Agreement
import CommitVerdict.Proofs.Batch.Independence
import CommitVerdict.Proofs.Differential.Leftovers
import CommitVerdict.Proofs.Repository.Changes

namespace CommitVerdict

/-- A suite that leaves all files as they are. -/
def Suite.ReadsOnly {σ : Type} (suite : Suite σ) : Prop :=
  ∀ memory files, (suite.invoke memory files).files = files

/-- Whether the second run on any commit that touches both areas finds the tests of that commit, for every
suite that only reads. -/
def ProjectLayout.KeepsTests (layout : ProjectLayout) : Prop :=
  ∀ (σ : Type) (suite : Suite σ) (p p' : Progress σ) (id : CommitId) (c : Commit) (files : List String)
    (results : PhaseResults) (before after : Directory), suite.ReadsOnly →
    p.copy.history.find? id = some c → p.copy.changedFiles id = .ok files →
    (ChangeSet.classify files layout).triage = none →
    p.evaluate suite layout id = (p', .ok results) → p'.seen = p.seen ++ [before, after] →
    ∀ q : Path, PathText.isBelow q.toText layout.testsDir = true →
      after.working.entryAt? q = c.tree.get? q

/-- Whether no path that the restoration of production code selects conflicts with a path of the tests. -/
def ProjectLayout.Apart (layout : ProjectLayout) : Prop :=
  ∀ q r : Path, q.isTrackable = true → r.isTrackable = true →
    PathText.isBelow q.toText layout.testsDir = true →
    (Pathspec.ofTexts [layout.codeDir]).selects r = true → Path.conflicts r q = false

theorem Snapshot.Trackable.get?_eq_none {s : Snapshot} (htrackable : s.Trackable) {p : Path}
    (hp : ¬ p.isTrackable = true) : s.get? p = none := by
  by_contra hsome
  obtain ⟨e, he⟩ := Option.ne_none_iff_exists'.mp hsome
  exact hp (htrackable.get? he)

/-- The snapshot of a single file. -/
def Snapshot.only (p : Path) (e : Entry) : Snapshot := Tree.empty.put p e

theorem Snapshot.get?_only_eq_some_iff {p q : Path} {a b : Entry} :
    (only p a).get? q = some b ↔ q = p ∧ b = a := by
  simp [only, Tree.get?_put_eq_some_iff]

theorem Snapshot.Trackable.put {s : Snapshot} (htrackable : s.Trackable) {p : Path}
    (hp : p.isTrackable = true) (e : Entry) : Trackable (s.put p e) := by
  intro q hq
  obtain ⟨e', he'⟩ := Option.isSome_iff_exists.mp (Tree.get?_isSome_iff.mpr hq)
  rcases Tree.get?_put_eq_some_iff.mp he' with ⟨rfl, -⟩ | ⟨-, hget⟩
  · exact hp
  · exact htrackable.get? hget

theorem Snapshot.trackable_only {p : Path} (hp : p.isTrackable = true) (e : Entry) :
    Trackable (only p e) :=
  trackable_empty.put hp e

theorem Directory.entryAt?_ofSnapshot (s : Snapshot) (p : Path) : (ofSnapshot s).entryAt? p = s.get? p := by
  rw [entryAt?, ofSnapshot, Tree.get?_mapLeaves]
  cases s.get? p <;> rfl

namespace Progress

variable {σ : Type} {p p' : Progress σ} {suite : Suite σ} {layout : ProjectLayout} {id : CommitId}
  {c : Commit} {first second : Invocation σ} {before after : Directory}

/-- With a suite that only reads, the second run finds the entry of the commit exactly where the
evaluation leaves the path alone or the parent has the same entry. -/
theorem Phases.entryAt?_eq_tree_iff (hphases : p.Phases suite layout c first second before after)
    (hreads : suite.ReadsOnly) (hfind : p.copy.history.find? id = some c) {q : Path} :
    after.working.entryAt? q = c.tree.get? q ↔
      Spared p.copy.history c layout.codeDir q ∨
        (p.copy.history.parentTree c).get? q = c.tree.get? q := by
  by_cases hspared : Spared p.copy.history c layout.codeDir q
  · have hbefore : before.working = Directory.ofSnapshot c.tree := by
      rw [hphases.before_eq]
      exact WorkingCopy.working_standingOn p.copy (History.trackable_tree hfind)
    refine iff_of_true ?_ (.inl hspared)
    rw [hphases.working_after_of_spared hspared, hphases.first_eq, hreads, hbefore,
      Directory.entryAt?_ofSnapshot]
  · rw [hphases.working_after_of_not_spared hfind hspared, or_iff_right hspared]

end Progress

namespace ProjectLayout

variable {layout : ProjectLayout}

/-- If the tests are apart from what is restored, a differential run leaves them alone. -/
theorem Apart.spared (hapart : layout.Apart) {h : History} {id : CommitId} {c : Commit}
    (hfind : h.find? id = some c) {q : Path} (hq : q.isTrackable = true)
    (htests : PathText.isBelow q.toText layout.testsDir = true) : Spared h c layout.codeDir q := by
  refine ⟨fun hreverts => ?_, fun r hr => ?_⟩
  · have hself := hapart q q hq hq htests hreverts.1
    simp at hself
  · obtain ⟨e, he⟩ := Option.isSome_iff_exists.mp hr.2
    exact hapart q r hq ((History.trackable_parentTree hfind).get? he) htests hr.1

theorem Apart.keepsTests (hapart : layout.Apart) : layout.KeepsTests := by
  intro σ suite p p' id c files results before after hreads hfind _ _ hrun hseen q hq
  obtain ⟨d, first, second, before', after', hd, hphases, -, -, -, hseen'⟩ :=
    Progress.phases_of_evaluate hrun
  obtain rfl : d = c := Option.some.inj (hd.symm.trans hfind)
  obtain ⟨rfl, rfl⟩ : before' = before ∧ after' = after := by
    simpa [hseen] using hseen'.symm
  rw [hphases.entryAt?_eq_tree_iff hreads hfind]
  by_cases htrackable : q.isTrackable = true
  · exact .inl (hapart.spared hfind htrackable hq)
  · right
    rw [(History.trackable_parentTree hfind).get?_eq_none htrackable,
      (History.trackable_tree hfind).get?_eq_none htrackable]

/-- Without any file that counts as production code, no commit has to be run. -/
theorem keepsTests_of_no_code
    (hnone : ∀ p : Path, p.isTrackable = true → PathText.isBelow p.toText layout.codeDir = false) :
    layout.KeepsTests := by
  intro σ suite p p' id c files results before after _ hfind hfiles htriage
  rw [WorkingCopy.changedFiles_of_find? hfind, Except.ok.injEq] at hfiles
  subst hfiles
  obtain ⟨f, hf, hcode⟩ := History.touchesProductionCode_iff.mp (ChangeSet.triage_eq_none_iff.mp htriage).2
  rw [hnone f (History.trackable_of_mem_changes hfind hf)] at hcode
  cases hcode

end ProjectLayout

/-- A suite that passes and only reads. -/
def Suite.idle : Suite Unit where
  name := "idle"
  program := "idle"
  available := true
  invoke memory files :=
    { run := .finished "" "" 0 .zero, output := [], files := files, memory := memory }

theorem Suite.idle_readsOnly : idle.ReadsOnly := fun _ _ => rfl

theorem Suite.idle_byWorkingFiles : idle.ByWorkingFiles :=
  ⟨fun _ _ _ _ _ => rfl, fun _ _ _ _ hworking => hworking, fun _ _ => rfl⟩

/-- A commit without a parent. -/
def Commit.first (tree : Snapshot) : Commit := ⟨.ofNat 1, [], "", tree⟩

/-- A commit on top of the first one. -/
def Commit.second (tree : Snapshot) : Commit := ⟨.ofNat 2, [.ofNat 1], "", tree⟩

/-- A history in which the files of one snapshot become those of another one. -/
def History.ofChange (before after : Snapshot) (hbefore : before.Trackable) (hafter : after.Trackable) :
    History where
  commits := [.first before, .second after]
  distinct := by simp [Commit.first, Commit.second]; decide
  closed := by simp [Commit.first, Commit.second]
  trackable := by
    simp only [List.mem_cons, List.not_mem_nil, or_false, forall_eq_or_imp, forall_eq]
    exact ⟨hbefore, hafter⟩

theorem Head.holds_of_detached_eq {h : History} {id : CommitId} (hid : h.Holds id) (other : CommitId)
    (hother : detached id = detached other) : h.Holds other :=
  detached.inj hother ▸ hid

/-- A repository that stands on a commit of a history. -/
def Repository.standingOn (h : History) (id : CommitId) (hid : h.Holds id) : Repository where
  history := h
  head := .detached id
  branches := []
  tags := []
  headHeld := Head.holds_of_detached_eq hid
  branchesHeld := nofun
  tagsHeld := nofun

namespace ProjectLayout

variable {layout : ProjectLayout} {old new : Snapshot} {a v y : Path}

theorem find?_ofChange (hold : old.Trackable) (hnew : new.Trackable) :
    (History.ofChange old new hold hnew).find? (.ofNat 2) = some (.second new) := rfl

theorem parentTree_ofChange (hold : old.Trackable) (hnew : new.Trackable) :
    (History.ofChange old new hold hnew).parentTree (.second new) = old := rfl

/-- If the tests are kept, then also in a commit that turns some files into others. -/
theorem KeepsTests.spared_or_eq (hkeeps : layout.KeepsTests) (hold : old.Trackable) (hnew : new.Trackable)
    (hv : PathText.isBelow v.toText layout.testsDir = true) (hvdiff : new.get? v ≠ old.get? v)
    (hy : PathText.isBelow y.toText layout.codeDir = true) (hydiff : new.get? y ≠ old.get? y) :
    Spared (.ofChange old new hold hnew) (.second new) layout.codeDir v := by
  have hfind := find?_ofChange hold hnew
  let source := Repository.standingOn _ _ (History.holds_of_find? hfind)
  have hready : (Progress.start (.clone source) ()).Ready source.history :=
    ⟨rfl, WorkingCopy.isLocked_clone source⟩
  obtain ⟨p', results, hrun⟩ := hready.evaluate_ok Suite.idle_byWorkingFiles layout hfind
  obtain ⟨d, first, second, before, after, hd, hphases, -, -, -, hseen⟩ :=
    Progress.phases_of_evaluate hrun
  obtain rfl := Option.some.inj (hfind.symm.trans hd)
  have hfiles := WorkingCopy.changedFiles_of_find? (w := .clone source) hfind
  have htriage : (source.history.changeSet layout (.second new)).triage = none := by
    rw [ChangeSet.triage_eq_none_iff, History.touchesTests_iff, History.touchesProductionCode_iff]
    exact ⟨⟨v, History.mem_changes_iff.mpr hvdiff, hv⟩, ⟨y, History.mem_changes_iff.mpr hydiff, hy⟩⟩
  have hkept := hkeeps Unit Suite.idle _ p' _ _ _ results before after Suite.idle_readsOnly hfind hfiles
    htriage hrun hseen v hv
  exact ((hphases.entryAt?_eq_tree_iff Suite.idle_readsOnly hfind).mp hkept).resolve_right hvdiff.symm

/-- The tests are not kept if a selected path conflicts with a path of theirs that is changed. -/
theorem not_keepsTests {e : Entry} (ha : a.isTrackable = true) (hnew : new.Trackable)
    (hselects : (Pathspec.ofTexts [layout.codeDir]).selects a = true) (hconflict : Path.conflicts a v = true)
    (hv : PathText.isBelow v.toText layout.testsDir = true)
    (hvdiff : new.get? v ≠ (Snapshot.only a e).get? v)
    (hy : PathText.isBelow y.toText layout.codeDir = true)
    (hydiff : new.get? y ≠ (Snapshot.only a e).get? y) : ¬ layout.KeepsTests := by
  intro hkeeps
  have hold : Snapshot.Trackable (Snapshot.only a e) := Snapshot.trackable_only ha e
  have hspared := hkeeps.spared_or_eq hold hnew hv hvdiff hy hydiff
  have hputs : PutsBack (.ofChange _ _ hold hnew) (.second new) layout.codeDir a := by
    refine ⟨hselects, ?_⟩
    rw [parentTree_ofChange, Option.isSome_iff_exists]
    exact ⟨e, Snapshot.get?_only_eq_some_iff.mpr ⟨rfl, rfl⟩⟩
  simp [hspared.2 a hputs] at hconflict

theorem isBelow_of_isPrefix {area : String} {p q : Path} (hp : p.isTrackable = true)
    (hq : q.isTrackable = true) (hbelow : p <+: q) (harea : PathText.isBelow p.toText area = true) :
    PathText.isBelow q.toText area = true := by
  rw [PathText.isBelow_toText_iff hp] at harea
  rw [PathText.isBelow_toText_iff hq]
  exact harea.trans hbelow

/-- If some file counts as production code and the tests are kept, they are apart from what is restored. -/
theorem KeepsTests.apart (hkeeps : layout.KeepsTests) {f : Path} (hf : f.isTrackable = true)
    (hcode : PathText.isBelow f.toText layout.codeDir = true) : layout.Apart := by
  intro q r hq hr htests hselects
  by_contra hconflict
  rw [Bool.not_eq_false] at hconflict
  -- the parent has one file, at `r`, and what the commit has is new
  have hput (p : Path) (t : Snapshot) : (t.put p (.file [0])).get? p = some (.file [0]) :=
    Tree.get?_put_eq_some_iff.mpr (.inl ⟨rfl, rfl⟩)
  have hdiff {t : Snapshot} {p : Path} (hget : t.get? p = some (.file [0])) :
      t.get? p ≠ (Snapshot.only r (.file [])).get? p := by
    intro heq
    have hold := Snapshot.get?_only_eq_some_iff.mp (heq.symm.trans hget)
    simp at hold
  rcases Path.conflicts_iff.mp hconflict with hbelow | habove
  · by_cases hqf : Path.conflicts f q = true
    · rcases Path.conflicts_iff.mp hqf with hfq | hqf
      · -- the file of the tests is production code as well
        have hboth : PathText.isBelow q.toText layout.codeDir = true := isBelow_of_isPrefix hf hq hfq hcode
        exact not_keepsTests hr (Snapshot.trackable_only hq _) hselects hconflict htests
          (hdiff (hput q _)) hboth (hdiff (hput q _)) hkeeps
      · have hboth : PathText.isBelow f.toText layout.testsDir = true := isBelow_of_isPrefix hq hf hqf htests
        exact not_keepsTests hr (Snapshot.trackable_only hf _) hselects
          (Path.conflicts_iff.mpr (.inl (hbelow.trans hqf))) hboth (hdiff (hput f _)) hcode
          (hdiff (hput f _)) hkeeps
    · have hstays : ((Snapshot.only q (.file [0])).put f (.file [0])).get? q = some (.file [0]) :=
        Tree.get?_put_eq_some_iff.mpr (.inr ⟨by simpa using hqf, hput q _⟩)
      exact not_keepsTests hr ((Snapshot.trackable_only hq _).put hf _) hselects hconflict htests
        (hdiff hstays) hcode (hdiff (hput f _)) hkeeps
  · -- a selected file of the tests is there again after the commit has removed it
    have hgone : (Snapshot.only f (.file [0])).get? r ≠ (Snapshot.only r (.file [])).get? r := by
      intro heq
      have hnew := Snapshot.get?_only_eq_some_iff.mp
        (heq.trans (Snapshot.get?_only_eq_some_iff.mpr ⟨rfl, rfl⟩))
      simp at hnew
    exact not_keepsTests hr (Snapshot.trackable_only hf _) hselects (Path.conflicts_self r)
      (isBelow_of_isPrefix hq hr habove htests) hgone hcode (hdiff (hput f _)) hkeeps

/-- For a suite that only reads, the second run finds the tests of every commit that touches both areas if
and only if no path that the restoration of production code selects is one of the tests, or above or
below one, or no file can count as production code at all. -/
theorem keepsTests_iff :
    layout.KeepsTests ↔
      (∀ p : Path, p.isTrackable = true → PathText.isBelow p.toText layout.codeDir = false) ∨
        ∀ q r : Path, q.isTrackable = true → r.isTrackable = true →
          PathText.isBelow q.toText layout.testsDir = true →
          (Pathspec.ofTexts [layout.codeDir]).selects r = true → Path.conflicts r q = false := by
  constructor
  · intro hkeeps
    by_cases hnone : ∀ p : Path, p.isTrackable = true → PathText.isBelow p.toText layout.codeDir = false
    · exact .inl hnone
    · push Not at hnone
      obtain ⟨f, hf, hcode⟩ := hnone
      exact .inr (hkeeps.apart hf (by simpa using hcode))
  · rintro (hnone | hapart)
    · exact keepsTests_of_no_code hnone
    · exact Apart.keepsTests hapart

/-- With a code area that is read as it is written, the tests are kept exactly if none of the two areas
lies in the other one. -/
theorem keepsTests_iff_of_verbatim (hverbatim : Verbatim layout.codeDir)
    (htests : Path.isTrackable (PathText.components layout.testsDir) = true) :
    layout.KeepsTests ↔
      Path.conflicts (PathText.components layout.codeDir) (PathText.components layout.testsDir) = false := by
  have hself {area : String} (harea : Path.isTrackable (PathText.components area) = true) :
      PathText.isBelow (Path.toText (PathText.components area)) area = true :=
    (PathText.isBelow_toText_iff harea).mpr (List.prefix_refl _)
  constructor
  · intro hkeeps
    exact hkeeps.apart hverbatim.trackable (hself hverbatim.trackable) _ _ htests hverbatim.trackable
      (hself htests) (hverbatim.selects_of_isPrefix (List.prefix_refl _))
  · intro hapart
    refine Apart.keepsTests fun q r hq hr hqtests hselects => ?_
    rw [PathText.isBelow_toText_iff hq] at hqtests
    rw [hverbatim.selects_iff hr] at hselects
    by_contra hconflict
    rw [Bool.not_eq_false] at hconflict
    have hcode := Path.conflicts_of_isPrefix hqtests hconflict
    rw [Path.conflicts_comm] at hcode hapart
    rw [Path.conflicts_of_isPrefix hselects hcode] at hapart
    cases hapart

end ProjectLayout

namespace Sample

/-- Code and tests of version 1 or 2, with the tests among the code. -/
def nestedFiles (version : UInt8) : Snapshot :=
  .ofLeaves [(["src", "calc"], .file [version]), (["src", "tests", "calc"], .file [version])]

theorem nestedFiles_trackable (version : UInt8) : (nestedFiles version).Trackable := by
  unfold Snapshot.Trackable
  rw [show (nestedFiles version).paths = (nestedFiles 0).paths from rfl]
  decide

def nestedHistory : History :=
  .ofChange (nestedFiles 1) (nestedFiles 2) (nestedFiles_trackable 1) (nestedFiles_trackable 2)

def nested : Repository := .standingOn nestedHistory (.ofNat 2) (by decide)

end Sample

set_option maxRecDepth 4000 in
/-- Tests that lie within the production code are those of the parent in the second run. -/
theorem ProjectLayout.nested_tests_restored :
    ∃ files p' results before after,
      (WorkingCopy.clone Sample.nested).changedFiles (.ofNat 2) = .ok files ∧
        (ChangeSet.classify files ⟨"src/tests", "src"⟩).triage = none ∧
        (Progress.start (.clone Sample.nested) ()).evaluate Suite.idle ⟨"src/tests", "src"⟩ (.ofNat 2) =
          (p', .ok results) ∧
        p'.seen = [before, after] ∧
        PathText.isBelow (Path.toText ["src", "tests", "calc"]) "src/tests" = true ∧
        (Sample.nestedFiles 2).get? ["src", "tests", "calc"] = some (.file [2]) ∧
        after.working.entryAt? ["src", "tests", "calc"] = some (.file [1]) := by
  have hfind : (WorkingCopy.clone Sample.nested).history.find? (.ofNat 2) =
      some (.second (Sample.nestedFiles 2)) := rfl
  refine ⟨_, _, _, _, _, WorkingCopy.changedFiles_of_find? hfind, ?_, rfl, rfl, by decide, by decide,
    by decide⟩
  have hchanged : ["src", "tests", "calc"] ∈
      Sample.nestedHistory.changes (.second (Sample.nestedFiles 2)) :=
    History.mem_changes_iff.mpr (by decide)
  exact ChangeSet.triage_eq_none_iff.mpr
    ⟨History.touchesTests_iff.mpr ⟨_, hchanged, by decide⟩,
      History.touchesProductionCode_iff.mpr ⟨_, hchanged, by decide⟩⟩

end CommitVerdict
