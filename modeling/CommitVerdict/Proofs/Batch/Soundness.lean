import CommitVerdict.Proofs.Batch.Independence
import CommitVerdict.Proofs.Batch.Runs

namespace CommitVerdict

namespace Verdict

variable {postChange preChange : TestOutcome}

theorem ofPhases_eq_couldNotPass_iff {flag : Bool} : ofPhases postChange preChange = .couldNotPass flag ↔
    postChange = .failed ∧ (flag = true ↔ preChange = .passed) := by
  cases postChange <;> cases preChange <;> cases flag <;> decide

theorem ofPhases_eq_testsDoNotBreakAnything_iff :
    ofPhases postChange preChange = .testsDoNotBreakAnything ↔
      postChange = .passed ∧ preChange = .passed := by
  cases postChange <;> cases preChange <;> decide

theorem ofPhases_eq_legitimate_iff : ofPhases postChange preChange = .legitimate ↔
    postChange = .passed ∧ preChange = .failed := by
  cases postChange <;> cases preChange <;> decide

theorem isFailure_eq_false_iff {verdict : Verdict} :
    verdict.isFailure = false ↔ verdict = .legitimate ∨ verdict = .noUnitTestChange := by
  cases verdict <;> simp [isFailure]

end Verdict

/-- A batch succeeds if no entry of its report is a failure. -/
theorem RunReport.exitCode_eq_zero_iff {report : RunReport} : report.exitCode = 0 ↔
    ∀ entry ∈ report.commits, entry.verdict = .legitimate ∨ entry.verdict = .noUnitTestChange := by
  have hcode : report.exitCode = 0 ↔ report.failures = 0 := by simp [exitCode, isSuccess]
  simp only [hcode, failures, List.countP_eq_zero, Bool.not_eq_true, Verdict.isFailure_eq_false_iff]

/-- The recorded runs are two runs of the suite, one on the files of the commit and one with the production
code of its first parent. -/
def PhaseSummary.Measures {σ : Type} (summary : PhaseSummary) (suite : Suite σ) (layout : ProjectLayout)
    (h : History) (c : Commit) : Prop :=
  ∃ memory before after,
    let first := suite.invoke memory before
    let second := suite.invoke first.memory after
    summary = .ofResults ⟨first.run, second.run⟩ ∧
      Reconstruction h c layout.codeDir before first.files after

/-- What the entry of a commit says of it is so. -/
structure CommitReport.Sound {σ : Type} (entry : CommitReport) (suite : Suite σ) (layout : ProjectLayout)
    (h : History) (c : Commit) : Prop where
  /-- The change set is that of the paths at which the commit and its first parent differ. -/
  changeSet_eq : ∃ paths : List Path, paths.Pairwise (· < ·) ∧
    (∀ p, p ∈ paths ↔ c.tree.get? p ≠ (h.parentTree c).get? p) ∧
    entry.changeSet = .classify (paths.map Path.toText) layout
  /-- Commits that touch both areas are run, and no others. -/
  phases_isSome_iff : entry.phases.isSome = true ↔
    entry.changeSet.touchesTests = true ∧ entry.changeSet.touchesProductionCode = true
  verdict_of_none : entry.phases = none →
    entry.verdict = if entry.changeSet.touchesProductionCode && !entry.changeSet.touchesTests then
      .codeChangeWithoutTests else .noUnitTestChange
  measures : ∀ summary, entry.phases = some summary → summary.Measures suite layout h c
  couldNotPass_iff : ∀ summary, entry.phases = some summary → ∀ flag,
    (entry.verdict = .couldNotPass flag ↔
      summary.postChange.outcome = .failed ∧ (flag = true ↔ summary.preChange.outcome = .passed))
  testsDoNotBreakAnything_iff : ∀ summary, entry.phases = some summary →
    (entry.verdict = .testsDoNotBreakAnything ↔
      summary.postChange.outcome = .passed ∧ summary.preChange.outcome = .passed)
  legitimate_iff : ∀ summary, entry.phases = some summary →
    (entry.verdict = .legitimate ↔
      summary.postChange.outcome = .passed ∧ summary.preChange.outcome = .failed)

namespace CommitReport

variable {σ : Type} {suite : Suite σ} {layout : ProjectLayout} {h : History} {c : Commit}
  {reference : String} {id : CommitId}

theorem changeSet_eq_classify (h : History) (layout : ProjectLayout) (c : Commit) :
    ∃ paths : List Path, paths.Pairwise (· < ·) ∧
      (∀ p, p ∈ paths ↔ c.tree.get? p ≠ (h.parentTree c).get? p) ∧
      h.changeSet layout c = .classify (paths.map Path.toText) layout :=
  ⟨h.changes c, History.changes_pairwise h c, fun _ => History.mem_changes_iff, rfl⟩

theorem sound_triaged {verdict : Verdict} (htriage : (h.changeSet layout c).triage = some verdict) :
    (triaged reference id (h.changeSet layout c) verdict).Sound suite layout h c where
  changeSet_eq := changeSet_eq_classify h layout c
  phases_isSome_iff := by
    have htouches := ChangeSet.triage_eq_none_iff (s := h.changeSet layout c)
    simpa [triaged, htriage] using htouches
  verdict_of_none _ := ChangeSet.eq_of_triage htriage
  measures := nofun
  couldNotPass_iff := nofun
  testsDoNotBreakAnything_iff := nofun
  legitimate_iff := nofun

theorem sound_evaluated {results : PhaseResults} (htriage : (h.changeSet layout c).triage = none)
    (hmeasures : (PhaseSummary.ofResults results).Measures suite layout h c) :
    (evaluated reference id (h.changeSet layout c) results).Sound suite layout h c where
  changeSet_eq := changeSet_eq_classify h layout c
  phases_isSome_iff := by simpa [evaluated] using ChangeSet.triage_eq_none_iff.mp htriage
  verdict_of_none := nofun
  measures := by
    rintro _ ⟨⟩
    exact hmeasures
  couldNotPass_iff := by
    rintro _ ⟨⟩ flag
    exact Verdict.ofPhases_eq_couldNotPass_iff
  testsDoNotBreakAnything_iff := by
    rintro _ ⟨⟩
    exact Verdict.ofPhases_eq_testsDoNotBreakAnything_iff
  legitimate_iff := by
    rintro _ ⟨⟩
    exact Verdict.ofPhases_eq_legitimate_iff

end CommitReport

namespace Progress

variable {σ : Type} {p p' : Progress σ} {suite : Suite σ} {layout : ProjectLayout} {id : CommitId}
  {c : Commit} {reference : String} {entry : CommitReport}

theorem measures_of_evaluate {results : PhaseResults} (hfind : p.copy.history.find? id = some c)
    (hrun : p.evaluate suite layout id = (p', .ok results)) :
    (PhaseSummary.ofResults results).Measures suite layout p.copy.history c := by
  obtain ⟨d, first, second, before, after, hd, hphases, rfl, -⟩ := phases_of_evaluate hrun
  obtain rfl : d = c := Option.some.inj (hd.symm.trans hfind)
  have hreconstruction := hphases.reconstruction hfind
  have hsecond := hphases.second_eq
  obtain rfl := hphases.first_eq
  exact ⟨p.memory, before, after, by rw [← hsecond], hreconstruction⟩

/-- The entry of a commit names it as it was asked for, and what it says of it is so. -/
theorem sound_of_examine (hexamine : p.examine suite layout reference id = (p', .ok entry)) :
    entry.reference = reference ∧ entry.commit = id ∧
      ∃ c, p.copy.history.find? id = some c ∧ entry.Sound suite layout p.copy.history c := by
  obtain ⟨c, hfind, ⟨verdict, htriage, -, rfl⟩ | ⟨htriage, results, hrun, rfl⟩⟩ :=
    examine_eq_ok_iff.mp hexamine
  · exact ⟨rfl, rfl, c, hfind, CommitReport.sound_triaged htriage⟩
  · exact ⟨rfl, rfl, c, hfind, CommitReport.sound_evaluated htriage
      (measures_of_evaluate (p := p.classified id _) hfind hrun)⟩

/-- A batch gives its commits one sound entry each, in order. -/
theorem sound_of_examineAll {pairs : List (String × CommitId)} {entries : List CommitReport}
    (hrun : p.examineAll suite layout pairs = (p', entries, .ok ())) :
    List.Forall₂ (fun pair entry => entry.reference = pair.1 ∧ entry.commit = pair.2 ∧
      ∃ c, p.copy.history.find? pair.2 = some c ∧ entry.Sound suite layout p.copy.history c)
      pairs entries := by
  refine (forall₂_of_examineAll (I := fun q => q.copy.history = p.copy.history)
    (fun q event hq => hq) (fun q q' reference id entry hq hexamine => ?_) rfl hrun).2
  have hsound := sound_of_examine hexamine
  rw [hq] at hsound
  exact ⟨(examine_history hexamine).trans hq, hsound⟩

/-- A report on a fresh clone has one entry for each reference, in order. Each is about the commit that its
reference names in the untouched clone and is sound; together they record all runs of the suite that were
made, two for each commit that was run, and no others. -/
theorem verify_sound {source : Repository} {memory : σ} {elapsed : Duration} {references : List String}
    {report : RunReport} (hrun : ((start (.clone source) memory).verify suite layout elapsed
      references).outcome = .ok report) :
    let result := (start (.clone source) memory).verify suite layout elapsed references
    List.Forall₂ (fun reference entry => entry.reference = reference ∧
      (WorkingCopy.clone source).resolve reference = .ok entry.commit ∧
      ∃ c, source.history.find? entry.commit = some c ∧ entry.Sound suite layout source.history c)
      references report.commits ∧
    report.commits.flatMap (·.records) = (suite.runAll memory result.progress.seen).1.map .ofRun ∧
    result.progress.seen.length = 2 * report.commits.countP (·.phases.isSome) ∧
    result.delivered = report.commits ∧
    (report.exitCode = 0 ↔ ∀ entry ∈ report.commits,
      entry.verdict = .legitimate ∨ entry.verdict = .noUnitTestChange) := by
  rcases hresolve : (start (.clone source) memory).resolveAll references with ⟨q, e | resolved⟩
  · rw [verify_of_unresolved hresolve] at hrun
    cases hrun
  rcases hall : q.examineAll suite layout resolved with ⟨p', entries, e | ⟨⟩⟩
  · rw [verify_of_stopped hresolve hall] at hrun
    cases hrun
  rw [verify_of_ok hresolve hall] at hrun ⊢
  obtain rfl := Except.ok.inj hrun
  obtain ⟨rfl, hnamed, rfl⟩ := resolveAll_eq_ok_iff.mp hresolve
  obtain ⟨runs, ⟨directories, hseen, hruns⟩, hrecords⟩ := ran_of_examineAll hall
  refine ⟨?_, ?_, ?_, rfl, RunReport.exitCode_eq_zero_iff⟩
  · rw [List.forall₂_map_left_iff]
    refine ((List.forall₂_and_left _ _).mpr ⟨hnamed, sound_of_examineAll hall⟩).imp ?_
    rintro pair entry ⟨hresolved, hreference, hcommit, c, hfind, hsound⟩
    rw [← hcommit] at hresolved hfind
    exact ⟨hreference, hresolved, c, hfind, hsound⟩
  · obtain rfl : p'.seen = directories := hseen
    rw [hrecords]
    exact congrArg (List.map PhaseRecord.ofRun) (congrArg Prod.fst hruns).symm
  · exact (length_seen_of_examineAll hall).trans (Nat.zero_add _)

end Progress

theorem Progress.verify_sound_sample :
    let references := ["main", "main~", "HEAD"]
    ∃ report, ((start (.clone Sample.repository) 0).verify Sample.suite .default .zero
        references).outcome = .ok report ∧
      List.Forall₂ (fun reference entry => entry.reference = reference ∧
        (WorkingCopy.clone Sample.repository).resolve reference = .ok entry.commit ∧
        ∃ c, Sample.history.find? entry.commit = some c ∧
          entry.Sound Sample.suite .default Sample.history c) references report.commits := by
  intro references
  obtain ⟨entryOf, hentryOf⟩ := exists_entryOf Sample.suite 0 Sample.repository .default
  have hready : (start (.clone Sample.repository) 0).Ready Sample.history :=
    ⟨rfl, WorkingCopy.isLocked_clone Sample.repository⟩
  have hentry : ∀ r ∈ references, ∃ id c, (WorkingCopy.clone Sample.repository).resolve r = .ok id ∧
      Sample.history.find? id = some c ∧
      entryOf r = Sample.suite.entryOn 0 Sample.history .default r c := by
    simp only [references, List.forall_mem_cons]
    exact ⟨⟨Sample.feature.id, Sample.feature, rfl, rfl, hentryOf _ _ _ rfl rfl⟩,
      ⟨Sample.root.id, Sample.root, rfl, rfl, hentryOf _ _ _ rfl rfl⟩,
      ⟨Sample.feature.id, Sample.feature, rfl, rfl, hentryOf _ _ _ rfl rfl⟩, by simp⟩
  have hrun := hready.verify Sample.suite_byWorkingFiles 0 .zero hentry
  exact ⟨_, hrun, (verify_sound hrun).1⟩

end CommitVerdict
