import CommitVerdict.Proofs.Batch.Course
import CommitVerdict.Proofs.Differential.TestsArea

namespace CommitVerdict

namespace ProjectLayout

/-- Whether two layouts lead every batch on a fresh clone to the same end, as long as its suite goes by the
working files. -/
def Interchangeable (l l' : ProjectLayout) : Prop :=
  ∀ (σ : Type) (suite : Suite σ), suite.ByWorkingFiles →
    ∀ (source : Repository) (memory : σ) (elapsed : Duration) (references : List String),
      ((Progress.start (.clone source) memory).verify suite l elapsed references).outcome =
        ((Progress.start (.clone source) memory).verify suite l' elapsed references).outcome

/-- Whether some file counts for an area. -/
def HasFiles (area : String) : Prop :=
  ∃ p : Path, p.isTrackable = true ∧ PathText.isBelow p.toText area = true

/-- Whether two layouts are read alike, on all files that a repository can track. -/
structure ReadsSame (l l' : ProjectLayout) : Prop where
  tests : ∀ p : Path, p.isTrackable = true →
    PathText.isBelow p.toText l.testsDir = PathText.isBelow p.toText l'.testsDir
  code : ∀ p : Path, p.isTrackable = true →
    PathText.isBelow p.toText l.codeDir = PathText.isBelow p.toText l'.codeDir
  restored : HasFiles l.testsDir → HasFiles l.codeDir → ∀ p : Path, p.isTrackable = true →
    (Pathspec.ofTexts [l.codeDir]).selects p = (Pathspec.ofTexts [l'.codeDir]).selects p

section Sufficiency

variable {σ : Type} {l l' : ProjectLayout} {h : History} {id : CommitId} {c : Commit}

theorem ReadsSame.changeSet_eq (hsame : l.ReadsSame l') (hfind : h.find? id = some c) :
    h.changeSet l c = h.changeSet l' c := by
  have hany {area area' : String} (halike : ∀ p : Path, p.isTrackable = true →
      PathText.isBelow p.toText area = PathText.isBelow p.toText area') :
      ((h.changes c).map Path.toText).any (PathText.isBelow · area) =
        ((h.changes c).map Path.toText).any (PathText.isBelow · area') := by
    rw [List.any_map, List.any_map, Bool.eq_iff_iff, List.any_eq_true, List.any_eq_true]
    apply exists_congr
    intro p
    apply and_congr_right
    intro hp
    rw [Function.comp_apply, Function.comp_apply, halike p (History.trackable_of_mem_changes hfind hp)]
  simp only [History.changeSet, ChangeSet.classify, hany hsame.tests, hany hsame.code]

theorem ReadsSame.resultsOn_eq (hsame : l.ReadsSame l') (hfind : h.find? id = some c)
    (htriage : (h.changeSet l c).triage = none) (suite : Suite σ) (memory : σ) :
    suite.resultsOn memory h l c = suite.resultsOn memory h l' c := by
  obtain ⟨htests, hcode⟩ := ChangeSet.triage_eq_none_iff.mp htriage
  obtain ⟨v, hv, hvtests⟩ := History.touchesTests_iff.mp htests
  obtain ⟨y, hy, hycode⟩ := History.touchesProductionCode_iff.mp hcode
  have hselects := hsame.restored ⟨v, History.trackable_of_mem_changes hfind hv, hvtests⟩
    ⟨y, History.trackable_of_mem_changes hfind hy, hycode⟩
  have hcommit (p : Path) : ((Pathspec.ofTexts [l.codeDir]).selects p && (c.tree.get? p).isSome) =
      ((Pathspec.ofTexts [l'.codeDir]).selects p && (c.tree.get? p).isSome) := by
    by_cases hp : p.isTrackable = true
    · rw [hselects p hp]
    · rw [(History.trackable_tree hfind).get?_eq_none hp]
      simp
  have hparent : (h.parentTree c).restrict (Pathspec.ofTexts [l.codeDir]).selects =
      (h.parentTree c).restrict (Pathspec.ofTexts [l'.codeDir]).selects := by
    apply Tree.ext_get?
    intro p
    rw [Tree.get?_restrict, Tree.get?_restrict]
    by_cases hp : p.isTrackable = true
    · rw [hselects p hp]
    · rw [(History.trackable_parentTree hfind).get?_eq_none hp]
      simp
  simp only [Suite.resultsOn, hcommit, hparent]

theorem ReadsSame.entryOn_eq (hsame : l.ReadsSame l') (hfind : h.find? id = some c) (suite : Suite σ)
    (memory : σ) (reference : String) :
    suite.entryOn memory h l reference c = suite.entryOn memory h l' reference c := by
  have hchanges := hsame.changeSet_eq hfind
  simp only [History.changeSet, History.changes] at hchanges
  simp only [Suite.entryOn, ← hchanges]
  cases htriage : (h.changeSet l c).triage with
  | some verdict => rw [← History.changes, ← History.changeSet, htriage]
  | none => rw [← History.changes, ← History.changeSet, htriage, hsame.resultsOn_eq hfind htriage]

/-- Layouts that are read alike can take each other's place. -/
theorem ReadsSame.interchangeable (hsame : l.ReadsSame l') : l.Interchangeable l' := by
  intro σ suite hsuite source memory elapsed references
  rcases hresolve : (Progress.start (.clone source) memory).resolveAll references with ⟨q, e | resolved⟩
  · rw [Progress.verify_of_unresolved hresolve, Progress.verify_of_unresolved hresolve]
  · obtain ⟨hreferences, hresolved, -⟩ := Progress.resolveAll_eq_ok_iff.mp hresolve
    obtain ⟨entryOf, hentryOf⟩ := Progress.exists_entryOf suite memory source l
    have hready := Progress.ready_start source memory
    have hentry : ∀ r ∈ references, ∃ id c, (WorkingCopy.clone source).resolve r = .ok id ∧
        source.history.find? id = some c ∧ entryOf r = suite.entryOn memory source.history l r c := by
      intro r hr
      rw [hreferences] at hr
      obtain ⟨pair, hpair, rfl⟩ := List.mem_map.mp hr
      obtain ⟨c, hc⟩ := ((WorkingCopy.namesHeld_clone source).resolve (hresolved pair hpair)).find?
      exact ⟨pair.2, c, hresolved pair hpair, hc, hentryOf _ _ c (hresolved pair hpair) hc⟩
    have hentry' : ∀ r ∈ references, ∃ id c, (WorkingCopy.clone source).resolve r = .ok id ∧
        source.history.find? id = some c ∧ entryOf r = suite.entryOn memory source.history l' r c := by
      intro r hr
      obtain ⟨id, c, hid, hc, heq⟩ := hentry r hr
      exact ⟨id, c, hid, hc, heq.trans (hsame.entryOn_eq hc suite memory r)⟩
    rw [hready.verify hsuite memory elapsed hentry, hready.verify hsuite memory elapsed hentry']

end Sufficiency

end ProjectLayout

/-- A batch of one reference on a fresh clone has the entry of its commit. -/
theorem outcome_verify_singleton {σ : Type} {suite : Suite σ} (hsuite : suite.ByWorkingFiles) {source : Repository}
    {reference : String} {id : CommitId} {c : Commit}
    (hresolve : (WorkingCopy.clone source).resolve reference = .ok id)
    (hfind : source.history.find? id = some c) (memory : σ) (layout : ProjectLayout) (elapsed : Duration) :
    ((Progress.start (.clone source) memory).verify suite layout elapsed [reference]).outcome =
      .ok ⟨[suite.entryOn memory source.history layout reference c]⟩ := by
  let entryOf (_ : String) : CommitReport := suite.entryOn memory source.history layout reference c
  have hentry : ∀ r ∈ [reference], ∃ id c, (WorkingCopy.clone source).resolve r = .ok id ∧
      source.history.find? id = some c ∧ entryOf r = suite.entryOn memory source.history layout r c := by
    intro r hr
    obtain rfl := List.mem_singleton.mp hr
    exact ⟨id, c, hresolve, hfind, rfl⟩
  exact (Progress.ready_start source memory).verify hsuite memory elapsed hentry

/-- A repository that stands on such a commit. -/
def Repository.ofChange (old new : Snapshot) (hold : old.Trackable) (hnew : new.Trackable) : Repository :=
  .standingOn (.ofChange old new hold hnew) (.ofNat 2)
    (History.holds_of_find? (ProjectLayout.find?_ofChange hold hnew))

section Change

variable {σ : Type} {old new : Snapshot} (hold : old.Trackable) (hnew : new.Trackable)

theorem outcome_ofChange {suite : Suite σ} (hsuite : suite.ByWorkingFiles) (memory : σ)
    (layout : ProjectLayout) (elapsed : Duration) :
    ((Progress.start (.clone (.ofChange old new hold hnew)) memory).verify suite layout elapsed
      ["HEAD"]).outcome =
        .ok ⟨[suite.entryOn memory (.ofChange old new hold hnew) layout "HEAD" (.second new)]⟩ := by
  have hresolve : (WorkingCopy.clone (.ofChange old new hold hnew)).resolve "HEAD" = .ok (.ofNat 2) := rfl
  exact outcome_verify_singleton hsuite hresolve (ProjectLayout.find?_ofChange hold hnew) memory layout elapsed

theorem mem_changes_ofChange {p : Path} :
    p ∈ (History.ofChange old new hold hnew).changes (.second new) ↔ new.get? p ≠ old.get? p :=
  History.mem_changes_iff

end Change

theorem Suite.changeSet_entryOn {σ : Type} (suite : Suite σ) (memory : σ) (h : History)
    (layout : ProjectLayout) (reference : String) (c : Commit) :
    (suite.entryOn memory h layout reference c).changeSet = h.changeSet layout c := by
  unfold entryOn
  simp only
  split <;> rfl

theorem Suite.phases_entryOn {σ : Type} (suite : Suite σ) (memory : σ) {h : History}
    {layout : ProjectLayout} (reference : String) {c : Commit}
    (htriage : (h.changeSet layout c).triage = none) :
    (suite.entryOn memory h layout reference c).phases =
      some (.ofResults (suite.resultsOn memory h layout c)) := by
  simp only [History.changeSet, History.changes] at htriage
  simp only [entryOn, htriage]
  rfl

theorem PhaseResults.passed_preChange_of_summary {r r' : PhaseResults}
    (hsummary : PhaseSummary.ofResults r = PhaseSummary.ofResults r') :
    r.preChange.passed = r'.preChange.passed := by
  have houtcome := congrArg (fun summary => summary.preChange.outcome.isPass) hsummary
  exact houtcome

/-- A suite that passes exactly if it finds an entry at a path. -/
def Suite.probing (p : Path) (e : Entry) : Suite Unit where
  name := "probe"
  program := "probe"
  available := true
  invoke memory files :=
    { run := .finished "" "" (if files.working.entryAt? p = some e then 0 else 1) .zero
      output := []
      files := files
      memory := memory }

theorem Suite.probing_readsOnly (p : Path) (e : Entry) : (probing p e).ReadsOnly := fun _ _ => rfl

theorem Suite.probing_byWorkingFiles (p : Path) (e : Entry) : (probing p e).ByWorkingFiles :=
  ⟨fun _ _ _ _ hworking => by simp only [probing, hworking], fun _ _ _ _ hworking => hworking,
    fun _ _ => rfl⟩

theorem Suite.passed_probing {p : Path} {e : Entry} (files : Directory) :
    ((probing p e).invoke () files).run.passed = true ↔ files.working.entryAt? p = some e := by
  simp only [probing, TestRun.passed, TestRun.finished, TestOutcome.ofExitCode]
  by_cases hentry : files.working.entryAt? p = some e <;> simp [hentry, TestOutcome.isPass]

/-- The only file of the parent is spared exactly if the restoration does not select it. -/
theorem spared_ofChange_only_iff {p : Path} {e : Entry} {new : Snapshot} (hp : p.isTrackable = true)
    (hnew : new.Trackable) (area : String) :
    Spared (.ofChange (.only p e) new (Snapshot.trackable_only hp e) hnew) (.second new) area p ↔
      ¬(Pathspec.ofTexts [area]).selects p = true := by
  let h : History := .ofChange (.only p e) new (Snapshot.trackable_only hp e) hnew
  have hparent : h.parentTree (.second new) = .only p e := rfl
  constructor
  · intro hspared hselects
    have hget := Snapshot.get?_only_eq_some_iff.mpr ⟨(rfl : p = p), (rfl : e = e)⟩
    exact hspared.1 ⟨hselects, .inr (by rw [hparent, hget]; rfl)⟩
  · intro hselects
    refine ⟨fun hreverts => hselects hreverts.1, fun r hr => ?_⟩
    obtain ⟨e', he'⟩ := Option.isSome_iff_exists.mp hr.2
    obtain ⟨rfl, -⟩ := Snapshot.get?_only_eq_some_iff.mp he'
    exact absurd hr.1 hselects

/-- The second run finds the only file of the parent exactly if the restoration selects it. -/
theorem Suite.passed_preChange_probing {p : Path} {e : Entry} {new : Snapshot}
    (hp : p.isTrackable = true) (hnew : new.Trackable) (hgone : new.get? p ≠ some e)
    (layout : ProjectLayout) :
    ((probing p e).resultsOn () (.ofChange (.only p e) new (Snapshot.trackable_only hp e) hnew) layout
        (.second new)).preChange.passed = true ↔
      (Pathspec.ofTexts [layout.codeDir]).selects p = true := by
  have hold := Snapshot.trackable_only hp e
  have hfind := ProjectLayout.find?_ofChange hold hnew
  let start := Progress.start (.clone (.ofChange (.only p e) new hold hnew)) ()
  have hready : start.Ready (.ofChange (.only p e) new hold hnew) := Progress.ready_start _ ()
  obtain ⟨q, results, hrun⟩ := hready.evaluate_ok (probing_byWorkingFiles p e) layout hfind
  obtain ⟨d, first, second, before, after, hd, hphases, -, -, -, -⟩ := Progress.phases_of_evaluate hrun
  obtain rfl := Option.some.inj (hfind.symm.trans hd)
  have hresults := hphases.results_eq (probing_byWorkingFiles p e) hfind ()
  have hparent : (start.copy.history.parentTree (.second new)).get? p = some e := by
    rw [show start.copy.history.parentTree (.second new) = Snapshot.only p e from rfl]
    exact Snapshot.get?_only_eq_some_iff.mpr ⟨rfl, rfl⟩
  have hsecond : second.run.passed = true ↔ after.working.entryAt? p = some e := by
    rw [hphases.second_eq]
    exact passed_probing after
  have hfound : after.working.entryAt? p = some e ↔ ¬Spared start.copy.history (.second new) layout.codeDir p := by
    constructor
    · intro hafter hspared
      have hkept := (hphases.entryAt?_eq_tree_iff (probing_readsOnly p e) hfind).mpr (.inl hspared)
      exact hgone (hkept.symm.trans hafter)
    · intro hspared
      rw [hphases.working_after_of_not_spared hfind hspared, hparent]
  have hspared : Spared start.copy.history (.second new) layout.codeDir p ↔
      ¬(Pathspec.ofTexts [layout.codeDir]).selects p = true := spared_ofChange_only_iff hp hnew layout.codeDir
  have hpre : ((probing p e).resultsOn () (.ofChange (.only p e) new hold hnew) layout
      (.second new)).preChange = second.run := congrArg PhaseResults.preChange hresults.symm
  rw [hpre, hsecond, hfound, hspared, not_not]

namespace ProjectLayout

variable {l l' : ProjectLayout} {v y : Path}

/-- A commit can touch a file in each of two areas, with new files alone. -/
theorem exists_touching (hv : v.isTrackable = true) (htests : PathText.isBelow v.toText l.testsDir = true)
    (hy : y.isTrackable = true) (hcode : PathText.isBelow y.toText l.codeDir = true) (e : Entry) :
    ∃ new : Snapshot, new.Trackable ∧ (∀ q e', new.get? q = some e' → e' = e) ∧
      (∃ f, PathText.isBelow f.toText l.testsDir = true ∧ new.get? f = some e) ∧
      ∃ f, PathText.isBelow f.toText l.codeDir = true ∧ new.get? f = some e := by
  have hself (p : Path) : (Snapshot.only p e).get? p = some e :=
    Snapshot.get?_only_eq_some_iff.mpr ⟨rfl, rfl⟩
  have honly (p q : Path) (e' : Entry) (hget : (Snapshot.only p e).get? q = some e') : e' = e :=
    (Snapshot.get?_only_eq_some_iff.mp hget).2
  by_cases hconflict : Path.conflicts v y = true
  · -- the longer one of the two paths lies in both areas
    rcases Path.conflicts_iff.mp hconflict with hbelow | habove
    · exact ⟨.only y e, Snapshot.trackable_only hy e, honly y,
        ⟨y, isBelow_of_isPrefix hv hy hbelow htests, hself y⟩, y, hcode, hself y⟩
    · exact ⟨.only v e, Snapshot.trackable_only hv e, honly v, ⟨v, htests, hself v⟩,
        v, isBelow_of_isPrefix hy hv habove hcode, hself v⟩
  · refine ⟨(Snapshot.only v e).put y e, (Snapshot.trackable_only hv e).put hy e, ?_,
      ⟨v, htests, ?_⟩, y, hcode, Tree.get?_put_eq_some_iff.mpr (.inl ⟨rfl, rfl⟩)⟩
    · intro q e' hget
      rcases Tree.get?_put_eq_some_iff.mp hget with ⟨-, rfl⟩ | ⟨-, hold⟩
      · rfl
      · exact honly v q e' hold
    · rw [Path.conflicts_comm] at hconflict
      exact Tree.get?_put_eq_some_iff.mpr (.inr ⟨by simpa using hconflict, hself v⟩)

/-- Layouts that can take each other's place count the same files for their areas. -/
theorem Interchangeable.entryOn_eq (hinter : l.Interchangeable l') {σ : Type} {suite : Suite σ}
    (hsuite : suite.ByWorkingFiles) (memory : σ) {old new : Snapshot} (hold : old.Trackable)
    (hnew : new.Trackable) :
    suite.entryOn memory (.ofChange old new hold hnew) l "HEAD" (.second new) =
      suite.entryOn memory (.ofChange old new hold hnew) l' "HEAD" (.second new) := by
  have hend := hinter σ suite hsuite (.ofChange old new hold hnew) memory .zero ["HEAD"]
  rw [outcome_ofChange hold hnew hsuite, outcome_ofChange hold hnew hsuite, Except.ok.injEq,
    RunReport.mk.injEq, List.singleton_inj] at hend
  exact hend

theorem Interchangeable.changeSet_eq (hinter : l.Interchangeable l') {old new : Snapshot}
    (hold : old.Trackable) (hnew : new.Trackable) :
    (History.ofChange old new hold hnew).changeSet l (.second new) =
      (History.ofChange old new hold hnew).changeSet l' (.second new) := by
  have hentry := hinter.entryOn_eq Suite.idle_byWorkingFiles () hold hnew
  rw [← Suite.changeSet_entryOn, hentry, Suite.changeSet_entryOn]

theorem Interchangeable.isBelow_eq (hinter : l.Interchangeable l') {p : Path} (hp : p.isTrackable = true) :
    PathText.isBelow p.toText l.testsDir = PathText.isBelow p.toText l'.testsDir ∧
      PathText.isBelow p.toText l.codeDir = PathText.isBelow p.toText l'.codeDir := by
  have hnew := Snapshot.trackable_only hp (.file [])
  have hchanged {q : Path} : q ∈ (History.ofChange Tree.empty (.only p (.file []))
      Snapshot.trackable_empty hnew).changes (.second (.only p (.file []))) ↔ q = p := by
    rw [mem_changes_ofChange, Tree.get?_empty, Option.ne_none_iff_exists']
    simp [Snapshot.get?_only_eq_some_iff]
  have htests (layout : ProjectLayout) : ((History.ofChange Tree.empty (.only p (.file []))
      Snapshot.trackable_empty hnew).changeSet layout (.second (.only p (.file [])))).touchesTests =
        PathText.isBelow p.toText layout.testsDir := by
    rw [Bool.eq_iff_iff, History.touchesTests_iff]
    simp [hchanged]
  have hcode (layout : ProjectLayout) : ((History.ofChange Tree.empty (.only p (.file []))
      Snapshot.trackable_empty hnew).changeSet layout
        (.second (.only p (.file [])))).touchesProductionCode =
        PathText.isBelow p.toText layout.codeDir := by
    rw [Bool.eq_iff_iff, History.touchesProductionCode_iff]
    simp [hchanged]
  have hsets := hinter.changeSet_eq Snapshot.trackable_empty hnew
  rw [← htests, ← htests, ← hcode, ← hcode, hsets]
  exact ⟨rfl, rfl⟩

/-- If some commit can touch both areas, they restore the same files as well. -/
theorem Interchangeable.selects_eq (hinter : l.Interchangeable l') (htests : HasFiles l.testsDir)
    (hcode : HasFiles l.codeDir) {p : Path} (hp : p.isTrackable = true) :
    (Pathspec.ofTexts [l.codeDir]).selects p = (Pathspec.ofTexts [l'.codeDir]).selects p := by
  obtain ⟨v, hv, hvtests⟩ := htests
  obtain ⟨y, hy, hycode⟩ := hcode
  obtain ⟨new, hnew, hentries, ⟨f, hf, hfnew⟩, g, hg, hgnew⟩ := exists_touching hv hvtests hy hycode (.file [0])
  have hold := Snapshot.trackable_only hp (.file [])
  have hgone : new.get? p ≠ some (.file []) := by
    intro hget
    have heq := hentries p _ hget
    simp at heq
  have hchanged {q : Path} (hq : new.get? q = some (.file [0])) :
      q ∈ (History.ofChange (.only p (.file [])) new hold hnew).changes (.second new) := by
    rw [mem_changes_ofChange, hq]
    intro heq
    have hboth := Snapshot.get?_only_eq_some_iff.mp heq.symm
    simp at hboth
  have htriage : ((History.ofChange (.only p (.file [])) new hold hnew).changeSet l (.second new)).triage =
      none :=
    ChangeSet.triage_eq_none_iff.mpr ⟨History.touchesTests_iff.mpr ⟨f, hchanged hfnew, hf⟩,
      History.touchesProductionCode_iff.mpr ⟨g, hchanged hgnew, hg⟩⟩
  have htriage' := htriage
  rw [hinter.changeSet_eq hold hnew] at htriage'
  have hentry := hinter.entryOn_eq (Suite.probing_byWorkingFiles p (.file [])) () hold hnew
  have hphases := congrArg CommitReport.phases hentry
  rw [Suite.phases_entryOn _ _ _ htriage, Suite.phases_entryOn _ _ _ htriage', Option.some.injEq] at hphases
  rw [Bool.eq_iff_iff, ← Suite.passed_preChange_probing hp hnew hgone,
    ← Suite.passed_preChange_probing hp hnew hgone, PhaseResults.passed_preChange_of_summary hphases]

/-- Layouts can take each other's place exactly if they are read alike. -/
theorem interchangeable_iff_readsSame : l.Interchangeable l' ↔ l.ReadsSame l' := by
  constructor
  · intro hinter
    exact ⟨fun p hp => (hinter.isBelow_eq hp).1, fun p hp => (hinter.isBelow_eq hp).2,
      fun htests hcode p hp => hinter.selects_eq htests hcode hp⟩
  · exact ReadsSame.interchangeable

end ProjectLayout

end CommitVerdict
