import CommitVerdict.Proofs.Batch.Course

namespace CommitVerdict

variable {σ : Type}

/-- The events of one run of the suite: every line of its output, between a start and an end. -/
def Invocation.events (run : Invocation σ) (id : CommitId) (phase : Phase) : List Event :=
  .phaseStarted id.abbreviated phase ::
    run.output.map (fun line => .outputLine id.abbreviated phase line.1 line.2) ++
    [.phaseCompleted id.abbreviated phase run.run.passed run.run.exitCode run.run.duration.toSeconds]

namespace ChangeSet

/-- The event that tells what a commit touches. -/
def event (changes : ChangeSet) (id : CommitId) : Event :=
  .commitClassified id.abbreviated changes.filesChanged changes.touchesTests
    changes.touchesProductionCode

def TouchesBoth (changes : ChangeSet) : Prop :=
  changes.touchesTests = true ∧ changes.touchesProductionCode = true

end ChangeSet

section Grammar

variable (suite : Suite σ) (h : History) (layout : ProjectLayout)

/-- The events of a commit that gets an entry, with what the suite remembers before and after them. -/
inductive JudgedEvents (reference : String) (id : CommitId) : σ → List Event → CommitReport → σ → Prop
  | settled {memory c verdict} :
      h.find? id = some c →
      ¬(h.changeSet layout c).TouchesBoth →
      (h.changeSet layout c).triage = some verdict →
      JudgedEvents reference id memory
        [(h.changeSet layout c).event id,
          .verdictReached id.abbreviated verdict.shortDescription (!verdict.isFailure)]
        (.triaged reference id (h.changeSet layout c) verdict) memory
  | measured {memory c before after first second results} :
      h.find? id = some c →
      (h.changeSet layout c).TouchesBoth →
      first = suite.invoke memory before →
      second = suite.invoke first.memory after →
      results = ⟨first.run, second.run⟩ →
      JudgedEvents reference id memory
        ((h.changeSet layout c).event id :: first.events id .postChange ++ second.events id .preChange ++
          [.verdictReached id.abbreviated results.verdict.shortDescription (!results.verdict.isFailure)])
        (.evaluated reference id (h.changeSet layout c) results) second.memory

/-- The events of commits that get entries, one commit after the other. -/
inductive CourseEvents : σ → List (String × CommitId) → List Event → List CommitReport → σ → Prop
  | nil {memory} : CourseEvents memory [] [] [] memory
  | cons {memory memory' memory'' reference id pairs events rest entry entries} :
      JudgedEvents suite h layout reference id memory events entry memory' →
      CourseEvents memory' pairs rest entries memory'' →
      CourseEvents memory ((reference, id) :: pairs) (events ++ rest) (entry :: entries) memory''

/-- The events of a commit at which a batch breaks off. -/
inductive HaltedEvents (id : CommitId) (memory : σ) : List Event → Prop
  /-- The changes of the commit are not known. -/
  | unclassified : h.find? id = none → HaltedEvents id memory []
  /-- The clone cannot be made to stand on the commit. -/
  | unreset {c} :
      h.find? id = some c →
      (h.changeSet layout c).TouchesBoth →
      HaltedEvents id memory [(h.changeSet layout c).event id]
  /-- The production code of the parent cannot be put back. -/
  | unrestored {c before} :
      h.find? id = some c →
      (h.changeSet layout c).TouchesBoth →
      HaltedEvents id memory
        ((h.changeSet layout c).event id :: (suite.invoke memory before).events id .postChange)

end Grammar

/-- The event of a reference that has a commit. -/
def resolutionEvents (resolved : List (String × CommitId)) : List Event :=
  resolved.map fun pair => .referenceResolved pair.1 pair.2.abbreviated

/-- The events of a batch of references on a clone, with the entries that it hands on and how it ends. -/
inductive BatchEvents (suite : Suite σ) (copy : WorkingCopy) (layout : ProjectLayout) (memory : σ)
    (elapsed : Duration) (references : List String) :
    List CommitReport → Except VerificationError RunReport → List Event → Prop
  | unresolved {resolved reference rest} :
      references = resolved.map (·.1) ++ reference :: rest →
      (∀ pair ∈ resolved, copy.resolve pair.1 = .ok pair.2) →
      (∀ id, copy.resolve reference ≠ .ok id) →
      BatchEvents suite copy layout memory elapsed references []
        (.error (.unresolvableReference reference)) (resolutionEvents resolved)
  | halted {done reference id rest course entries memory' last e} :
      references = (done ++ (reference, id) :: rest).map (·.1) →
      (∀ pair ∈ done ++ (reference, id) :: rest, copy.resolve pair.1 = .ok pair.2) →
      CourseEvents suite copy.history layout memory done course entries memory' →
      HaltedEvents suite copy.history layout id memory' last →
      BatchEvents suite copy layout memory elapsed references entries (.error e)
        (resolutionEvents (done ++ (reference, id) :: rest) ++ course ++ last)
  | completed {resolved course entries memory'} :
      references = resolved.map (·.1) →
      (∀ pair ∈ resolved, copy.resolve pair.1 = .ok pair.2) →
      CourseEvents suite copy.history layout memory resolved course entries memory' →
      BatchEvents suite copy layout memory elapsed references entries (.ok ⟨entries⟩)
        (resolutionEvents resolved ++ course ++
          [.runCompleted entries.length (RunReport.failures ⟨entries⟩) elapsed.toSeconds])

namespace Progress

variable {p p' q : Progress σ} {suite : Suite σ} {layout : ProjectLayout} {id : CommitId}
  {reference : String} {entry : CommitReport} {entries : List CommitReport}
  {pairs : List (String × CommitId)} {e : VerificationError}

@[simp]
theorem log_events (p : Progress σ) (event : Event) : (p.log event).events = p.events ++ [event] := rfl

theorem events_of_change {operation : WorkingCopy → WorkingCopy × Except GitError Unit}
    {outcome : Except VerificationError Unit} (hchange : p.change operation = (q, outcome)) :
    q.events = p.events ∧ q.memory = p.memory := by
  have hq : (p.change operation).1 = q := congrArg Prod.fst hchange
  subst hq
  exact ⟨rfl, rfl⟩

theorem runPhase_events (p : Progress σ) (suite : Suite σ) (id : CommitId) (phase : Phase) :
    (p.runPhase suite id phase).1.events =
      p.events ++ (suite.invoke p.memory p.copy.files).events id phase := by
  simp only [runPhase, Invocation.events, List.append_assoc]

/-- An evaluation that succeeds tells its two runs, and nothing else. -/
theorem events_of_evaluate {results : PhaseResults}
    (hrun : p.evaluate suite layout id = (p', .ok results)) :
    ∃ before after first second, first = suite.invoke p.memory before ∧
      second = suite.invoke first.memory after ∧ results = ⟨first.run, second.run⟩ ∧
      p'.memory = second.memory ∧
      p'.events = p.events ++ (first.events id .postChange ++ second.events id .preChange) := by
  obtain ⟨q, r, parent, hreset, -, hrestore, rfl, rfl⟩ := evaluate_eq_ok_iff.mp hrun
  obtain ⟨hqevents, hqmemory⟩ := events_of_change hreset
  obtain ⟨hrevents, hrmemory⟩ := events_of_change hrestore
  refine ⟨q.copy.files, r.copy.files, _, _, rfl, rfl, ?_, ?_, ?_⟩
  · rw [runPhase_run, runPhase_run, hrmemory, runPhase_memory, hqmemory]
  · rw [runPhase_memory, hrmemory, runPhase_memory, hqmemory]
  · rw [runPhase_events, hrevents, runPhase_events, hrmemory, runPhase_memory, hqevents, hqmemory,
      List.append_assoc]

/-- An evaluation that fails tells at most its first run. -/
theorem events_of_evaluate_error (hrun : p.evaluate suite layout id = (p', .error e)) :
    p'.events = p.events ∨
      ∃ before, p'.events = p.events ++ (suite.invoke p.memory before).events id .postChange := by
  have hfirst : (p.afterFirstRun suite id).events =
      p.events ++ (suite.invoke p.memory (p.copy.resetHard id).1.files).events id .postChange :=
    runPhase_events _ suite id .postChange
  rcases evaluate_eq_error_iff.mp hrun with hreset | ⟨-, ⟨-, rfl⟩ | ⟨parent, -, hrestore⟩⟩
  · left
    exact (events_of_change hreset).1
  · right
    exact ⟨_, hfirst⟩
  · right
    have hkept := (events_of_change hrestore).1
    exact ⟨_, hkept.trans hfirst⟩

theorem judgedEvents_of_examine (hexamine : p.examine suite layout reference id = (p', .ok entry)) :
    ∃ events, JudgedEvents suite p.copy.history layout reference id p.memory events entry p'.memory ∧
      (p'.log (verdictEvent entry)).events = p.events ++ events := by
  obtain ⟨c, hfind, ⟨verdict, htriage, rfl, rfl⟩ | ⟨htriage, results, hrun, rfl⟩⟩ :=
    examine_eq_ok_iff.mp hexamine
  · have hapart : ¬(p.copy.history.changeSet layout c).TouchesBoth := by
      intro hboth
      have hnone := ChangeSet.triage_eq_none_iff.mpr hboth
      rw [htriage] at hnone
      cases hnone
    refine ⟨_, .settled hfind hapart htriage, ?_⟩
    simp only [log_events, classified, List.append_assoc]
    rfl
  · have hboth : (p.copy.history.changeSet layout c).TouchesBoth :=
      ChangeSet.triage_eq_none_iff.mp htriage
    obtain ⟨before, after, first, second, hfirst, hsecond, hresults, hmemory, hevents⟩ :=
      events_of_evaluate hrun
    rw [hmemory]
    refine ⟨_, .measured hfind hboth hfirst hsecond hresults, ?_⟩
    rw [log_events, hevents, classified, log_events]
    simp only [List.append_assoc, List.cons_append, List.nil_append]
    rfl

theorem haltedEvents_of_examine (hexamine : p.examine suite layout reference id = (p', .error e)) :
    ∃ events, HaltedEvents suite p.copy.history layout id p.memory events ∧
      p'.events = p.events ++ events := by
  rcases examine_eq_error_iff.mp hexamine with ⟨hask, rfl⟩ | ⟨c, hfind, htriage, hrun⟩
  · have hunknown : p'.copy.history.find? id = none := by
      cases hfind : p'.copy.history.find? id with
      | none => rfl
      | some c =>
        rw [ask_eq_ok_iff.mpr (WorkingCopy.changedFiles_of_find? hfind)] at hask
        cases hask
    exact ⟨[], .unclassified hunknown, (List.append_nil p'.events).symm⟩
  · have hboth : (p.copy.history.changeSet layout c).TouchesBoth :=
      ChangeSet.triage_eq_none_iff.mp htriage
    rcases events_of_evaluate_error hrun with hevents | ⟨before, hevents⟩
    · exact ⟨_, .unreset hfind hboth, hevents⟩
    · have hhalted : HaltedEvents suite p.copy.history layout id p.memory
          ((p.copy.history.changeSet layout c).event id ::
            (suite.invoke p.memory before).events id .postChange) := .unrestored hfind hboth
      refine ⟨_, hhalted, ?_⟩
      rw [hevents, classified, log_events, List.append_assoc]
      rfl

theorem courseEvents_of_examineAll (hrun : p.examineAll suite layout pairs = (p', entries, .ok ())) :
    ∃ events, CourseEvents suite p.copy.history layout p.memory pairs events entries p'.memory ∧
      p'.events = p.events ++ events := by
  induction pairs generalizing p entries with
  | nil =>
    obtain ⟨rfl, rfl⟩ := by simpa [examineAll] using hrun
    exact ⟨[], .nil, (List.append_nil p.events).symm⟩
  | cons pair pairs ih =>
    obtain ⟨q, entry, tail, hexamine, htail, rfl⟩ := examineAll_cons_eq_ok_iff.mp hrun
    obtain ⟨events, hjudged, hevents⟩ := judgedEvents_of_examine hexamine
    obtain ⟨rest, hcourse, hrest⟩ := ih htail
    have hhistory : q.copy.history = p.copy.history := examine_history hexamine
    have hlogged : (q.log (verdictEvent entry)).copy.history = q.copy.history := rfl
    rw [hlogged, hhistory] at hcourse
    refine ⟨events ++ rest, .cons hjudged hcourse, ?_⟩
    rw [hrest, hevents, List.append_assoc]

/-- The events of a batch, whatever it comes to, follow the grammar. -/
theorem batchEvents_of_verify (p : Progress σ) (suite : Suite σ) (layout : ProjectLayout)
    (elapsed : Duration) (references : List String) :
    let result := p.verify suite layout elapsed references
    ∃ events, BatchEvents suite p.copy layout p.memory elapsed references result.delivered result.outcome
        events ∧ result.progress.events = p.events ++ events := by
  intro result
  rcases hresolve : p.resolveAll references with ⟨q, e | resolved⟩
  · have hresult : result = ⟨q, [], .error e⟩ := verify_of_unresolved hresolve elapsed
    rw [hresult]
    obtain ⟨resolved, reference, rest, hreferences, hresolved, hunknown, rfl, rfl⟩ :=
      resolveAll_error hresolve
    exact ⟨_, .unresolved hreferences hresolved hunknown, rfl⟩
  · obtain ⟨hreferences, hresolved, rfl⟩ := resolveAll_eq_ok_iff.mp hresolve
    -- the clone and the memory are those of `p` still, and the events are the resolved references
    rcases hall : (p.logAll (resolved.map resolvedEvent)).examineAll suite layout resolved with
      ⟨p', entries, e | ⟨⟩⟩
    · have hresult : result = ⟨p', entries, .error e⟩ := verify_of_stopped hresolve hall elapsed
      rw [hresult]
      obtain ⟨done, reference, id, rest, q, rfl, hdone, hstop⟩ := examineAll_eq_error_iff.mp hall
      obtain ⟨course, hcourse, hevents⟩ := courseEvents_of_examineAll hdone
      obtain ⟨last, hhalted, hlast⟩ := haltedEvents_of_examine hstop
      rw [examineAll_history hdone] at hhalted
      refine ⟨_, .halted hreferences hresolved hcourse hhalted, ?_⟩
      rw [hlast, hevents]
      simp only [logAll, List.append_assoc]
      rfl
    · have hresult : result = _ := verify_of_ok hresolve hall elapsed
      rw [hresult]
      obtain ⟨course, hcourse, hevents⟩ := courseEvents_of_examineAll hall
      refine ⟨_, .completed hreferences hresolved hcourse, ?_⟩
      rw [log_events, hevents]
      simp only [logAll, List.append_assoc]
      rfl

end Progress

end CommitVerdict
