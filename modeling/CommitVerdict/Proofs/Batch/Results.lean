import CommitVerdict.Proofs.Batch.Protocol

namespace CommitVerdict

variable {σ : Type}

namespace Event

/-- Whether an event tells a result: the verdict on a commit, or the end of a batch. -/
def isResult : Event → Bool
  | .verdictReached .. => true
  | .runCompleted .. => true
  | _ => false

/-- Whether an event tells a verdict that is not legitimate. -/
def isComplaint : Event → Bool
  | .verdictReached _ _ legitimate => !legitimate
  | _ => false

theorem isResult_of_isComplaint {event : Event} (hcomplaint : event.isComplaint = true) :
    event.isResult = true := by
  cases event <;> first | rfl | cases hcomplaint

end Event

theorem Invocation.filter_events (run : Invocation σ) (id : CommitId) (phase : Phase) :
    (run.events id phase).filter Event.isResult = [] := by
  have hlines : (run.output.map fun (stream, line) =>
      Event.outputLine id.abbreviated phase stream line).filter Event.isResult = [] := by
    apply List.filter_eq_nil_iff.mpr
    intro event hevent
    obtain ⟨_, -, rfl⟩ := List.mem_map.mp hevent
    simp [Event.isResult]
  simp [events, hlines, Event.isResult]

theorem filter_resolutionEvents (resolved : List (String × CommitId)) :
    (resolutionEvents resolved).filter Event.isResult = [] := by
  apply List.filter_eq_nil_iff.mpr
  intro event hevent
  obtain ⟨_, -, rfl⟩ := List.mem_map.mp hevent
  simp [Event.isResult]

section Grammar

variable {suite : Suite σ} {h : History} {copy : WorkingCopy} {layout : ProjectLayout}
  {memory memory' : σ} {reference : String} {references : List String} {id : CommitId}
  {pairs : List (String × CommitId)} {events : List Event} {entry : CommitReport}
  {entries : List CommitReport} {elapsed : Duration}
  {outcome : Except VerificationError RunReport} {report : RunReport} {e : VerificationError}

theorem JudgedEvents.filter_events
    (hjudged : JudgedEvents suite h layout reference id memory events entry memory') :
    events.filter Event.isResult = [Progress.verdictEvent entry] := by
  cases hjudged with
  | settled => rfl
  | measured hfind hboth hfirst hsecond hresults =>
    have hclassified {changes : ChangeSet} : (changes.event id).isResult = false := rfl
    simp only [List.filter_append, List.filter_cons, hclassified, Invocation.filter_events]
    rfl

theorem JudgedEvents.pair_eq
    (hjudged : JudgedEvents suite h layout reference id memory events entry memory') :
    (entry.reference, entry.commit) = (reference, id) := by
  cases hjudged <;> rfl

theorem HaltedEvents.filter_events (hhalted : HaltedEvents suite h layout id memory events) :
    events.filter Event.isResult = [] := by
  have hclassified {changes : ChangeSet} : (changes.event id).isResult = false := rfl
  cases hhalted <;> simp [hclassified, Invocation.filter_events]

theorem CourseEvents.filter_events
    (hcourse : CourseEvents suite h layout memory pairs events entries memory') :
    events.filter Event.isResult = entries.map Progress.verdictEvent := by
  induction hcourse with
  | nil => rfl
  | cons hjudged _ ih =>
    rw [List.filter_append, hjudged.filter_events, ih, List.map_cons, List.singleton_append]

theorem CourseEvents.pairs_eq
    (hcourse : CourseEvents suite h layout memory pairs events entries memory') :
    entries.map (fun entry => (entry.reference, entry.commit)) = pairs := by
  induction hcourse with
  | nil => rfl
  | cons hjudged _ ih => rw [List.map_cons, hjudged.pair_eq, ih]

theorem CourseEvents.references_eq
    (hcourse : CourseEvents suite h layout memory pairs events entries memory') :
    entries.map (·.reference) = pairs.map (·.1) := by
  rw [← hcourse.pairs_eq, List.map_map]
  rfl

theorem BatchEvents.filter_events_of_ok
    (hbatch : BatchEvents suite copy layout memory elapsed references entries (.ok report) events) :
    events.filter Event.isResult = entries.map Progress.verdictEvent ++
      [.runCompleted references.length report.failures elapsed.toSeconds] := by
  cases hbatch with
  | completed hreferences hresolved hcourse =>
    have hlength : entries.length = references.length := by
      have hnames := congrArg List.length hcourse.references_eq
      rw [hreferences]
      simpa using hnames
    rw [List.filter_append, List.filter_append, filter_resolutionEvents, hcourse.filter_events, hlength]
    rfl

theorem BatchEvents.filter_events_of_error
    (hbatch : BatchEvents suite copy layout memory elapsed references entries (.error e) events) :
    events.filter Event.isResult = entries.map Progress.verdictEvent := by
  cases hbatch with
  | unresolved => exact filter_resolutionEvents _
  | halted hreferences hresolved hcourse hhalted =>
    rw [List.filter_append, List.filter_append, filter_resolutionEvents, hcourse.filter_events,
      hhalted.filter_events, List.append_nil, List.nil_append]

/-- A batch hands on entries about the commits that its references have in the clone. -/
theorem BatchEvents.resolve_of_mem
    (hbatch : BatchEvents suite copy layout memory elapsed references entries outcome events)
    (hmem : entry ∈ entries) : copy.resolve entry.reference = .ok entry.commit := by
  have hpair {pairs : List (String × CommitId)} {course : List Event} {memory' : σ}
      (hcourse : CourseEvents suite copy.history layout memory pairs course entries memory') :
      (entry.reference, entry.commit) ∈ pairs := by
    rw [← hcourse.pairs_eq]
    exact List.mem_map_of_mem hmem
  cases hbatch with
  | unresolved => cases hmem
  | halted _ hresolved hcourse =>
    exact hresolved (entry.reference, entry.commit) (List.mem_append_left _ (hpair hcourse))
  | completed _ hresolved hcourse => exact hresolved (entry.reference, entry.commit) (hpair hcourse)

/-- A batch that succeeds reports one entry for each reference. -/
theorem BatchEvents.references_of_ok
    (hbatch : BatchEvents suite copy layout memory elapsed references entries (.ok report) events) :
    report.commits = entries ∧ entries.map (·.reference) = references := by
  cases hbatch with
  | completed hreferences hresolved hcourse => exact ⟨rfl, hcourse.references_eq.trans hreferences.symm⟩

/-- A batch that fails has handed on the entries of the references before some reference. -/
theorem BatchEvents.references_of_error
    (hbatch : BatchEvents suite copy layout memory elapsed references entries (.error e) events) :
    ∃ k < references.length, entries.map (·.reference) = references.take k := by
  cases hbatch with
  | @unresolved resolved reference rest hreferences =>
    refine ⟨0, ?_, rfl⟩
    rw [hreferences, List.length_append, List.length_cons]
    omega
  | @halted done reference id rest course _ _ _ _ hreferences hresolved hcourse hhalted =>
    refine ⟨done.length, ?_, ?_⟩
    · rw [hreferences]
      simp
    · rw [hcourse.references_eq, hreferences, List.map_append]
      simp

end Grammar

end CommitVerdict
