import CommitVerdict.Proofs.Batch.Independence
import CommitVerdict.Proofs.Batch.Runs

namespace CommitVerdict

namespace Progress

variable {σ : Type} {p p' q q' : Progress σ} {suite : Suite σ} {layout : ProjectLayout} {id : CommitId}
  {reference : String} {references : List String} {entry : CommitReport} {entries : List CommitReport}
  {e : VerificationError}

/-- Nothing but the events differs. -/
structure Alike (p q : Progress σ) : Prop where
  copy : p.copy = q.copy
  memory : p.memory = q.memory
  seen : p.seen = q.seen

theorem Alike.log (halike : Alike p q) (event : Event) : Alike (p.log event) (q.log event) :=
  ⟨halike.copy, halike.memory, halike.seen⟩

theorem alike_logAll (p : Progress σ) (events events' : List Event) :
    Alike (p.logAll events) (p.logAll events') := ⟨rfl, rfl, rfl⟩

theorem Alike.runPhase (halike : Alike p q) (suite : Suite σ) (id : CommitId) (phase : Phase) :
    Alike (p.runPhase suite id phase).1 (q.runPhase suite id phase).1 where
  copy := by simp only [runPhase_copy, halike.copy, halike.memory]
  memory := by simp only [runPhase_memory, halike.copy, halike.memory]
  seen := by simp only [runPhase_seen, halike.copy, halike.seen]

theorem Alike.change {operation : WorkingCopy → WorkingCopy × Except GitError Unit} (halike : Alike p q)
    (hchange : p.change operation = (p', .ok ())) :
    ∃ q', q.change operation = (q', .ok ()) ∧ Alike p' q' := by
  obtain ⟨w, hoperation, rfl⟩ := change_eq_ok_iff.mp hchange
  rw [halike.copy] at hoperation
  exact ⟨_, change_eq_ok_iff.mpr ⟨w, hoperation, rfl⟩, rfl, halike.memory, halike.seen⟩

theorem Alike.ask {α : Type} (halike : Alike p q) (question : WorkingCopy → Except GitError α) :
    p.ask question = q.ask question := by
  rw [Progress.ask, halike.copy, Progress.ask]

theorem Alike.evaluate {results : PhaseResults} (halike : Alike p q)
    (hrun : p.evaluate suite layout id = (p', .ok results)) :
    ∃ q', q.evaluate suite layout id = (q', .ok results) ∧ Alike p' q' := by
  obtain ⟨a, b, parent, hreset, hparent, hrestore, rfl, rfl⟩ := evaluate_eq_ok_iff.mp hrun
  obtain ⟨a', hreset', ha⟩ := halike.change hreset
  have hfirst := ha.runPhase suite id .postChange
  obtain ⟨b', hrestore', hb⟩ := hfirst.change hrestore
  refine ⟨_, evaluate_eq_ok_iff.mpr ⟨a', b', parent, hreset', hfirst.ask _ ▸ hparent, hrestore', rfl, ?_⟩,
    hb.runPhase suite id .preChange⟩
  simp only [runPhase_run, ha.copy, ha.memory, hb.copy, hb.memory]

theorem Alike.examine (halike : Alike p q)
    (hexamine : p.examine suite layout reference id = (p', .ok entry)) :
    ∃ q', q.examine suite layout reference id = (q', .ok entry) ∧ Alike p' q' := by
  obtain ⟨c, hfind, hentry⟩ := examine_eq_ok_iff.mp hexamine
  rw [halike.copy] at hfind hentry
  have hclassified : Alike (p.classified id (q.copy.history.changeSet layout c))
      (q.classified id (q.copy.history.changeSet layout c)) := halike.log _
  rcases hentry with ⟨verdict, htriage, rfl, rfl⟩ | ⟨htriage, results, hrun, rfl⟩
  · exact ⟨_, examine_eq_ok_iff.mpr ⟨c, hfind, .inl ⟨verdict, htriage, rfl, rfl⟩⟩, hclassified⟩
  · obtain ⟨q', hrun', halike'⟩ := hclassified.evaluate hrun
    exact ⟨q', examine_eq_ok_iff.mpr ⟨c, hfind, .inr ⟨htriage, results, hrun', rfl⟩⟩, halike'⟩

/-- Events have no influence on the entries of a batch. -/
theorem Alike.examineAll {pairs : List (String × CommitId)} (halike : Alike p q)
    (hrun : p.examineAll suite layout pairs = (p', entries, .ok ())) :
    ∃ q', q.examineAll suite layout pairs = (q', entries, .ok ()) ∧ Alike p' q' := by
  induction pairs generalizing p q entries with
  | nil =>
    obtain ⟨rfl, rfl⟩ := by simpa [Progress.examineAll] using hrun
    exact ⟨q, rfl, halike⟩
  | cons pair pairs ih =>
    obtain ⟨a, entry, tail, hexamine, htail, rfl⟩ := examineAll_cons_eq_ok_iff.mp hrun
    obtain ⟨a', hexamine', ha⟩ := halike.examine hexamine
    obtain ⟨q', htail', halike'⟩ := ih (ha.log (verdictEvent entry)) htail
    exact ⟨q', examineAll_cons_eq_ok_iff.mpr ⟨a', entry, tail, hexamine', htail', rfl⟩, halike'⟩

/-- The entries of a batch are about its references, in order. -/
theorem map_reference_of_examineAll {pairs : List (String × CommitId)}
    (hrun : p.examineAll suite layout pairs = (p', entries, .ok ())) :
    entries.map (·.reference) = pairs.map (·.1) := by
  have hentries := (forall₂_of_examineAll (I := fun _ => True)
    (R := fun pair entry => pair.1 = entry.reference) (fun _ _ _ => trivial)
    (fun q q' reference id entry _ hexamine => ⟨trivial, ?_⟩) trivial hrun).2
  · rw [← List.forall₂_eq_eq_eq, List.forall₂_map_left_iff, List.forall₂_map_right_iff]
    exact hentries.flip.imp fun _ _ heq => heq.symm
  · obtain ⟨c, -, ⟨verdict, -, -, rfl⟩ | ⟨-, results, -, rfl⟩⟩ := examine_eq_ok_iff.mp hexamine <;> rfl

/-- A reference without a commit ends a batch before anything is run, changed or handed on. -/
theorem verify_unresolved {elapsed : Duration} (hnone : ∃ r ∈ references, ∀ id, p.copy.resolve r ≠ .ok id) :
    ∃ (resolved : List (String × CommitId)) (reference : String) (rest : List String),
      references = resolved.map (·.1) ++ reference :: rest ∧
        (∀ pair ∈ resolved, p.copy.resolve pair.1 = .ok pair.2) ∧
        (∀ id, p.copy.resolve reference ≠ .ok id) ∧
        p.verify suite layout elapsed references =
          ⟨p.logAll (resolved.map resolvedEvent), [], .error (.unresolvableReference reference)⟩ := by
  rcases hresolve : p.resolveAll references with ⟨q, e | resolved⟩
  · obtain ⟨resolved, reference, rest, hreferences, hresolved, hunknown, rfl, rfl⟩ :=
      resolveAll_error hresolve
    exact ⟨resolved, reference, rest, hreferences, hresolved, hunknown,
      verify_of_unresolved hresolve elapsed⟩
  · obtain ⟨rfl, hresolved, -⟩ := resolveAll_eq_ok_iff.mp hresolve
    obtain ⟨r, hr, hunknown⟩ := hnone
    obtain ⟨pair, hpair, rfl⟩ := List.mem_map.mp hr
    exact absurd (hresolved pair hpair) (hunknown pair.2)

/-- The first references of a batch, up to a commit that is judged, are a batch of their own with the same
entries and the same runs. -/
theorem verify_of_prefix {done rest : List (String × CommitId)}
    (hresolve : p.resolveAll references = (q, .ok (done ++ rest)))
    (hdone : q.examineAll suite layout done = (q', entries, .ok ())) :
    entries.map (·.reference) = references.take done.length ∧ ∀ elapsed : Duration,
      ∃ r, p.verify suite layout elapsed (references.take done.length) = ⟨r, entries, .ok ⟨entries⟩⟩ ∧
        Alike q' r := by
  obtain ⟨rfl, hresolved, rfl⟩ := resolveAll_eq_ok_iff.mp hresolve
  have htake : ((done ++ rest).map (·.1)).take done.length = done.map (·.1) := by simp
  have hbefore : p.resolveAll (done.map (·.1)) = (p.logAll (done.map resolvedEvent), .ok done) :=
    resolveAll_eq_ok_iff.mpr ⟨rfl, fun pair hpair => hresolved pair (by simp [hpair]), rfl⟩
  -- fewer references are resolved before the shorter batch, which only its events show
  obtain ⟨r, hdone', halike⟩ := (alike_logAll p _ (done.map resolvedEvent)).examineAll hdone
  rw [htake]
  exact ⟨map_reference_of_examineAll hdone, fun elapsed =>
    ⟨_, verify_of_ok hbefore hdone' elapsed, halike.copy, halike.memory, halike.seen⟩⟩

/-- A batch that fails has failed at its first reference without a commit, with nothing run, changed or
handed on, or else at some commit; then it has handed on what the batch of the references before that one
reports, and has run the suite twice for each entry of it with runs, and at most once more. -/
theorem verify_interrupted {elapsed : Duration}
    (herror : (p.verify suite layout elapsed references).outcome = .error e) :
    let result := p.verify suite layout elapsed references
    ((∃ r ∈ references, ∀ id, p.copy.resolve r ≠ .ok id) →
      ∃ (resolved : List (String × CommitId)) (reference : String) (rest : List String),
        references = resolved.map (·.1) ++ reference :: rest ∧
          (∀ pair ∈ resolved, p.copy.resolve pair.1 = .ok pair.2) ∧
          (∀ id, p.copy.resolve reference ≠ .ok id) ∧ e = .unresolvableReference reference ∧
          result.progress = { p with events := p.events ++ resolved.map resolvedEvent } ∧
          result.delivered = []) ∧
    ((∀ r ∈ references, ∃ id, p.copy.resolve r = .ok id) →
      ∃ k < references.length, result.delivered.map (·.reference) = references.take k ∧
        ∀ elapsed', let before := p.verify suite layout elapsed' (references.take k)
          before.outcome = .ok ⟨result.delivered⟩ ∧ before.delivered = result.delivered ∧
            before.progress.seen.length =
              p.seen.length + 2 * result.delivered.countP (·.phases.isSome) ∧
            ∃ extra, result.progress.seen = before.progress.seen ++ extra ∧ extra.length ≤ 1) := by
  refine ⟨fun hnone => ?_, fun hresolved => ?_⟩
  · obtain ⟨resolved, reference, rest, hreferences, hresolved, hunknown, hresult⟩ :=
      verify_unresolved hnone
    rw [hresult] at herror ⊢
    exact ⟨resolved, reference, rest, hreferences, hresolved, hunknown, (Except.error.inj herror).symm,
      rfl, rfl⟩
  · obtain ⟨q, resolved, hresolve, -⟩ := resolveAll_ok hresolved
    rcases hall : q.examineAll suite layout resolved with ⟨p', entries, e' | ⟨⟩⟩
    · obtain ⟨done, reference, id, rest, q', rfl, hdone, hstop⟩ := examineAll_eq_error_iff.mp hall
      have hlength : references.length = (done ++ (reference, id) :: rest).length := by
        rw [(resolveAll_eq_ok_iff.mp hresolve).1, List.length_map]
      have hq : q.seen = p.seen := by
        rw [(resolveAll_eq_ok_iff.mp hresolve).2.2, logAll]
      rw [verify_of_stopped hresolve hall]
      obtain ⟨hnames, hprefix⟩ := verify_of_prefix hresolve hdone
      refine ⟨done.length, by simp [hlength], hnames, fun elapsed' => ?_⟩
      obtain ⟨r, hbefore, halike⟩ := hprefix elapsed'
      have hruns := length_seen_of_examineAll hdone
      obtain ⟨extra, hseen, hextra⟩ := seen_of_examine_error hstop
      rw [halike.seen, hq] at hruns
      rw [halike.seen] at hseen
      rw [hbefore]
      exact ⟨rfl, rfl, hruns, extra, hseen, hextra⟩
    · rw [verify_of_ok hresolve hall] at herror
      cases herror

end Progress

namespace Sample

/-- Passes, and leaves the lock of the index behind when it is run for the third time. -/
def lockingSuite : Suite Nat where
  name := "suite"
  program := "suite"
  available := true
  invoke number files :=
    { run := .finished "" "" 0 .zero
      output := []
      files := if number = 2 then files.put WorkingCopy.lockPath (.entry (.file [])) else files
      memory := number + 1 }

theorem triage_eq_none {c : Commit}
    (hcode : c.tree.get? ["src", "calc"] ≠ (history.parentTree c).get? ["src", "calc"])
    (htests : c.tree.get? ["tests", "calc"] ≠ (history.parentTree c).get? ["tests", "calc"]) :
    (history.changeSet .default c).triage = none :=
  ChangeSet.triage_eq_none_iff.mpr
    ⟨History.touchesTests_iff.mpr ⟨_, History.mem_changes_iff.mpr htests, by decide⟩,
      History.touchesProductionCode_iff.mpr ⟨_, History.mem_changes_iff.mpr hcode, by decide⟩⟩

/-- Wherever the third run stands, it takes the lock. -/
theorem isLocked_lockingSuite {p : Progress Nat} (hmemory : p.memory = 2) (id : CommitId) :
    (p.afterFirstRun lockingSuite id).copy.isLocked = true := by
  have hfiles : (p.afterFirstRun lockingSuite id).copy.files =
      (p.copy.resetHard id).1.files.put WorkingCopy.lockPath (.entry (.file [])) := if_pos hmemory
  rw [WorkingCopy.isLocked, hfiles]
  exact List.any_eq_true.mpr ⟨_, Tree.get?_eq_some_iff.mp (Tree.get?_put_eq_some_iff.mpr (.inl ⟨rfl, rfl⟩)),
    by simp⟩

set_option maxRecDepth 4000 in
/-- The first one of the two commits is judged, and the second one is not. -/
theorem verify_lockingSuite :
    ((Progress.start (.clone repository) 0).verify lockingSuite .default .zero ["main~", "main"]).outcome =
      .error Progress.lockError := by
  have hroot : (history.changeSet .default root).triage = none := triage_eq_none (by decide) (by decide)
  have hfeature : (history.changeSet .default feature).triage = none :=
    triage_eq_none (by decide) (by decide)
  obtain ⟨q, hresolve, hq⟩ : ∃ q, (Progress.start (.clone repository) 0).resolveAll ["main~", "main"] =
      (q, .ok [("main~", root.id), ("main", feature.id)]) ∧
        q = (Progress.start (.clone repository) 0).logAll _ :=
    ⟨_, Progress.resolveAll_eq_ok_iff.mpr ⟨rfl, by
      simp only [List.forall_mem_cons]
      exact ⟨rfl, rfl, by simp⟩, rfl⟩, rfl⟩
  obtain ⟨r, entry, hjudged, hmemory, hhistory⟩ : ∃ r entry,
      q.examine lockingSuite .default "main~" root.id = (r, .ok entry) ∧ r.memory = 2 ∧
        r.copy.history = history := by
    subst hq
    exact ⟨_, _, Progress.examine_eq_ok_iff.mpr ⟨root, rfl, .inr ⟨hroot, _, rfl, rfl⟩⟩, rfl, rfl⟩
  have hstop : ((r.log (Progress.verdictEvent entry)).examine lockingSuite .default "main" feature.id).2 =
      .error Progress.lockError :=
    (Progress.examine_snd_eq_error_iff (c := feature) (hhistory ▸ rfl)).mpr
      ⟨rfl, hhistory ▸ hfeature, .inr (isLocked_lockingSuite hmemory feature.id)⟩
  have hall := Progress.examineAll_eq_error_iff.mpr ⟨[("main~", root.id)], "main", feature.id, [], _, rfl,
    Progress.examineAll_cons_eq_ok_iff.mpr ⟨r, entry, [], hjudged, rfl, rfl⟩, Prod.ext rfl hstop⟩
  rw [Progress.verify_of_stopped hresolve hall]

end Sample

/-- The lock is taken in the run of the second commit, whose predecessor has been handed on by then. -/
theorem Progress.verify_interrupted_sample :
    let run := (start (.clone Sample.repository) 0).verify Sample.lockingSuite .default .zero
    (run ["main~", "main"]).outcome = .error lockError ∧
      ∃ k < 2, (run ["main~", "main"]).delivered.map (·.reference) = ["main~", "main"].take k ∧
        (run (["main~", "main"].take k)).outcome = .ok ⟨(run ["main~", "main"]).delivered⟩ := by
  intro run
  have hresolve : ∀ r ∈ ["main~", "main"], ∃ id, (WorkingCopy.clone Sample.repository).resolve r = .ok id := by
    simp only [List.forall_mem_cons]
    exact ⟨⟨Sample.root.id, rfl⟩, ⟨Sample.feature.id, rfl⟩, by simp⟩
  obtain ⟨k, hk, hnames, hbefore⟩ := (verify_interrupted Sample.verify_lockingSuite).2 hresolve
  exact ⟨Sample.verify_lockingSuite, k, hk, hnames, (hbefore .zero).1⟩

end CommitVerdict
