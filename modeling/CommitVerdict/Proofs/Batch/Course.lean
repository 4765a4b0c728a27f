import CommitVerdict.Proofs.Batch.Resolution
import CommitVerdict.Proofs.Differential.Interruption
import CommitVerdict.Proofs.Repository.Changes

namespace CommitVerdict

namespace Progress

variable {σ : Type} {p p' q : Progress σ} {suite : Suite σ} {layout : ProjectLayout} {id : CommitId}
  {reference : String} {references : List String} {resolved : List (String × CommitId)}
  {entry : CommitReport} {entries : List CommitReport} {e : VerificationError}

/-- Where the judgement of a commit stands when its changes are known. -/
def classified (p : Progress σ) (id : CommitId) (changes : ChangeSet) : Progress σ :=
  p.log (.commitClassified id.abbreviated changes.filesChanged changes.touchesTests
    changes.touchesProductionCode)

/-- What judging a commit comes to when the clone holds it. -/
theorem examine_of_find? {c : Commit} (hfind : p.copy.history.find? id = some c) :
    p.examine suite layout reference id =
      let changes := p.copy.history.changeSet layout c
      match changes.triage with
      | some verdict => (p.classified id changes, .ok (.triaged reference id changes verdict))
      | none =>
        match (p.classified id changes).evaluate suite layout id with
        | (p, .error e) => (p, .error e)
        | (p, .ok results) => (p, .ok (.evaluated reference id changes results)) := by
  have hask : p.ask (fun copy => copy.changedFiles id) =
      .ok ((p.copy.history.changes c).map Path.toText) :=
    ask_eq_ok_iff.mpr (WorkingCopy.changedFiles_of_find? hfind)
  simp only [examine, hask]
  rfl

theorem ask_changedFiles_of_none (hfind : p.copy.history.find? id = none) :
    p.ask (fun copy => copy.changedFiles id) = .error (.git (.operationFailed (.objectNotFound id))) := by
  simp [ask, WorkingCopy.changedFiles, WorkingCopy.changedPaths, WorkingCopy.find, hfind, Except.map,
    Except.mapError, VerificationError.ofGit]

/-- A commit is judged if the clone holds it and, in case it has to be run, its evaluation succeeds. -/
theorem examine_eq_ok_iff :
    p.examine suite layout reference id = (p', .ok entry) ↔
      ∃ c, p.copy.history.find? id = some c ∧
        let changes := p.copy.history.changeSet layout c
        ((∃ verdict, changes.triage = some verdict ∧ p' = p.classified id changes ∧
            entry = .triaged reference id changes verdict) ∨
          (changes.triage = none ∧ ∃ results,
            (p.classified id changes).evaluate suite layout id = (p', .ok results) ∧
              entry = .evaluated reference id changes results)) := by
  cases hfind : p.copy.history.find? id with
  | none => simp [examine, ask_changedFiles_of_none hfind]
  | some c =>
    simp only [examine_of_find? hfind, Option.some.injEq, exists_eq_left']
    cases htriage : (p.copy.history.changeSet layout c).triage with
    | some verdict => simp [eq_comm]
    | none =>
      simp only [reduceCtorEq, false_and, exists_false, true_and, false_or]
      generalize (p.classified id _).evaluate suite layout id = run
      obtain ⟨q, outcome⟩ := run
      cases outcome <;> simp [eq_comm]

/-- It is not judged if the clone does not hold it, or if it has to be run and its evaluation fails. -/
theorem examine_eq_error_iff :
    p.examine suite layout reference id = (p', .error e) ↔
      (p.ask (fun copy => copy.changedFiles id) = .error e ∧ p' = p) ∨
        ∃ c, p.copy.history.find? id = some c ∧
          (p.copy.history.changeSet layout c).triage = none ∧
          (p.classified id (p.copy.history.changeSet layout c)).evaluate suite layout id =
            (p', .error e) := by
  cases hfind : p.copy.history.find? id with
  | none => simp [examine, ask_changedFiles_of_none hfind, eq_comm, and_comm]
  | some c =>
    have hask (e : VerificationError) : p.ask (fun copy => copy.changedFiles id) ≠ .error e := by
      rw [ask_eq_ok_iff.mpr (WorkingCopy.changedFiles_of_find? hfind)]
      simp
    simp only [examine_of_find? hfind, Option.some.injEq, exists_eq_left', hask, false_and, false_or]
    cases htriage : (p.copy.history.changeSet layout c).triage with
    | some verdict => simp
    | none =>
      simp only [true_and]
      generalize (p.classified id _).evaluate suite layout id = run
      obtain ⟨q, outcome⟩ := run
      cases outcome <;> simp

/-- A commit that the clone holds is not judged exactly if it has to be run and its evaluation meets the
lock. -/
theorem examine_snd_eq_error_iff {c : Commit} (hfind : p.copy.history.find? id = some c) :
    (p.examine suite layout reference id).2 = .error e ↔
      e = lockError ∧ (p.copy.history.changeSet layout c).triage = none ∧
        (p.copy.isLocked = true ∨ (p.afterFirstRun suite id).copy.isLocked = true) := by
  have hanswered : (p.classified id (p.copy.history.changeSet layout c)).Answered suite layout id :=
    answered_of_find? hfind
  constructor
  · intro hstop
    rcases examine_eq_error_iff.mp (Prod.ext rfl hstop) with ⟨hask, -⟩ | ⟨d, hd, htriage, hrun⟩
    · rw [ask_eq_ok_iff.mpr (WorkingCopy.changedFiles_of_find? hfind)] at hask
      cases hask
    · obtain rfl : d = c := Option.some.inj (hd.symm.trans hfind)
      obtain ⟨rfl, hlocked⟩ := hanswered.evaluate_error_iff.mp (congrArg Prod.snd hrun)
      exact ⟨rfl, htriage, hlocked⟩
  · rintro ⟨rfl, htriage, hlocked⟩
    have hrun := hanswered.evaluate_error_iff.mpr ⟨rfl, hlocked⟩
    rw [examine_eq_error_iff.mpr (.inr ⟨c, hfind, htriage, Prod.ext rfl hrun⟩)]

/-- Judging a commit keeps the history of the clone. -/
theorem examine_history (hexamine : p.examine suite layout reference id = (p', .ok entry)) :
    p'.copy.history = p.copy.history := by
  obtain ⟨c, -, ⟨verdict, -, rfl, -⟩ | ⟨-, results, hrun, -⟩⟩ := examine_eq_ok_iff.mp hexamine
  · rfl
  · have hkept := evaluate_history (p.classified id (p.copy.history.changeSet layout c)) suite layout id
    rwa [hrun] at hkept

/-- A commit that cannot be judged has been run at most once. -/
theorem seen_of_examine_error (hexamine : p.examine suite layout reference id = (p', .error e)) :
    ∃ extra, p'.seen = p.seen ++ extra ∧ extra.length ≤ 1 := by
  rcases examine_eq_error_iff.mp hexamine with ⟨-, rfl⟩ | ⟨c, -, -, hrun⟩
  · exact ⟨[], (List.append_nil p'.seen).symm, Nat.zero_le 1⟩
  · exact seen_of_evaluate_error (p := p.classified id _) hrun

theorem examineAll_cons_of_error {q : Progress σ} {rest : List (String × CommitId)}
    (hexamine : p.examine suite layout reference id = (q, .error e)) :
    p.examineAll suite layout ((reference, id) :: rest) = (q, [], .error e) := by
  simp only [examineAll, hexamine]

theorem examineAll_cons_of_ok {q : Progress σ} {rest : List (String × CommitId)}
    (hexamine : p.examine suite layout reference id = (q, .ok entry)) :
    p.examineAll suite layout ((reference, id) :: rest) =
      let tail := (q.log (verdictEvent entry)).examineAll suite layout rest
      (tail.1, entry :: tail.2.1, tail.2.2) := by
  simp only [examineAll, hexamine]

theorem examineAll_cons_eq_ok_iff {rest : List (String × CommitId)} :
    p.examineAll suite layout ((reference, id) :: rest) = (p', entries, .ok ()) ↔
      ∃ q entry tail, p.examine suite layout reference id = (q, .ok entry) ∧
        (q.log (verdictEvent entry)).examineAll suite layout rest = (p', tail, .ok ()) ∧
        entries = entry :: tail := by
  rcases hexamine : p.examine suite layout reference id with ⟨q, e | entry⟩
  · simp [examineAll_cons_of_error hexamine]
  · rw [examineAll_cons_of_ok hexamine]
    constructor
    · intro hrun
      obtain ⟨rfl, rfl, hdone⟩ : _ ∧ _ ∧ _ := by simpa using hrun
      exact ⟨q, entry, _, rfl, Prod.ext rfl (Prod.ext rfl hdone), rfl⟩
    · rintro ⟨_, _, tail, ⟨⟩, htail, rfl⟩
      simp [htail]

theorem examineAll_cons_eq_error_iff {rest : List (String × CommitId)} :
    p.examineAll suite layout ((reference, id) :: rest) = (p', entries, .error e) ↔
      (p.examine suite layout reference id = (p', .error e) ∧ entries = []) ∨
        ∃ q entry tail, p.examine suite layout reference id = (q, .ok entry) ∧
          (q.log (verdictEvent entry)).examineAll suite layout rest = (p', tail, .error e) ∧
          entries = entry :: tail := by
  rcases hexamine : p.examine suite layout reference id with ⟨q, e | entry⟩
  · rw [examineAll_cons_of_error hexamine]
    constructor
    · rintro ⟨⟩
      exact .inl ⟨rfl, rfl⟩
    · rintro (⟨⟨⟩, rfl⟩ | ⟨_, _, _, ⟨⟩, -⟩)
      rfl
  · rw [examineAll_cons_of_ok hexamine]
    constructor
    · intro hrun
      obtain ⟨rfl, rfl, hstop⟩ : _ ∧ _ ∧ _ := by simpa using hrun
      exact .inr ⟨q, entry, _, rfl, Prod.ext rfl (Prod.ext rfl hstop), rfl⟩
    · rintro (⟨⟨⟩, -⟩ | ⟨_, _, tail, ⟨⟩, htail, rfl⟩)
      simp [htail]

/-- A batch breaks off exactly if it judges all commits before some commit, and not that one. -/
theorem examineAll_eq_error_iff {pairs : List (String × CommitId)} :
    p.examineAll suite layout pairs = (p', entries, .error e) ↔
      ∃ done reference id rest q, pairs = done ++ (reference, id) :: rest ∧
        p.examineAll suite layout done = (q, entries, .ok ()) ∧
        q.examine suite layout reference id = (p', .error e) := by
  induction pairs generalizing p entries with
  | nil => simp [examineAll]
  | cons pair pairs ih =>
    obtain ⟨reference, id⟩ := pair
    rw [examineAll_cons_eq_error_iff]
    constructor
    · rintro (⟨hexamine, rfl⟩ | ⟨q, entry, tail, hexamine, htail, rfl⟩)
      · exact ⟨[], reference, id, pairs, p, rfl, rfl, hexamine⟩
      · obtain ⟨done, reference', id', rest, r, rfl, hdone, hstop⟩ := ih.mp htail
        exact ⟨(reference, id) :: done, reference', id', rest, r, rfl,
          examineAll_cons_eq_ok_iff.mpr ⟨q, entry, tail, hexamine, hdone, rfl⟩, hstop⟩
    · rintro ⟨done, reference', id', rest, r, hpairs, hdone, hstop⟩
      cases done with
      | nil =>
        obtain ⟨⟨rfl, rfl⟩, rfl⟩ := by simpa using hpairs
        obtain ⟨rfl, rfl⟩ := by simpa [examineAll] using hdone
        exact .inl ⟨hstop, rfl⟩
      | cons first done =>
        rw [List.cons_append, List.cons.injEq] at hpairs
        obtain ⟨rfl, rfl⟩ := hpairs
        obtain ⟨q, entry, tail, hexamine, htail, rfl⟩ := examineAll_cons_eq_ok_iff.mp hdone
        exact .inr ⟨q, entry, tail, hexamine,
          ih.mpr ⟨done, reference', id', rest, r, rfl, htail, hstop⟩, rfl⟩

/-- What judging a commit keeps holds all along a batch, and what it says of an entry holds of all
entries. -/
theorem forall₂_of_examineAll {I : Progress σ → Prop} {R : String × CommitId → CommitReport → Prop}
    {pairs : List (String × CommitId)} (hlog : ∀ q event, I q → I (q.log event))
    (hstep : ∀ q q' reference id entry, I q → q.examine suite layout reference id = (q', .ok entry) →
      I q' ∧ R (reference, id) entry)
    (hp : I p) (hrun : p.examineAll suite layout pairs = (p', entries, .ok ())) :
    I p' ∧ List.Forall₂ R pairs entries := by
  induction pairs generalizing p entries with
  | nil =>
    obtain ⟨rfl, rfl⟩ := by simpa [examineAll] using hrun
    exact ⟨hp, .nil⟩
  | cons pair pairs ih =>
    obtain ⟨q, entry, tail, hexamine, htail, rfl⟩ := examineAll_cons_eq_ok_iff.mp hrun
    obtain ⟨hq, hentry⟩ := hstep p q pair.1 pair.2 entry hp hexamine
    obtain ⟨hp', hrest⟩ := ih (hlog q _ hq) htail
    exact ⟨hp', .cons hentry hrest⟩

theorem examineAll_history {pairs : List (String × CommitId)}
    (hrun : p.examineAll suite layout pairs = (p', entries, .ok ())) :
    p'.copy.history = p.copy.history := by
  refine (forall₂_of_examineAll (I := fun q => q.copy.history = p.copy.history) (R := fun _ _ => True)
    (fun q event hq => hq) (fun q q' reference id entry hq hexamine => ⟨?_, trivial⟩) rfl hrun).1
  rw [examine_history hexamine, hq]

theorem verify_of_unresolved {q : Progress σ} (hresolve : p.resolveAll references = (q, .error e))
    (elapsed : Duration) : p.verify suite layout elapsed references = ⟨q, [], .error e⟩ := by
  simp only [verify, hresolve]

theorem verify_of_stopped {q : Progress σ} (hresolve : p.resolveAll references = (q, .ok resolved))
    (hall : q.examineAll suite layout resolved = (p', entries, .error e)) (elapsed : Duration) :
    p.verify suite layout elapsed references = ⟨p', entries, .error e⟩ := by
  simp only [verify, hresolve, hall]

theorem verify_of_ok {q : Progress σ} (hresolve : p.resolveAll references = (q, .ok resolved))
    (hall : q.examineAll suite layout resolved = (p', entries, .ok ())) (elapsed : Duration) :
    p.verify suite layout elapsed references =
      ⟨p'.log (.runCompleted entries.length (RunReport.failures ⟨entries⟩) elapsed.toSeconds), entries,
        .ok ⟨entries⟩⟩ := by
  simp only [verify, hresolve, hall]

end Progress

end CommitVerdict
