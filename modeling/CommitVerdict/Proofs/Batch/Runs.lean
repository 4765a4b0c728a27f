import CommitVerdict.Proofs.Batch.Course

namespace CommitVerdict

section Suite

variable {σ : Type} {suite : Suite σ} {memory : σ}

/-- The runs of a suite on one working directory after another, and what it remembers at the end. -/
def Suite.runAll (suite : Suite σ) (memory : σ) : List Directory → List TestRun × σ
  | [] => ([], memory)
  | directory :: rest =>
    let first := suite.invoke memory directory
    let others := suite.runAll first.memory rest
    (first.run :: others.1, others.2)

theorem Suite.runAll_append (suite : Suite σ) (memory : σ) (earlier later : List Directory) :
    suite.runAll memory (earlier ++ later) =
      let before := suite.runAll memory earlier
      let after := suite.runAll before.2 later
      (before.1 ++ after.1, after.2) := by
  induction earlier generalizing memory with
  | nil => rfl
  | cons directory rest ih => simp only [List.cons_append, runAll, ih]

theorem Suite.length_runAll (suite : Suite σ) (memory : σ) (directories : List Directory) :
    (suite.runAll memory directories).1.length = directories.length := by
  induction directories generalizing memory with
  | nil => rfl
  | cons directory rest ih => simp only [runAll, List.length_cons, ih]

end Suite

namespace CommitReport

/-- What an entry records of the runs of the suite, in the order in which they were made. -/
def records (entry : CommitReport) : List PhaseRecord :=
  match entry.phases with
  | some summary => [summary.postChange, summary.preChange]
  | none => []

theorem length_records (entry : CommitReport) :
    entry.records.length = if entry.phases.isSome then 2 else 0 := by
  unfold records
  cases entry.phases <;> rfl

theorem length_flatMap_records (entries : List CommitReport) :
    (entries.flatMap records).length = 2 * entries.countP (·.phases.isSome) := by
  induction entries with
  | nil => rfl
  | cons entry rest ih =>
    rw [List.flatMap_cons, List.length_append, ih, length_records, List.countP_cons]
    split <;> omega

end CommitReport

namespace Progress

variable {σ : Type} {p p' q : Progress σ} {suite : Suite σ} {layout : ProjectLayout} {id : CommitId}
  {reference : String} {entry : CommitReport} {entries : List CommitReport} {runs later : List TestRun}

/-- Between `p` and `p'` the suite has made these runs and no others. -/
def Ran (suite : Suite σ) (p p' : Progress σ) (runs : List TestRun) : Prop :=
  ∃ directories, p'.seen = p.seen ++ directories ∧
    suite.runAll p.memory directories = (runs, p'.memory)

theorem Ran.refl (suite : Suite σ) (p : Progress σ) : Ran suite p p [] :=
  ⟨[], (List.append_nil p.seen).symm, rfl⟩

theorem Ran.trans (hfirst : Ran suite p q runs) (hlater : Ran suite q p' later) :
    Ran suite p p' (runs ++ later) := by
  obtain ⟨earlier, hseen, hruns⟩ := hfirst
  obtain ⟨others, hseen', hruns'⟩ := hlater
  refine ⟨earlier ++ others, by rw [hseen', hseen, List.append_assoc], ?_⟩
  simp only [Suite.runAll_append, hruns, hruns']

theorem Ran.length_seen (hran : Ran suite p p' runs) : p'.seen.length = p.seen.length + runs.length := by
  obtain ⟨directories, hseen, hruns⟩ := hran
  have hlength := Suite.length_runAll suite p.memory directories
  rw [hruns] at hlength
  rw [hseen, List.length_append, hlength]

theorem ran_of_evaluate {results : PhaseResults}
    (hrun : p.evaluate suite layout id = (p', .ok results)) :
    Ran suite p p' [results.postChange, results.preChange] := by
  obtain ⟨c, first, second, before, after, -, hphases, rfl, -, hmemory, hseen⟩ := phases_of_evaluate hrun
  refine ⟨[before, after], hseen, ?_⟩
  simp only [Suite.runAll, ← hphases.first_eq, ← hphases.second_eq, hmemory]

/-- An entry records the runs that were made for it. -/
theorem ran_of_examine (hexamine : p.examine suite layout reference id = (p', .ok entry)) :
    ∃ runs, Ran suite p p' runs ∧ entry.records = runs.map .ofRun := by
  obtain ⟨c, -, ⟨verdict, -, rfl, rfl⟩ | ⟨-, results, hrun, rfl⟩⟩ := examine_eq_ok_iff.mp hexamine
  · exact ⟨[], Ran.refl suite p, rfl⟩
  · exact ⟨[results.postChange, results.preChange],
      ran_of_evaluate (p := p.classified id _) hrun, rfl⟩

/-- The entries of a batch record the runs that were made for it, in order. -/
theorem ran_of_examineAll {pairs : List (String × CommitId)}
    (hrun : p.examineAll suite layout pairs = (p', entries, .ok ())) :
    ∃ runs, Ran suite p p' runs ∧ entries.flatMap CommitReport.records = runs.map .ofRun := by
  induction pairs generalizing p entries with
  | nil =>
    obtain ⟨rfl, rfl⟩ := by simpa [examineAll] using hrun
    exact ⟨[], Ran.refl suite p, rfl⟩
  | cons pair pairs ih =>
    obtain ⟨q, entry, tail, hexamine, htail, rfl⟩ := examineAll_cons_eq_ok_iff.mp hrun
    obtain ⟨runs, hran, hrecords⟩ := ran_of_examine hexamine
    obtain ⟨later, hlater, hothers⟩ := ih htail
    refine ⟨runs ++ later, hran.trans (q := q) hlater, ?_⟩
    rw [List.flatMap_cons, hrecords, hothers, List.map_append]

/-- A batch runs the suite twice for each entry that has runs, and never for another one. -/
theorem length_seen_of_examineAll {pairs : List (String × CommitId)}
    (hrun : p.examineAll suite layout pairs = (p', entries, .ok ())) :
    p'.seen.length = p.seen.length + 2 * entries.countP (·.phases.isSome) := by
  obtain ⟨runs, hran, hrecords⟩ := ran_of_examineAll hrun
  rw [hran.length_seen, ← CommitReport.length_flatMap_records, hrecords, List.length_map]

end Progress

end CommitVerdict
