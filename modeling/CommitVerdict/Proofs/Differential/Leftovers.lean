import CommitVerdict.Proofs.Area.Verbatim
import CommitVerdict.Proofs.Differential.Reconstruction

namespace CommitVerdict

/-- The paths that a differential run leaves alone: it does not decide about them, and it puts no file
back above or below them. -/
def Spared (h : History) (c : Commit) (area : String) (q : Path) : Prop :=
  ¬ Reverts h c area q ∧ ∀ r, PutsBack h c area r → Path.conflicts r q = false

namespace Directory

theorem entryAt?_working (d : Directory) (p : Path) :
    d.working.entryAt? p = if [WorkingCopy.dataName].isPrefixOf p then none else d.entryAt? p := by
  rw [entryAt?, get?_working]
  split <;> rfl

theorem entryAt?_working_eq {d : Directory} {p : Path} {e : Option Entry} (hentry : d.entryAt? p = e)
    (htrackable : e ≠ none → p.isTrackable = true) : d.working.entryAt? p = e := by
  rw [entryAt?_working, hentry]
  split
  · rename_i hdata
    by_contra hne
    have hconflict := Path.IsTrackable.not_conflicts_data (htrackable (Ne.symm hne))
      (List.isPrefixOf_iff_prefix.mp hdata)
    simp at hconflict
  · rfl

end Directory

/-- In an area that is read as it is written, what a run leaves alone has no file in the parent. -/
theorem Spared.parent_eq_none {h : History} {c : Commit} {area : String}
    (hverbatim : Verbatim area) {q : Path} (hbelow : PathText.components area <+: q) (hq : Spared h c area q) :
    (h.parentTree c).get? q = none := by
  by_contra hsome
  exact hq.1 ⟨hverbatim.selects_of_isPrefix hbelow, .inr (Option.isSome_iff_ne_none.mpr hsome)⟩

/-- In such an area a run leaves alone what is neither a file of the commit nor in the way of a file of
the parent that belongs to the area. -/
theorem spared_iff {h : History} {id : CommitId} {c : Commit} {area : String} (hverbatim : Verbatim area)
    (hfind : h.find? id = some c) {q : Path} (hbelow : PathText.components area <+: q) :
    Spared h c area q ↔ c.tree.get? q = none ∧
      ∀ r, PathText.components area <+: r → (h.parentTree c).get? r ≠ none →
        Path.conflicts r q = false := by
  constructor
  · rintro ⟨hreverts, hfree⟩
    refine ⟨?_, fun r hr hsome => hfree r ⟨hverbatim.selects_of_isPrefix hr, ?_⟩⟩
    · by_contra hsome
      exact hreverts ⟨hverbatim.selects_of_isPrefix hbelow, .inl (Option.isSome_iff_ne_none.mpr hsome)⟩
    · exact Option.isSome_iff_ne_none.mpr hsome
  · rintro ⟨huntracked, hfree⟩
    have hclear : ∀ r, PutsBack h c area r → Path.conflicts r q = false := by
      intro r hr
      obtain ⟨e, he⟩ := Option.isSome_iff_exists.mp hr.2
      have htrackable := (History.trackable_parentTree hfind).get? he
      exact hfree r ((hverbatim.selects_iff htrackable).mp hr.1) (by simp [he])
    refine ⟨fun hreverts => ?_, hclear⟩
    rcases hreverts.2 with htracked | hparent
    · simp [huntracked] at htracked
    · have hself := hclear q ⟨hreverts.1, hparent⟩
      simp at hself

namespace Progress

variable {σ : Type} {p p' : Progress σ} {suite : Suite σ} {layout : ProjectLayout} {id : CommitId}
  {c : Commit} {first second : Invocation σ} {before after : Directory}

theorem Phases.entryAt?_after_of_not_spared
    (hphases : p.Phases suite layout c first second before after) {q : Path}
    (hq : ¬ Spared p.copy.history c layout.codeDir q) :
    after.entryAt? q = (p.copy.history.parentTree c).get? q := by
  by_cases hreverts : Reverts p.copy.history c layout.codeDir q
  · exact hphases.entryAt?_after_of_reverts hreverts
  · obtain ⟨r, hr, hconflict⟩ : ∃ r, PutsBack p.copy.history c layout.codeDir r ∧
        Path.conflicts r q = true := by
      by_contra hnone
      refine hq ⟨hreverts, fun r hr => ?_⟩
      by_contra hconflict
      exact hnone ⟨r, hr, by simpa using hconflict⟩
    rw [Directory.entryAt?, hphases.get?_after_of_conflict hr hconflict]
    split
    · cases (p.copy.history.parentTree c).get? q <;> rfl
    · rename_i hselects
      cases hparent : (p.copy.history.parentTree c).get? q with
      | none => rfl
      | some e =>
        -- two files of the parent that conflict are one, and it is selected
        obtain ⟨e', he'⟩ := Option.isSome_iff_exists.mp hr.2
        have hne : r ≠ q := by
          rintro rfl
          exact hselects hr.1
        have hapart := Tree.not_conflicts_of_ne _ (Tree.get?_eq_some_iff.mp he')
          (Tree.get?_eq_some_iff.mp hparent) hne
        simp [hconflict] at hapart

theorem Phases.working_after_of_not_spared
    (hphases : p.Phases suite layout c first second before after)
    (hfind : p.copy.history.find? id = some c) {q : Path}
    (hq : ¬ Spared p.copy.history c layout.codeDir q) :
    after.working.entryAt? q = (p.copy.history.parentTree c).get? q := by
  refine Directory.entryAt?_working_eq (hphases.entryAt?_after_of_not_spared hq) fun hsome => ?_
  obtain ⟨e, he⟩ := Option.ne_none_iff_exists'.mp hsome
  exact (History.trackable_parentTree hfind).get? he

theorem Phases.working_after_of_spared
    (hphases : p.Phases suite layout c first second before after) {q : Path}
    (hq : Spared p.copy.history c layout.codeDir q) :
    after.working.entryAt? q = first.files.working.entryAt? q := by
  rw [Directory.entryAt?_working, Directory.entryAt?_working, Directory.entryAt?, Directory.entryAt?,
    hphases.get?_after_of_not_reverts hq.1 hq.2]

/-- An area holds the parent's files exactly if it did at the paths that the evaluation leaves alone. -/
theorem Phases.restores_iff (hphases : p.Phases suite layout c first second before after)
    (hfind : p.copy.history.find? id = some c) (area : Path) :
    (∀ q, area <+: q → after.working.entryAt? q = (p.copy.history.parentTree c).get? q) ↔
      ∀ q, area <+: q → Spared p.copy.history c layout.codeDir q →
        first.files.working.entryAt? q = (p.copy.history.parentTree c).get? q := by
  constructor
  · intro hall q hbelow hspared
    rw [← hphases.working_after_of_spared hspared, hall q hbelow]
  · intro hall q hbelow
    by_cases hspared : Spared p.copy.history c layout.codeDir q
    · rw [hphases.working_after_of_spared hspared, hall q hbelow hspared]
    · exact hphases.working_after_of_not_spared hfind hspared

/-- In an area that is read as it is written, a path that is left alone has what the parent has exactly
if it has no file. -/
theorem spared_unchanged_iff {h : History} (hverbatim : Verbatim layout.codeDir)
    (hfind : h.find? id = some c) {q : Path} (hbelow : PathText.components layout.codeDir <+: q)
    {entry : Option Entry} :
    (Spared h c layout.codeDir q → entry = (h.parentTree c).get? q) ↔
      (entry ≠ none → c.tree.get? q ≠ none ∨
        ∃ r, PathText.components layout.codeDir <+: r ∧ (h.parentTree c).get? r ≠ none ∧
          Path.conflicts r q = true) := by
  have hspared := spared_iff hverbatim hfind hbelow
  constructor
  · intro hleft hsome
    by_contra hnone
    obtain ⟨htracked, hfree⟩ := not_or.mp hnone
    have hq : Spared h c layout.codeDir q := by
      refine hspared.mpr ⟨by simpa using htracked, fun r hr hr' => ?_⟩
      by_contra hconflict
      exact hfree ⟨r, hr, hr', by simpa using hconflict⟩
    exact hsome ((hleft hq).trans (hq.parent_eq_none hverbatim hbelow))
  · intro himplies hq
    obtain ⟨huntracked, hfree⟩ := hspared.mp hq
    rw [hq.parent_eq_none hverbatim hbelow]
    by_contra hsome
    rcases himplies hsome with htracked | ⟨r, hr, hr', hconflict⟩
    · exact htracked huntracked
    · simp [hfree r hr hr'] at hconflict

/-- When the second run starts, the files of an area are those of the first parent exactly if the first
run has left no others at the paths that the evaluation leaves alone. In the area of production code, if
that is read as it is written, these are the paths at which the commit has no file and that no file of the
parent is in the way of. -/
theorem evaluate_leftovers {results : PhaseResults}
    (hrun : p.evaluate suite layout id = (p', .ok results)) :
    ∃ c before after, p.copy.history.find? id = some c ∧ p'.seen = p.seen ++ [before, after] ∧
      let parent := p.copy.history.parentTree c
      let left := (suite.invoke p.memory before).files
      (∀ area : Path, (∀ q, area <+: q → after.working.entryAt? q = parent.get? q) ↔
        ∀ q, area <+: q → Spared p.copy.history c layout.codeDir q →
          left.working.entryAt? q = parent.get? q) ∧
      (Verbatim layout.codeDir →
        let area := PathText.components layout.codeDir
        (∀ q, area <+: q → after.working.entryAt? q = parent.get? q) ↔
          ∀ q, area <+: q → left.working.entryAt? q ≠ none →
            c.tree.get? q ≠ none ∨
              ∃ r, area <+: r ∧ parent.get? r ≠ none ∧ Path.conflicts r q = true) := by
  obtain ⟨c, first, second, before, after, hfind, hphases, -, -, -, hseen⟩ := phases_of_evaluate hrun
  refine ⟨c, before, after, hfind, hseen, ?_⟩
  rw [← hphases.first_eq]
  refine ⟨hphases.restores_iff hfind, fun hverbatim => (hphases.restores_iff hfind _).trans ?_⟩
  exact forall_congr' fun q => forall_congr' fun hbelow => spared_unchanged_iff hverbatim hfind hbelow

end Progress

theorem Sample.verbatim_src : Verbatim "src" :=
  ⟨by decide, by decide, by decide, by decide⟩

set_option maxRecDepth 4000 in
theorem Progress.evaluate_leftovers_sample :
    ∃ p' results c before after,
      (start (.clone Sample.repository) 0).evaluate Sample.suite .default Sample.feature.id =
          (p', .ok results) ∧
        p'.seen = [before, after] ∧
        ((∀ q, ["src"] <+: q → after.working.entryAt? q = (Sample.history.parentTree c).get? q) ↔
          ∀ q, ["src"] <+: q → (Sample.suite.invoke 0 before).files.working.entryAt? q ≠ none →
            c.tree.get? q ≠ none ∨ ∃ r, ["src"] <+: r ∧
              (Sample.history.parentTree c).get? r ≠ none ∧ Path.conflicts r q = true) := by
  obtain ⟨p', results, hrun⟩ : ∃ p' results, (start (.clone Sample.repository) 0).evaluate Sample.suite
      .default Sample.feature.id = (p', .ok results) := ⟨_, _, rfl⟩
  obtain ⟨c, before, after, -, hseen, -, hexact⟩ := evaluate_leftovers hrun
  exact ⟨p', results, c, before, after, hrun, hseen, hexact Sample.verbatim_src⟩

set_option maxRecDepth 4000 in
/-- A file that the first run generates is still there when the second one starts. -/
theorem Progress.evaluate_keeps_generated :
    ∃ p' results before after,
      (start (.clone Sample.repository) 0).evaluate Sample.suite .default Sample.feature.id =
          (p', .ok results) ∧
        p'.seen = [before, after] ∧
        (Sample.history.parentTree Sample.feature).get? ["src", "gen"] = none ∧
        after.working.entryAt? ["src", "gen"] = some (.file []) :=
  ⟨_, _, _, _, rfl, rfl, by decide, by decide⟩

end CommitVerdict
