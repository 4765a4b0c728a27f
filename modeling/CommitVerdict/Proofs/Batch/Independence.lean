import CommitVerdict.Batch
import CommitVerdict.Proofs.Differential.Reconstruction
import CommitVerdict.Proofs.Repository.Changes
import CommitVerdict.Proofs.Repository.Revision
import CommitVerdict.Proofs.WorkingCopy.Lock

namespace CommitVerdict

/-- What a run gives and what it does to the working files depends on the working files alone, and
the clone's own data stays as it is. -/
structure Suite.ByWorkingFiles {σ : Type} (suite : Suite σ) : Prop where
  run_eq : ∀ m m' d d', d.working = d'.working → (suite.invoke m d).run = (suite.invoke m' d').run
  working_eq : ∀ m m' d d', d.working = d'.working →
    (suite.invoke m d).files.working = (suite.invoke m' d').files.working
  data_eq : ∀ m d, (suite.invoke m d).files.data = d.data

namespace Directory

theorem working_ofSnapshot {s : Snapshot} (htrackable : s.Trackable) :
    (ofSnapshot s).working = ofSnapshot s := by
  refine Tree.ext_get? fun p => ?_
  rw [get?_working]
  split
  · rename_i hdata
    cases hget : (ofSnapshot s).get? p with
    | none => rfl
    | some leaf =>
      have hblocks := Tree.blocks_mapLeaves.mp (Tree.blocks_of_get? hget)
      exact absurd hblocks (htrackable.not_blocks_data (List.isPrefixOf_iff_prefix.mp hdata))
  · rfl

end Directory

namespace WorkingCopy

/-- The working files after a restoration come from the working files before it. -/
theorem working_filesAfter (w : WorkingCopy) {target : Snapshot} (htrackable : target.Trackable)
    (selects : Path → Bool) :
    (w.filesAfter target selects).working =
      putEntries (w.files.working.restrict fun p => !(selects p && (w.index.get? p).isSome))
        (target.restrict selects).leaves := by
  rw [filesAfter, Directory.working_putEntries _ (htrackable.restrict selects),
    Directory.working_restrict]

end WorkingCopy

namespace Suite

variable {σ : Type}

/-- The results of the two runs on a commit where there is nothing but its files. -/
def resultsOn (suite : Suite σ) (memory : σ) (h : History) (layout : ProjectLayout) (c : Commit) :
    PhaseResults :=
  let selects := (Pathspec.ofTexts [layout.codeDir]).selects
  let first := suite.invoke memory (.ofSnapshot c.tree)
  let kept := first.files.restrict fun p => !(selects p && (c.tree.get? p).isSome)
  let second := suite.invoke memory
    (WorkingCopy.putEntries kept ((h.parentTree c).restrict selects).leaves)
  ⟨first.run, second.run⟩

/-- The entry of a commit in any report. -/
def entryOn (suite : Suite σ) (memory : σ) (h : History) (layout : ProjectLayout) (reference : String)
    (c : Commit) : CommitReport :=
  let files := (Tree.differences (h.parentTree c) c.tree).map Path.toText
  let changes := ChangeSet.classify files layout
  match changes.triage with
  | some verdict => .triaged reference c.id changes verdict
  | none => .evaluated reference c.id changes (suite.resultsOn memory h layout c)

end Suite

namespace Progress

variable {σ : Type} {p : Progress σ} {suite : Suite σ} {layout : ProjectLayout} {h : History}
  {id : CommitId} {c : Commit}

/-- What every commit of a batch finds: a clone of the same history that is not locked. -/
structure Ready (p : Progress σ) (h : History) : Prop where
  history : p.copy.history = h
  unlocked : p.copy.isLocked = false

theorem Ready.log (hready : p.Ready h) (event : Event) : (p.log event).Ready h :=
  ⟨hready.history, hready.unlocked⟩

theorem ready_start (source : Repository) (memory : σ) :
    (start (.clone source) memory).Ready source.history :=
  ⟨rfl, WorkingCopy.isLocked_clone source⟩

/-- A run that leaves the clone's own data alone does not take the lock. -/
theorem isLocked_afterRun {w : WorkingCopy} (hsuite : suite.ByWorkingFiles)
    (hunlocked : w.isLocked = false) (m : σ) :
    (w.withFiles (suite.invoke m w.files).files).isLocked = false := by
  rw [WorkingCopy.isLocked, WorkingCopy.contains_lockPath] at hunlocked ⊢
  rwa [WorkingCopy.withFiles_files, hsuite.data_eq]

/-- A clone that is ready can be evaluated on every commit that it holds. -/
theorem Ready.evaluate_ok (hready : p.Ready h) (hsuite : suite.ByWorkingFiles) (layout : ProjectLayout)
    (hfind : h.find? id = some c) :
    ∃ p' results, p.evaluate suite layout id = (p', .ok results) := by
  obtain ⟨rfl, hunlocked⟩ := hready
  have hstanding := WorkingCopy.isLocked_standingOn hunlocked (History.trackable_tree hfind)
  have hfind' (files : Directory) :
      ((p.copy.standingOn c).withFiles files).history.find? id = some c := by
    simpa only [WorkingCopy.withFiles_history, WorkingCopy.standingOn_history] using hfind
  obtain ⟨q, hreset, hq⟩ : ∃ q, p.change (fun copy => copy.resetHard id) = (q, .ok ()) ∧
      q.copy = p.copy.standingOn c :=
    ⟨_, change_eq_ok_iff.mpr
      ⟨_, WorkingCopy.resetHard_eq_ok_iff.mpr ⟨c, hfind, hunlocked, rfl⟩, rfl⟩, rfl⟩
  have hrestored :
      (q.runPhase suite id .postChange).1.copy.restorePaths c.parents.head? [layout.codeDir] =
      (p.copyAfter layout c (suite.invoke q.memory (p.copy.standingOn c).files), .ok ()) := by
    rw [runPhase_copy, hq, WorkingCopy.restorePaths_parent (hfind' _), WorkingCopy.withFiles_history,
      WorkingCopy.standingOn_history]
    exact WorkingCopy.overwrite_eq_ok_iff.mpr ⟨isLocked_afterRun hsuite hstanding _, rfl⟩
  refine ⟨_, _, evaluate_eq_ok_iff.mpr ⟨q, _, _, hreset, ?_,
    change_eq_ok_iff.mpr ⟨_, hrestored, rfl⟩, rfl, rfl⟩⟩
  rw [ask_eq_ok_iff, runPhase_copy, hq]
  exact WorkingCopy.parent_of_find? (hfind' _)

/-- The two runs of an evaluation give what they give where there is nothing but the commit. -/
theorem Phases.results_eq {first second : Invocation σ} {before after : Directory}
    (hphases : p.Phases suite layout c first second before after) (hsuite : suite.ByWorkingFiles)
    (hfind : p.copy.history.find? id = some c) (memory : σ) :
    (⟨first.run, second.run⟩ : PhaseResults) = suite.resultsOn memory p.copy.history layout c := by
  have htree := History.trackable_tree hfind
  have hparent := History.trackable_parentTree hfind
  have hbefore : before.working = (Directory.ofSnapshot c.tree).working := by
    rw [hphases.before_eq, WorkingCopy.working_standingOn p.copy htree,
      Directory.working_ofSnapshot htree]
  have hleft : first.files.working = (suite.invoke memory (.ofSnapshot c.tree)).files.working := by
    rw [hphases.first_eq]
    exact hsuite.working_eq _ _ _ _ hbefore
  have hafter : after.working = (WorkingCopy.putEntries
      ((suite.invoke memory (.ofSnapshot c.tree)).files.restrict fun p =>
        !((Pathspec.ofTexts [layout.codeDir]).selects p && (c.tree.get? p).isSome))
      ((p.copy.history.parentTree c).restrict
        (Pathspec.ofTexts [layout.codeDir]).selects).leaves).working := by
    rw [hphases.after_eq, WorkingCopy.working_filesAfter _ hparent, WorkingCopy.withFiles_files,
      WorkingCopy.withFiles_index, WorkingCopy.standingOn_index, hleft,
      Directory.working_putEntries _ (hparent.restrict _), Directory.working_restrict]
  have hfirst : first.run = (suite.invoke memory (.ofSnapshot c.tree)).run := by
    rw [hphases.first_eq]
    exact hsuite.run_eq _ _ _ _ hbefore
  rw [Suite.resultsOn, hfirst, hphases.second_eq, hsuite.run_eq _ memory _ _ hafter]

/-- An evaluation gives the results that the commit has on its own, and leaves the clone ready. -/
theorem Ready.evaluate (hready : p.Ready h) (hsuite : suite.ByWorkingFiles) (layout : ProjectLayout)
    (memory : σ) (hfind : h.find? id = some c) :
    ∃ p', p.evaluate suite layout id = (p', .ok (suite.resultsOn memory h layout c)) ∧ p'.Ready h := by
  obtain ⟨p', results, hrun⟩ := hready.evaluate_ok hsuite layout hfind
  obtain ⟨d, first, second, before, after, hd, hphases, hresults, hcopy, -, -⟩ := phases_of_evaluate hrun
  obtain ⟨rfl, hunlocked⟩ := hready
  obtain rfl : d = c := Option.some.inj (hd.symm.trans hfind)
  refine ⟨p', by rw [hrun, hresults, hphases.results_eq hsuite hfind memory], ?_, ?_⟩
  · rw [hcopy]
    exact WorkingCopy.standingOn_history p.copy d
  · have hstanding := WorkingCopy.isLocked_standingOn hunlocked (History.trackable_tree hfind)
    have hleft := isLocked_afterRun hsuite hstanding p.memory
    have hafter := WorkingCopy.contains_lockPath_filesAfter hleft
      (History.trackable_parentTree hfind) (Pathspec.ofTexts [layout.codeDir]).selects
    rw [hcopy, WorkingCopy.isLocked, WorkingCopy.contains_lockPath, WorkingCopy.withFiles_files,
      hphases.second_eq, hsuite.data_eq, ← WorkingCopy.contains_lockPath, hphases.after_eq,
      hphases.first_eq, hphases.before_eq]
    exact hafter

/-- A commit gets the entry that it has on its own. -/
theorem Ready.examine (hready : p.Ready h) (hsuite : suite.ByWorkingFiles) (layout : ProjectLayout)
    (memory : σ) (hfind : h.find? id = some c) (reference : String) :
    ∃ p', p.examine suite layout reference id =
      (p', .ok (suite.entryOn memory h layout reference c)) ∧ p'.Ready h := by
  have hid : c.id = id := (History.find?_eq_some hfind).2
  have hask : p.ask (fun copy => copy.changedFiles id) =
      .ok ((Tree.differences (h.parentTree c) c.tree).map Path.toText) := by
    rw [ask_eq_ok_iff, WorkingCopy.changedFiles_of_find? (hready.history ▸ hfind), hready.history]
    rfl
  simp only [Progress.examine, hask, Suite.entryOn, hid]
  generalize ChangeSet.classify _ layout = changes
  have hlogged := hready.log (.commitClassified id.abbreviated changes.filesChanged
    changes.touchesTests changes.touchesProductionCode)
  cases changes.triage with
  | some verdict => exact ⟨_, rfl, hlogged⟩
  | none =>
    obtain ⟨p', hrun, hready'⟩ := hlogged.evaluate hsuite layout memory hfind
    exact ⟨p', by rw [hrun], hready'⟩

/-- Each commit of a batch gets the entry that it has on its own. -/
theorem Ready.examineAll (hready : p.Ready h) (hsuite : suite.ByWorkingFiles) (memory : σ)
    (entryOf : String → CommitReport) {resolved : List (String × CommitId)}
    (hentry : ∀ pair ∈ resolved, ∃ c, h.find? pair.2 = some c ∧
      entryOf pair.1 = suite.entryOn memory h layout pair.1 c) :
    ∃ p', p.examineAll suite layout resolved =
      (p', resolved.map (fun pair => entryOf pair.1), .ok ()) := by
  induction resolved generalizing p with
  | nil => exact ⟨p, rfl⟩
  | cons pair rest ih =>
    obtain ⟨⟨c, hfind, hpair⟩, hrest⟩ := List.forall_mem_cons.mp hentry
    obtain ⟨q, hexamine, hq⟩ := hready.examine hsuite layout memory hfind pair.1
    rw [← hpair] at hexamine
    obtain ⟨p', hbatch⟩ := ih (hq.log (verdictEvent (entryOf pair.1))) hrest
    exact ⟨p', by simp only [Progress.examineAll, hexamine, hbatch, List.map_cons]⟩

/-- References that have commits are resolved to them, and the clone stays as it is. -/
theorem resolveAll_ok {references : List String}
    (hresolve : ∀ r ∈ references, ∃ id, p.copy.resolve r = .ok id) :
    ∃ p' resolved, p.resolveAll references = (p', .ok resolved) ∧ p'.copy = p.copy ∧
      resolved.map (·.1) = references ∧ ∀ pair ∈ resolved, p.copy.resolve pair.1 = .ok pair.2 := by
  induction references generalizing p with
  | nil => exact ⟨p, [], rfl, rfl, rfl, by simp⟩
  | cons r rest ih =>
    obtain ⟨⟨id, hid⟩, hrest⟩ := List.forall_mem_cons.mp hresolve
    have hask : p.ask (fun copy => copy.resolve r) = .ok id := ask_eq_ok_iff.mpr hid
    obtain ⟨p', resolved, hbatch, hcopy, hnames, hpairs⟩ :=
      ih (p := p.log (.referenceResolved r id.abbreviated)) hrest
    refine ⟨p', (r, id) :: resolved, by simp only [resolveAll, hask, hbatch], hcopy, ?_, ?_⟩
    · rw [List.map_cons, hnames]
    · exact List.forall_mem_cons.mpr ⟨hid, hpairs⟩

theorem Ready.verify (hready : p.Ready h) (hsuite : suite.ByWorkingFiles) (memory : σ)
    (elapsed : Duration) {references : List String} {entryOf : String → CommitReport}
    (hentry : ∀ r ∈ references, ∃ id c, p.copy.resolve r = .ok id ∧ h.find? id = some c ∧
      entryOf r = suite.entryOn memory h layout r c) :
    (p.verify suite layout elapsed references).outcome = .ok ⟨references.map entryOf⟩ := by
  have hresolve : ∀ r ∈ references, ∃ id, p.copy.resolve r = .ok id := by
    intro r hr
    obtain ⟨id, c, hid, -⟩ := hentry r hr
    exact ⟨id, hid⟩
  obtain ⟨q, resolved, hbatch, hcopy, rfl, hpairs⟩ := resolveAll_ok hresolve
  have hq : q.Ready h := ⟨hcopy ▸ hready.history, hcopy ▸ hready.unlocked⟩
  obtain ⟨p', hall⟩ := hq.examineAll hsuite memory entryOf (by
    intro pair hpair
    obtain ⟨id, c, hid, hfind, heq⟩ := hentry pair.1 (List.mem_map_of_mem hpair)
    rw [hpairs pair hpair, Except.ok.injEq] at hid
    exact ⟨c, hid ▸ hfind, heq⟩)
  simp only [Progress.verify, hbatch, hall, List.map_map]
  rfl

/-- For every reference there is the entry of the commit that a fresh clone resolves it to. -/
theorem exists_entryOf (suite : Suite σ) (memory : σ) (source : Repository) (layout : ProjectLayout) :
    ∃ entryOf : String → CommitReport, ∀ r id c, (WorkingCopy.clone source).resolve r = .ok id →
      source.history.find? id = some c →
        entryOf r = suite.entryOn memory source.history layout r c := by
  have hentry : ∀ r, ∃ entry, ∀ id c, (WorkingCopy.clone source).resolve r = .ok id →
      source.history.find? id = some c → entry = suite.entryOn memory source.history layout r c := by
    intro r
    cases hr : (WorkingCopy.clone source).resolve r with
    | error e => exact ⟨.triaged "" (.ofNat 0) (.classify [] layout) .noUnitTestChange, by simp⟩
    | ok id =>
      obtain ⟨c, hc⟩ := ((WorkingCopy.namesHeld_clone source).resolve hr).find?
      refine ⟨suite.entryOn memory source.history layout r c, fun id' d hid hd => ?_⟩
      obtain rfl := Except.ok.inj hid
      rw [Option.some.inj (hc.symm.trans hd)]
  choose entryOf hentryOf using hentry
  exact ⟨entryOf, hentryOf⟩

/-- With a suite that goes by the working files, a reference has the same entry in the report of every
batch that a fresh clone is used for: alone, among any others, at any place and any number of times.
The initial memory of the suite and the time that a batch takes make no difference either. -/
theorem verify_independent (hsuite : suite.ByWorkingFiles) (source : Repository)
    (layout : ProjectLayout) :
    ∃ entryOf : String → CommitReport, ∀ (memory : σ) (elapsed : Duration) (references : List String),
      (∀ r ∈ references, ∃ id, (WorkingCopy.clone source).resolve r = .ok id) →
        ((start (.clone source) memory).verify suite layout elapsed references).outcome =
          .ok ⟨references.map entryOf⟩ := by
  by_cases hmemory : Nonempty σ
  · obtain ⟨base⟩ := hmemory
    obtain ⟨entryOf, hentryOf⟩ := exists_entryOf suite base source layout
    refine ⟨entryOf, fun memory elapsed references hresolve => ?_⟩
    have hready : (start (.clone source) memory).Ready source.history :=
      ⟨rfl, WorkingCopy.isLocked_clone source⟩
    refine hready.verify hsuite base elapsed fun r hr => ?_
    obtain ⟨id, hid⟩ := hresolve r hr
    obtain ⟨c, hc⟩ := ((WorkingCopy.namesHeld_clone source).resolve hid).find?
    exact ⟨id, c, hid, hc, hentryOf r id c hid hc⟩
  · -- without a memory to start from there is no batch at all
    exact ⟨fun r => .triaged r (.ofNat 0) (.classify [] layout) .noUnitTestChange,
      fun memory => absurd ⟨memory⟩ hmemory⟩

end Progress

theorem Sample.suite_byWorkingFiles : Sample.suite.ByWorkingFiles := by
  have htrackable : Sample.generated.Trackable := by
    unfold Snapshot.Trackable
    decide
  have hget (d : Directory) (name : String)
      (hname : [WorkingCopy.dataName].isPrefixOf [name, "calc"] = false) :
      d.get? [name, "calc"] = d.working.get? [name, "calc"] := by
    rw [Directory.get?_working, hname]
    rfl
  refine ⟨fun m m' d d' hworking => ?_, fun m m' d d' hworking => ?_, fun m d => ?_⟩
  · have hsrc : d.get? ["src", "calc"] = d'.get? ["src", "calc"] := by
      rw [hget d "src" (by decide), hget d' "src" (by decide), hworking]
    have htests : d.get? ["tests", "calc"] = d'.get? ["tests", "calc"] := by
      rw [hget d "tests" (by decide), hget d' "tests" (by decide), hworking]
    simp only [Sample.suite, hsrc, htests]
  · simp only [Sample.suite, Directory.working_putEntries _ htrackable, hworking]
  · exact Directory.data_putEntries d htrackable

theorem Progress.verify_independent_sample :
    ∃ entryOf : String → CommitReport, ∀ memory elapsed,
      ((start (.clone Sample.repository) memory).verify Sample.suite .default elapsed
          ["main", "main~", "HEAD"]).outcome = .ok ⟨["main", "main~", "HEAD"].map entryOf⟩ ∧
        ((start (.clone Sample.repository) memory).verify Sample.suite .default elapsed
          ["main~"]).outcome = .ok ⟨[entryOf "main~"]⟩ := by
  obtain ⟨entryOf, hentry⟩ := verify_independent Sample.suite_byWorkingFiles Sample.repository .default
  have hresolve : ∀ r ∈ ["main", "main~", "HEAD"],
      ∃ id, (WorkingCopy.clone Sample.repository).resolve r = .ok id := by
    simp only [List.forall_mem_cons]
    exact ⟨⟨Sample.feature.id, rfl⟩, ⟨Sample.root.id, rfl⟩, ⟨Sample.feature.id, rfl⟩, by simp⟩
  refine ⟨entryOf, fun memory elapsed => ⟨hentry memory elapsed _ hresolve, ?_⟩⟩
  exact hentry memory elapsed ["main~"] fun r hr => hresolve r (by simp_all)

end CommitVerdict
