import CommitVerdict.Proofs.Area.Plain
import CommitVerdict.Proofs.Batch.Interchange

namespace CommitVerdict

namespace PathText

theorem eq_empty_of_names {s : String} (hrelative : isAbsolute s = false) (hdotted : ¬Dotted s)
    (hnames : names s = []) : s = "" := by
  by_contra hs
  have hcomponents := components_ne_nil hs
  rw [components_of_relative hrelative, if_neg hdotted] at hcomponents
  exact hcomponents hnames

/-- The root of a repository has one spelling without a lone dot in front. -/
theorem SameDirectory.selects_eq_iff {s t : String} (hsame : SameDirectory s t) (hs : ¬Dotted s)
    (ht : ¬Dotted t) (hhold : Path.CanHold (names s)) (hplain : (names s).Plain) :
    (∀ p : Path, p.isTrackable = true →
      (Pathspec.ofTexts [s]).selects p = (Pathspec.ofTexts [t]).selects p) ↔
        (s = Path.toText (names s) ↔ t = Path.toText (names s)) ∧
          (s = Path.toText (names s) ++ "/" ↔ t = Path.toText (names s) ++ "/") := by
  by_cases hroot : names s = []
  · have hleft : s = "" := eq_empty_of_names hsame.left_relative hs hroot
    have hright : t = "" := eq_empty_of_names hsame.right_relative ht (hsame.names_eq ▸ hroot)
    simp [hleft, hright]
  · obtain ⟨p, hp, hbegins⟩ := hhold
    exact Pathspec.selects_eq_iff_of_plain hsame hplain (Path.isTrackable_of_isPrefix hroot hp hbegins)

end PathText

namespace ProjectLayout

open PathText

/-- Whether two layouts name the same two directories below the root of a repository. -/
structure SameDirectories (l l' : ProjectLayout) : Prop where
  tests : SameDirectory l.testsDir l'.testsDir
  code : SameDirectory l.codeDir l'.codeDir

/-- Whether some commit can touch both areas. -/
structure CanTouchBoth (l : ProjectLayout) : Prop where
  tests : ¬Dotted l.testsDir ∧ Path.CanHold (names l.testsDir)
  code : ¬Dotted l.codeDir ∧ Path.CanHold (names l.codeDir)

/-- Whether two layouts that name the same directories spell them in ways that make no difference. -/
structure SpelledAlike (l l' : ProjectLayout) : Prop where
  tests : Path.CanHold (names l.testsDir) → (Dotted l.testsDir ↔ Dotted l'.testsDir)
  code : Path.CanHold (names l.codeDir) → (Dotted l.codeDir ↔ Dotted l'.codeDir)
  /-- Without characters that have a meaning in patterns, the production code is spelled plainly in both
  layouts or in none, and with one slash at its end in both or in none. -/
  plain : l.CanTouchBoth → (names l.codeDir).Plain →
    (l.codeDir = Path.toText (names l.codeDir) ↔ l'.codeDir = Path.toText (names l.codeDir)) ∧
      (l.codeDir = Path.toText (names l.codeDir) ++ "/" ↔
        l'.codeDir = Path.toText (names l.codeDir) ++ "/")
  special : l.CanTouchBoth → ¬(names l.codeDir).Plain → ∀ p : Path, p.isTrackable = true →
    (Pathspec.ofTexts [l.codeDir]).selects p = (Pathspec.ofTexts [l'.codeDir]).selects p

variable {l l' : ProjectLayout}

theorem SameDirectories.canTouchBoth_iff (hsame : l.SameDirectories l') :
    l.CanTouchBoth ↔ HasFiles l.testsDir ∧ HasFiles l.codeDir := by
  have htests : HasFiles l.testsDir ↔ ¬Dotted l.testsDir ∧ Path.CanHold (names l.testsDir) :=
    exists_isBelow_iff hsame.tests.left_relative
  have hcode : HasFiles l.codeDir ↔ ¬Dotted l.codeDir ∧ Path.CanHold (names l.codeDir) :=
    exists_isBelow_iff hsame.code.left_relative
  rw [htests, hcode]
  exact ⟨fun h => ⟨h.tests, h.code⟩, fun h => ⟨h.1, h.2⟩⟩

theorem SameDirectories.readsSame_iff (hsame : l.SameDirectories l') :
    l.ReadsSame l' ↔ l.SpelledAlike l' := by
  have hboth := hsame.canTouchBoth_iff
  constructor
  · intro hreads
    have hcode := hsame.code.isBelow_eq_iff.mp hreads.code
    have hselects (htouch : l.CanTouchBoth) := hreads.restored (hboth.mp htouch).1 (hboth.mp htouch).2
    refine ⟨hsame.tests.isBelow_eq_iff.mp hreads.tests, hcode, ?_, fun htouch _ => hselects htouch⟩
    intro htouch hplain
    obtain ⟨hdotted, hhold⟩ := htouch.code
    have hdotted' : ¬Dotted l'.codeDir := by rwa [← hcode hhold]
    exact (hsame.code.selects_eq_iff hdotted hdotted' hhold hplain).mp (hselects htouch)
  · intro halike
    refine ⟨hsame.tests.isBelow_eq_iff.mpr halike.tests, hsame.code.isBelow_eq_iff.mpr halike.code, ?_⟩
    intro htests hcode
    have htouch := hboth.mpr ⟨htests, hcode⟩
    obtain ⟨hdotted, hhold⟩ := htouch.code
    have hdotted' : ¬Dotted l'.codeDir := by rwa [← halike.code hhold]
    by_cases hplain : (names l.codeDir).Plain
    · exact (hsame.code.selects_eq_iff hdotted hdotted' hhold hplain).mpr (halike.plain htouch hplain)
    · exact halike.special htouch hplain

/-- Two layouts that name the same directories give the same reports, for every suite that goes by the
working files, exactly if the areas begin with a lone dot in both of them or in none, and, unless this
leaves an area empty, their patterns select the same files of the production code. -/
theorem interchangeable_iff_spelledAlike (hsame : l.SameDirectories l') :
    l.Interchangeable l' ↔ l.SpelledAlike l' := by
  rw [interchangeable_iff_readsSame, hsame.readsSame_iff]

/-- Slashes and dots behind the beginning of the tests make no difference. -/
theorem interchangeable_of_slashed_tests :
    SameDirectories ⟨"tests", "src"⟩ ⟨"tests//./", "src"⟩ ∧
      Interchangeable ⟨"tests", "src"⟩ ⟨"tests//./", "src"⟩ := by
  have hsame : SameDirectories ⟨"tests", "src"⟩ ⟨"tests//./", "src"⟩ :=
    ⟨⟨by decide, by decide, by decide⟩, ⟨by decide, by decide, rfl⟩⟩
  refine ⟨hsame, (interchangeable_iff_spelledAlike hsame).mpr ?_⟩
  exact ⟨fun _ => by decide, fun _ => Iff.rfl, fun _ _ => ⟨Iff.rfl, Iff.rfl⟩, fun _ _ _ _ => rfl⟩

end ProjectLayout

namespace Sample

/-- What a batch on the second commit alone comes to. -/
def outcome (layout : ProjectLayout) : Except VerificationError RunReport :=
  ((Progress.start (.clone repository) 0).verify suite layout .zero ["main"]).outcome

theorem outcome_eq (layout : ProjectLayout) :
    outcome layout = .ok ⟨[suite.entryOn 0 history layout "main" feature]⟩ := by
  have hresolve : (WorkingCopy.clone repository).resolve "main" = .ok feature.id := rfl
  exact outcome_verify_singleton suite_byWorkingFiles hresolve rfl 0 layout .zero

theorem triage_of_isBelow {l : ProjectLayout}
    (htests : PathText.isBelow (Path.toText ["tests", "calc"]) l.testsDir = true)
    (hcode : PathText.isBelow (Path.toText ["src", "calc"]) l.codeDir = true) :
    (history.changeSet l feature).triage = none :=
  ChangeSet.triage_eq_none_iff.mpr
    ⟨History.touchesTests_iff.mpr ⟨_, History.mem_changes_iff.mpr (by decide), htests⟩,
      History.touchesProductionCode_iff.mpr ⟨_, History.mem_changes_iff.mpr (by decide), hcode⟩⟩

end Sample

set_option maxRecDepth 4000 in
/-- With one more slash the production code stays as it is in the second run, and with a lone dot in front
no commit is seen to change it. -/
theorem ProjectLayout.outcome_ne_of_respelling :
    SameDirectories ⟨"tests", "src"⟩ ⟨"tests", "src//"⟩ ∧ SameDirectories ⟨"tests", "src"⟩ ⟨"tests", "./src"⟩ ∧
      Sample.suite.ByWorkingFiles ∧ Sample.outcome ⟨"tests", "src"⟩ ≠ Sample.outcome ⟨"tests", "src//"⟩ ∧
        Sample.outcome ⟨"tests", "src"⟩ ≠ Sample.outcome ⟨"tests", "./src"⟩ := by
  have hseen := Sample.triage_of_isBelow (l := ⟨"tests", "src"⟩) (by decide) (by decide)
  have hslashed := Sample.triage_of_isBelow (l := ⟨"tests", "src//"⟩) (by decide) (by decide)
  refine ⟨⟨⟨by decide, by decide, rfl⟩, ⟨by decide, by decide, by decide⟩⟩,
    ⟨⟨by decide, by decide, rfl⟩, ⟨by decide, by decide, by decide⟩⟩, Sample.suite_byWorkingFiles,
    fun heq => ?_, fun heq => ?_⟩
  all_goals
    rw [Sample.outcome_eq, Sample.outcome_eq, Except.ok.injEq, RunReport.mk.injEq,
      List.singleton_inj] at heq
  · have hphases := congrArg CommitReport.phases heq
    rw [Suite.phases_entryOn _ _ _ hseen, Suite.phases_entryOn _ _ _ hslashed,
      Option.some.injEq] at hphases
    have hfails : (Sample.suite.resultsOn 0 Sample.history ⟨"tests", "src"⟩
        Sample.feature).preChange.passed = false := by decide
    have hpasses : (Sample.suite.resultsOn 0 Sample.history ⟨"tests", "src//"⟩
        Sample.feature).preChange.passed = true := by decide
    have hpassed := PhaseResults.passed_preChange_of_summary hphases
    rw [hfails, hpasses] at hpassed
    cases hpassed
  · have hsets := congrArg CommitReport.changeSet heq
    rw [Suite.changeSet_entryOn, Suite.changeSet_entryOn] at hsets
    have hcode := (ChangeSet.triage_eq_none_iff.mp hseen).2
    rw [hsets, History.touchesProductionCode_iff] at hcode
    obtain ⟨p, hp, hbelow⟩ := hcode
    have hfind : Sample.history.find? Sample.feature.id = some Sample.feature := rfl
    have htrackable := History.trackable_of_mem_changes hfind hp
    exact ((PathText.isBelow_iff_names (by decide) htrackable).mp hbelow).1 (by decide)

end CommitVerdict
