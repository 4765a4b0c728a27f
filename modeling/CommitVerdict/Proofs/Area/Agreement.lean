import CommitVerdict.ChangeSet
import CommitVerdict.Proofs.Area.Marked
import CommitVerdict.Proofs.Area.Unmarked
import CommitVerdict.Proofs.Repository.History

namespace CommitVerdict

theorem Pathspec.selects_empty (p : Path) : (ofTexts [""]).selects p = true := by
  rw [selects_ofTexts_iff]
  exact ⟨List.nil_prefix, fun pattern hparse => by cases hparse⟩

/-- The two readings of an area agree on all files exactly if the area is everything, if it is read as it
is written, if it is written with a mark that takes no effect, or if neither reading has any file. -/
theorem readAlike_iff {s : String} :
    ReadAlike s ↔ s = "" ∨ Verbatim s ∨ Marked s ∨
      (Path.isTrackable (PathText.components s) = false ∧
        ∀ p : Path, p.isTrackable = true → (Pathspec.ofTexts [s]).selects p = false) := by
  constructor
  · intro halike
    by_cases hs : s = ""
    · exact .inl hs
    by_cases harea : Path.isTrackable (PathText.components s) = true
    · obtain ⟨pattern, hparse⟩ := halike.exists_pattern harea
      rcases PathPattern.source_of_parse? (halike.isWhole_eq_false harea) hparse with
        ⟨hnegated, hsource⟩ | ⟨hnegated, body, -, hsource⟩
      · exact .inr (.inl (halike.verbatim harea hparse hnegated hsource))
      · exact .inr (.inr (.inl (halike.marked harea hparse hnegated hsource.everything_eq)))
    · refine .inr (.inr (.inr ⟨by simpa using harea, fun p hp => ?_⟩))
      by_contra hselects
      exact harea (Path.isTrackable_of_isPrefix (PathText.components_ne_nil hs) hp
        ((halike p hp).mpr (by simpa using hselects)))
  · rintro (rfl | hverbatim | hmarked | ⟨harea, hnone⟩) p hp
    · simp only [Pathspec.selects_empty, iff_true]
      exact List.nil_prefix
    · exact (hverbatim.selects_iff hp).symm
    · exact (hmarked.selects_iff hp).symm
    · simp only [hnone p hp, Bool.false_eq_true, iff_false]
      intro hbelow
      have hs : s ≠ "" := by
        rintro rfl
        simp [Pathspec.selects_empty] at hnone
        exact absurd hp (by simp [hnone p])
      simp [Path.isTrackable_of_isPrefix (PathText.components_ne_nil hs) hp hbelow] at harea

/-- A commit of one file. -/
def Commit.ofFile (p : Path) : Commit :=
  ⟨.ofNat 0, [], "", ⟨[(p, .file [])], List.pairwise_singleton _ _⟩⟩

/-- A history of one commit of one file. -/
def History.ofFile (p : Path) (hp : p.isTrackable = true) : History where
  commits := [.ofFile p]
  distinct := List.pairwise_singleton _ _
  closed := by simp [Commit.ofFile]
  trackable := by simpa [Commit.ofFile, Tree.paths] using hp

theorem PathText.isBelow_toText_iff {p : Path} (hp : p.isTrackable = true) {s : String} :
    isBelow p.toText s = true ↔ components s <+: p := by
  rw [isBelow, components_toText hp, List.isPrefixOf_iff_prefix]

/-- A file of a commit or of its first parent counts as production code exactly if the restoration of
production code selects it, whatever the commit, if and only if the area of production code is written in
one of these ways. -/
theorem ChangeSet.classify_eq_selects_iff {s : String} :
    (∀ (h : History) (id : CommitId) (c : Commit), h.find? id = some c →
      ∀ p : Path, p ∈ c.tree.paths ∨ p ∈ (h.parentTree c).paths → ∀ testsDir : String,
        (classify [p.toText] ⟨testsDir, s⟩).touchesProductionCode = (Pathspec.ofTexts [s]).selects p) ↔
      s = "" ∨ Verbatim s ∨ Marked s ∨
        (Path.isTrackable (PathText.components s) = false ∧
          ∀ p : Path, p.isTrackable = true → (Pathspec.ofTexts [s]).selects p = false) := by
  have hclassify {p : Path} (hp : p.isTrackable = true) (testsDir : String) :
      (classify [p.toText] ⟨testsDir, s⟩).touchesProductionCode = true ↔ PathText.components s <+: p := by
    rw [← PathText.isBelow_toText_iff hp]
    simp [classify]
  rw [← readAlike_iff]
  constructor
  · intro hagree p hp
    have hfile : p ∈ (Commit.ofFile p).tree.paths := List.mem_singleton_self p
    rw [← hclassify hp "", hagree (.ofFile p hp) (.ofNat 0) (.ofFile p) rfl p (.inl hfile) ""]
  · intro halike h id c hfind p hp testsDir
    have htrackable : p.isTrackable = true := by
      rcases hp with hp | hp
      · exact History.trackable_tree hfind p hp
      · exact History.trackable_parentTree hfind p hp
    rw [Bool.eq_iff_iff, hclassify htrackable, halike p htrackable]

/-- A repeated slash: the file counts as production code, and the restoration passes it by. -/
theorem ChangeSet.classify_ne_selects_repeated_slash :
    ∃ (h : History) (id : CommitId) (c : Commit) (p : Path), h.find? id = some c ∧ p ∈ c.tree.paths ∧
      (classify [p.toText] ⟨"tests", "src//lib"⟩).touchesProductionCode = true ∧
      (Pathspec.ofTexts ["src//lib"]).selects p = false :=
  ⟨.ofFile ["src", "lib", "calc"] (by decide), .ofNat 0, .ofFile ["src", "lib", "calc"],
    ["src", "lib", "calc"], rfl, List.mem_singleton_self _, by decide, by decide⟩

end CommitVerdict
