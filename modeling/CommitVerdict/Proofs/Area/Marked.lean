import CommitVerdict.Proofs.Area.ReadAlike

namespace CommitVerdict

open Bytes

/-- A text that begins with an exclamation mark, names an area with that mark, and would otherwise
deselect none of its files. -/
structure Marked (s : String) : Prop where
  trackable : Path.isTrackable (PathText.components s) = true
  stem : Pathspec.stemOf (Utf8.encode s) <+: Path.bytes (PathText.components s)
  pattern : ∃ pattern, PathPattern.parse? (Utf8.encode s) = some pattern ∧ pattern.negated = true ∧
    33 :: pattern.text = Path.bytes (PathText.components s) ∧
    ∀ p : Path, p.isTrackable = true → PathText.components s <+: p →
      Glob.isMatch pattern.text p.bytes = false

/-- A text does not begin both with an exclamation mark and some bytes, and with these bytes and a
slash. -/
theorem not_prefix_of_marked {text path : Bytes} (hmarked : 33 :: text <+: path) :
    ¬ text ++ [47] <+: path := by
  intro hbelow
  have hlength : (text ++ [47]).length = (33 :: text).length := by simp
  have hsame : text ++ [47] = 33 :: text :=
    (List.prefix_of_prefix_length_le hbelow hmarked (Nat.le_of_eq hlength)).eq_of_length hlength
  have hcount := congrArg (List.count 47) hsame
  rw [List.count_append, List.count_singleton_self,
    List.count_cons_of_ne (by decide : (33 : UInt8) ≠ 47)] at hcount
  omega

namespace Marked

/-- A marked text selects the files that lie in its area. -/
theorem selects_iff {s : String} (hmarked : Marked s) {p : Path} (hp : p.isTrackable = true) :
    (Pathspec.ofTexts [s]).selects p = true ↔ PathText.components s <+: p := by
  obtain ⟨pattern, hparse, hnegated, htext, hnone⟩ := hmarked.pattern
  have hbelow : PathText.components s <+: p ↔ Below (33 :: pattern.text) p.bytes := by
    rw [htext, Path.isPrefix_iff_below hmarked.trackable hp]
  rw [Pathspec.selects_ofTexts_iff, hbelow]
  constructor
  · rintro ⟨-, hjudge⟩
    rcases PathPattern.judge_eq_some_true_iff.mp (hjudge _ hparse) with ⟨habsurd, -⟩ | ⟨-, -, hwritten⟩
    · simp [hnegated] at habsurd
    · exact hwritten
  · intro hwritten
    have hbegins := hwritten.isPrefix
    have hstem : Pathspec.stemOf (Utf8.encode s) <+: 33 :: pattern.text := by
      rw [htext]
      exact hmarked.stem
    refine ⟨hstem.trans hbegins, fun other hother => ?_⟩
    obtain rfl := Option.some.inj (hparse.symm.trans hother)
    refine PathPattern.judge_eq_some_true_iff.mpr (.inr ⟨hnegated, ?_, hwritten⟩)
    rintro (heverything | heq | hmatch | ⟨-, hslash⟩)
    · rcases PathPattern.source_of_parse? (PathPattern.isWhole_of_negated hparse hnegated) hparse with ⟨-, hsource⟩ | ⟨-, body, -, hsource⟩
      · simp [hsource.everything_eq] at heverything
      · simp [hsource.everything_eq] at heverything
    · have hle := hbegins.length_le
      rw [← heq, List.length_cons] at hle
      omega
    · simp [hnone p hp (hbelow.mpr hwritten)] at hmatch
    · exact not_prefix_of_marked hbegins hslash

end Marked

namespace ReadAlike

variable {s : String} {pattern : PathPattern}

/-- A pattern with a mark covers nothing in the area, and every path there is written with the mark. -/
theorem marked_of_isPrefix (halike : ReadAlike s)
    (hparse : PathPattern.parse? (Utf8.encode s) = some pattern)
    (hnegated : pattern.negated = true) {p : Path} (hp : p.isTrackable = true)
    (hbelow : PathText.components s <+: p) :
    ¬ pattern.Covers p.bytes ∧ Below (33 :: pattern.text) p.bytes := by
  have hselects := (halike p hp).mp hbelow
  rcases PathPattern.judge_eq_some_true_iff.mp
    ((Pathspec.selects_ofTexts_iff.mp hselects).2 _ hparse) with ⟨habsurd, -⟩ | ⟨-, hselected⟩
  · simp [hnegated] at habsurd
  · exact hselected

section Trackable

variable (halike : ReadAlike s) (harea : Path.isTrackable (PathText.components s) = true)

include halike harea

/-- No file beside the area is matched by what follows the mark, since a file below the area would be
matched as well. -/
theorem not_isMatch_beside (hparse : PathPattern.parse? (Utf8.encode s) = some pattern)
    (hnegated : pattern.negated = true) {n : Nat} (hlength : pattern.text.length ≤ n)
    (hsublist : pattern.text.Sublist (Path.bytes (PathText.components s))) :
    ¬ Glob.isMatch pattern.text (Path.beside (PathText.components s) n).bytes = true := by
  intro hmatch
  have hne := Path.IsTrackable.ne_nil harea
  have hboth : Path.bytes (PathText.components s ++ Path.beside (PathText.components s) n) =
      Path.bytes (PathText.components s) ++
        ([47] ++ (Path.bytes (PathText.components s) ++ List.replicate (n + 1) 120)) := by
    rw [Path.bytes_append hne (by simp [Path.beside]), Path.bytes_beside hne, List.singleton_append]
  refine (halike.marked_of_isPrefix hparse hnegated (Path.isTrackable_append harea
    (Path.isTrackable_beside harea n)) (List.prefix_append _ _)).1 (.inr (.inr (.inl ?_)))
  rw [Path.bytes_beside hne] at hmatch
  rw [hboth]
  refine Glob.isMatch_insert hmatch ?_ (solid_le_of_sublist hsublist) [47]
  rw [List.length_append, List.length_replicate]
  omega

/-- A mark does not stand for an area above the one that the text names. -/
theorem not_marked_above (hparse : PathPattern.parse? (Utf8.encode s) = some pattern)
    (hnegated : pattern.negated = true) (heverything : pattern.everything = false) :
    ¬ 33 :: pattern.text ++ [47] <+: Path.bytes (PathText.components s) := by
  intro habove
  have hbeside := Path.bytes_beside (Path.IsTrackable.ne_nil harea) pattern.text.length
  have hinside : Path.bytes (PathText.components s) <+:
      (Path.beside (PathText.components s) pattern.text.length).bytes := by
    rw [hbeside]
    exact List.prefix_append _ _
  have hbegins := habove.trans hinside
  -- a file beside the area is written with the mark, so the pattern has to cover it
  have hcovers : pattern.Covers (Path.beside (PathText.components s) pattern.text.length).bytes := by
    by_contra hnot
    refine halike.not_selects harea (Path.isTrackable_beside harea _) hbeside
      (Pathspec.selects_ofTexts_iff.mpr ⟨?_, fun other hother => ?_⟩)
    · exact (halike.stem_isPrefix harea).trans hinside
    · obtain rfl := Option.some.inj (hparse.symm.trans hother)
      exact PathPattern.judge_eq_some_true_iff.mpr (.inr ⟨hnegated, hnot, below_iff.mpr (.inr hbegins)⟩)
  rcases hcovers with hall | heq | hmatch | ⟨-, hbelow⟩
  · simp [heverything] at hall
  · have hsame := congrArg List.length (heq.trans hbeside)
    rw [List.length_append, List.length_replicate] at hsame
    omega
  · have hsublist := ((List.sublist_cons_self 33 _).trans
      (List.sublist_append_left _ [47])).trans habove.sublist
    exact halike.not_isMatch_beside harea hparse hnegated (Nat.le_refl _) hsublist hmatch
  · exact not_prefix_of_marked ((List.prefix_append _ _).trans hbegins) hbelow

/-- With a mark, the text names an area with that mark, and the pattern matches nothing in it. -/
theorem marked (hparse : PathPattern.parse? (Utf8.encode s) = some pattern)
    (hnegated : pattern.negated = true) (heverything : pattern.everything = false) : Marked s := by
  refine ⟨harea, halike.stem_isPrefix harea, pattern, hparse, hnegated, ?_, fun p hp hbelow => ?_⟩
  · have hbelow := (halike.marked_of_isPrefix hparse hnegated harea (List.prefix_refl _)).2
    exact (below_iff.mp hbelow).resolve_right (halike.not_marked_above harea hparse hnegated heverything)
  · by_contra hmatch
    refine (halike.marked_of_isPrefix hparse hnegated hp hbelow).1 (.inr (.inr (.inl ?_)))
    simpa using hmatch

end Trackable

end ReadAlike

end CommitVerdict
