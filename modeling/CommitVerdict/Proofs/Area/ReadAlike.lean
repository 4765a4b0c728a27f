import CommitVerdict.Proofs.Area.Probe
import CommitVerdict.Proofs.Area.Selection

namespace CommitVerdict

open Bytes

/-- Whether both readings of an area take the same files. -/
def ReadAlike (s : String) : Prop :=
  ∀ p : Path, p.isTrackable = true →
    (PathText.components s <+: p ↔ (Pathspec.ofTexts [s]).selects p = true)

namespace Glob

/-- A pattern that matches a long text matches it with anything in between, too. -/
theorem isMatch_insert {pattern area rest : Bytes} (hmatch : isMatch pattern (area ++ rest) = true)
    (hlong : pattern.length < (area ++ rest).length) (hsolid : solid pattern ≤ solid area)
    (extra : Bytes) :
    isMatch pattern (area ++ (extra ++ (area ++ rest))) = true := by
  rcases isMatch_length_or_insert hmatch with hshort | ⟨start, last, htext, hstart, hinsert⟩
  · omega
  · have harea : start <+: area := by
      rcases List.prefix_or_prefix_of_prefix (htext ▸ List.prefix_append start last)
        (List.prefix_append area rest) with hbegins | hbegins
      · exact hbegins
      · have hle := solid_le_of_sublist hbegins.sublist
        omega
    obtain ⟨tail, rfl⟩ := harea
    rw [List.append_assoc, List.append_cancel_left_eq] at htext
    have hmiddle := hinsert (tail ++ (extra ++ start))
    rw [← htext] at hmiddle
    simpa only [List.append_assoc] using hmiddle

end Glob

namespace ReadAlike

variable {s : String}

section Trackable

variable (halike : ReadAlike s) (harea : Path.isTrackable (PathText.components s) = true)

include halike harea

/-- The pattern leaves out a file whose path only begins with the text of the area. -/
theorem not_selects {p : Path} {rest : Bytes} (hp : p.isTrackable = true)
    (hbytes : p.bytes = Path.bytes (PathText.components s) ++ 120 :: rest) :
    ¬ (Pathspec.ofTexts [s]).selects p = true := by
  intro hselects
  have hbelow := Path.below_bytes_of_isPrefix (Path.IsTrackable.ne_nil harea) ((halike p hp).mpr hselects)
  rw [hbytes, Below, List.append_assoc, List.prefix_append_right_inj, List.cons_append,
    List.cons_prefix_cons] at hbelow
  exact absurd hbelow.1 (by decide)

theorem stem_isPrefix :
    Pathspec.stemOf (Utf8.encode s) <+: Path.bytes (PathText.components s) :=
  (Pathspec.selects_ofTexts_iff.mp ((halike _ harea).mp (List.prefix_refl _))).1

/-- Neither does the text write no pattern, nor the one that selects everything. -/
theorem not_all_selected (hall : ∀ p : Path, Pathspec.stemOf (Utf8.encode s) <+: p.bytes →
    (Pathspec.ofTexts [s]).selects p = true) : False := by
  have hbytes := Path.bytes_beside (Path.IsTrackable.ne_nil harea) 0
  refine halike.not_selects harea (Path.isTrackable_beside harea 0) hbytes (hall _ ?_)
  rw [hbytes]
  exact (halike.stem_isPrefix harea).trans (List.prefix_append _ _)

theorem exists_pattern : ∃ pattern, PathPattern.parse? (Utf8.encode s) = some pattern := by
  cases hparse : PathPattern.parse? (Utf8.encode s) with
  | some pattern => exact ⟨pattern, rfl⟩
  | none =>
    refine (halike.not_all_selected harea fun p hstem => ?_).elim
    exact Pathspec.selects_ofTexts_iff.mpr ⟨hstem, by simp [hparse]⟩

theorem isWhole_eq_false : PathPattern.isWhole (Utf8.encode s) = false := by
  by_contra hwhole
  refine halike.not_all_selected harea fun p hstem => ?_
  refine Pathspec.selects_ofTexts_iff.mpr ⟨hstem, fun pattern hparse => ?_⟩
  rw [PathPattern.parse?_of_isWhole (by simpa using hwhole)] at hparse
  obtain rfl := Option.some.inj hparse
  exact PathPattern.judge_eq_some_true_iff.mpr (.inl ⟨rfl, .inl rfl⟩)

end Trackable

end ReadAlike

end CommitVerdict
