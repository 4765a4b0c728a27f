import CommitVerdict.Proofs.Area.Probe
import CommitVerdict.Proofs.Area.Selection

namespace CommitVerdict

open Bytes

/-- A text that is its own path and its own pattern. -/
structure Verbatim (s : String) : Prop where
  trackable : Path.isTrackable (PathText.components s) = true
  spelling : Path.toText (PathText.components s) = s
  pattern : PathPattern.parse? (Utf8.encode s) = some ⟨false, false, false, Utf8.encode s⟩
  noBackslash : (92 : UInt8) ∉ Utf8.encode s

namespace Verbatim

variable {s : String}

theorem isWhole_eq_false (hverbatim : Verbatim s) : PathPattern.isWhole (Utf8.encode s) = false := by
  by_contra hwhole
  have hpattern := hverbatim.pattern
  rw [PathPattern.parse?_of_isWhole (by simpa using hwhole)] at hpattern
  cases hpattern

theorem scan_eq (hverbatim : Verbatim s) : PathPattern.scan (Utf8.encode s) = (Utf8.encode s, false) := by
  rcases PathPattern.source_of_parse? hverbatim.isWhole_eq_false hverbatim.pattern with
    ⟨-, hsource⟩ | ⟨hnegated, -⟩
  · exact Prod.ext (hsource.eq_of_solid (Nat.le_refl _)).1 hsource.wild_eq.symm
  · cases hnegated

theorem stemOf_eq (hverbatim : Verbatim s) : Pathspec.stemOf (Utf8.encode s) = Utf8.encode s := by
  have hunescape := Pathspec.unescape_append hverbatim.noBackslash []
  rw [Pathspec.stemOf, PathPattern.beforeWildcard_of_scan hverbatim.scan_eq]
  simpa [Pathspec.unescape] using hunescape

theorem covers_iff (hverbatim : Verbatim s) {path : Bytes} :
    PathPattern.Covers ⟨false, false, false, Utf8.encode s⟩ path ↔ Below (Utf8.encode s) path := by
  have hmatch : Glob.isMatch (Utf8.encode s) path = true → Utf8.encode s = path := by
    intro hmatch
    have hliteral : ∀ b ∈ Utf8.encode s, Glob.isLiteral b = true := by
      have hscan : PathPattern.scan (Utf8.encode s ++ []) = (Utf8.encode s ++ [], false) := by
        rw [List.append_nil]
        exact hverbatim.scan_eq
      exact PathPattern.isLiteral_of_scan hscan hverbatim.noBackslash
    rw [← List.append_nil (Utf8.encode s)] at hmatch
    simpa using ((Glob.isMatch_literal_iff hliteral 0).mp hmatch).2.symm
  rw [below_iff, PathPattern.Covers]
  constructor
  · rintro (habsurd | heq | hglob | ⟨-, hbelow⟩)
    · cases habsurd
    · exact .inl heq
    · exact .inl (hmatch hglob)
    · exact .inr hbelow
  · rintro (heq | hbelow)
    · exact .inr (.inl heq)
    · exact .inr (.inr (.inr ⟨rfl, hbelow⟩))

/-- The pattern selects exactly what goes on behind the text with a slash, and the text itself. -/
theorem selects_iff_below (hverbatim : Verbatim s) {p : Path} :
    (Pathspec.ofTexts [s]).selects p = true ↔ Below (Utf8.encode s) p.bytes := by
  rw [Pathspec.selects_ofTexts_iff]
  constructor
  · rintro ⟨-, hjudge⟩
    rcases PathPattern.judge_eq_some_true_iff.mp (hjudge _ hverbatim.pattern) with
      ⟨-, hcovers⟩ | ⟨hnegated, -⟩
    · exact hverbatim.covers_iff.mp hcovers
    · cases hnegated
  · intro hbelow
    refine ⟨hverbatim.stemOf_eq.symm ▸ hbelow.isPrefix, fun pattern hparse => ?_⟩
    obtain rfl := Option.some.inj (hverbatim.pattern.symm.trans hparse)
    exact PathPattern.judge_eq_some_true_iff.mpr (.inl ⟨rfl, hverbatim.covers_iff.mpr hbelow⟩)

theorem bytes_components (hverbatim : Verbatim s) :
    Path.bytes (PathText.components s) = Utf8.encode s := by
  rw [Path.bytes, hverbatim.spelling]

/-- The pattern selects all that lies in the area. -/
theorem selects_of_isPrefix (hverbatim : Verbatim s) {p : Path} (hbelow : PathText.components s <+: p) :
    (Pathspec.ofTexts [s]).selects p = true := by
  rw [hverbatim.selects_iff_below, ← hverbatim.bytes_components]
  exact Path.below_bytes_of_isPrefix (Path.IsTrackable.ne_nil hverbatim.trackable) hbelow

/-- Of the files that can be tracked, the pattern selects those that lie in the area. -/
theorem selects_iff (hverbatim : Verbatim s) {p : Path} (hp : p.isTrackable = true) :
    (Pathspec.ofTexts [s]).selects p = true ↔ PathText.components s <+: p := by
  rw [hverbatim.selects_iff_below, Path.isPrefix_iff_below hverbatim.trackable hp,
    hverbatim.bytes_components]

end Verbatim

end CommitVerdict
