import CommitVerdict.Proofs.Area.ReadAlike
import CommitVerdict.Proofs.Area.Verbatim

namespace CommitVerdict

open Bytes

/-- What ends with a slash within an area, one more slash and a name ends with one of these slashes. -/
theorem eq_or_prefix_of_prefix_slash {text area : Bytes} {n : Nat}
    (hbegins : text ++ [47] <+: area ++ 47 :: List.replicate n 120) :
    text = area ∨ text ++ [47] <+: area := by
  rcases List.prefix_or_prefix_of_prefix ((List.prefix_append _ _).trans hbegins)
    (List.prefix_append area _) with ⟨rest, rfl⟩ | ⟨rest, rfl⟩
  · cases rest with
    | nil => exact .inl (List.append_nil text).symm
    | cons b rest =>
      rw [List.append_assoc, List.prefix_append_right_inj, List.cons_append,
        List.cons_prefix_cons] at hbegins
      obtain ⟨rfl, -⟩ := hbegins
      exact .inr ⟨rest, by rw [List.append_assoc]; rfl⟩
  · cases rest with
    | nil => exact .inl (List.append_nil area)
    | cons b rest =>
      rw [List.append_assoc, List.prefix_append_right_inj] at hbegins
      have hslash := (List.cons_prefix_cons.mp hbegins).2.subset
        (List.mem_append_right rest (List.mem_singleton_self 47))
      exact absurd (List.eq_of_mem_replicate hslash) (by decide)

namespace ReadAlike

variable {s : String} {pattern : PathPattern}

section Trackable

variable (halike : ReadAlike s) (harea : Path.isTrackable (PathText.components s) = true)

include halike harea

/-- The pattern does not cover a file whose path only begins with the text of the area. -/
theorem not_covers (hparse : PathPattern.parse? (Utf8.encode s) = some pattern)
    (hnegated : pattern.negated = false) {p : Path} {rest : Bytes} (hp : p.isTrackable = true)
    (hbytes : p.bytes = Path.bytes (PathText.components s) ++ 120 :: rest) :
    ¬ pattern.Covers p.bytes := by
  intro hcovers
  refine halike.not_selects harea hp hbytes
    (Pathspec.selects_ofTexts_iff.mpr ⟨?_, fun other hother => ?_⟩)
  · rw [hbytes]
    exact (halike.stem_isPrefix harea).trans (List.prefix_append _ _)
  · obtain rfl := Option.some.inj (hparse.symm.trans hother)
    exact PathPattern.judge_eq_some_true_iff.mpr (.inl ⟨hnegated, hcovers⟩)

/-- No pattern matches a file far below the area, since it would also match a file beside the area. -/
theorem not_isMatch_below (hparse : PathPattern.parse? (Utf8.encode s) = some pattern)
    (hnegated : pattern.negated = false) (hsource : PathPattern.Source (Utf8.encode s) pattern) {n : Nat}
    (hfar : (Utf8.encode s).length ≤ n) :
    ¬ Glob.isMatch pattern.text (Path.below (PathText.components s) n).bytes = true := by
  intro hmatch
  have hne := Path.IsTrackable.ne_nil harea
  have hsolid : solid pattern.text ≤ solid (Path.bytes (PathText.components s)) := by
    rw [PathText.solid_components harea]
    exact solid_le_of_sublist hsource.text_sublist
  have hboth : Path.bytes (Path.beside (PathText.components s) 0 ++ Path.below (PathText.components s) n) =
      Path.bytes (PathText.components s) ++ ([120, 47] ++
        (Path.bytes (PathText.components s) ++ 47 :: List.replicate (n + 1) 120)) := by
    rw [Path.bytes_append (by simp [Path.beside]) (by simp [Path.below]), Path.bytes_below hne,
      Path.bytes_beside hne, List.append_assoc]
    simp only [Nat.zero_add, List.replicate_one, List.cons_append, List.nil_append]
  refine halike.not_covers harea hparse hnegated (Path.isTrackable_append (Path.isTrackable_beside harea 0)
    (Path.isTrackable_below harea n)) hboth (.inr (.inr (.inl ?_)))
  rw [Path.bytes_below hne] at hmatch
  rw [hboth]
  refine Glob.isMatch_insert hmatch ?_ hsolid [120, 47]
  have hlength := hsource.text_sublist.length_le
  simp only [List.length_append, List.length_cons, List.length_replicate]
  omega

/-- A pattern without a mark has no wildcard and is the text of the area. -/
theorem text_eq (hparse : PathPattern.parse? (Utf8.encode s) = some pattern)
    (hnegated : pattern.negated = false) (hsource : PathPattern.Source (Utf8.encode s) pattern) :
    pattern.wild = false ∧ pattern.text = Path.bytes (PathText.components s) := by
  have hne := Path.IsTrackable.ne_nil harea
  have hfar := Path.bytes_below hne (Utf8.encode s).length
  have hselects := (halike _ (Path.isTrackable_below harea (Utf8.encode s).length)).mp
    (List.prefix_append _ _)
  rcases PathPattern.judge_eq_some_true_iff.mp
    ((Pathspec.selects_ofTexts_iff.mp hselects).2 _ hparse) with ⟨-, hcovers⟩ | ⟨habsurd, -⟩
  swap
  · simp [hnegated] at habsurd
  rcases hcovers with heverything | heq | hmatch | ⟨hwild, hbelow⟩
  · simp [hsource.everything_eq] at heverything
  · have hlength := hsource.text_sublist.length_le
    have hsame := congrArg List.length (heq.trans hfar)
    simp only [List.length_append, List.length_cons, List.length_replicate] at hsame
    omega
  · exact absurd hmatch (halike.not_isMatch_below harea hparse hnegated hsource (Nat.le_refl _))
  · rw [hfar] at hbelow
    refine ⟨hwild, (eq_or_prefix_of_prefix_slash hbelow).resolve_right fun habove => ?_⟩
    have hbeside := Path.bytes_beside hne 0
    refine halike.not_covers harea hparse hnegated (Path.isTrackable_beside harea 0) hbeside
      (.inr (.inr (.inr ⟨hwild, ?_⟩)))
    rw [hbeside]
    exact habove.trans (List.prefix_append _ _)

/-- A text without a mark is the text of its own area, and has its backslashes at the end. -/
theorem encode_eq (hparse : PathPattern.parse? (Utf8.encode s) = some pattern)
    (hnegated : pattern.negated = false) (hsource : PathPattern.Source (Utf8.encode s) pattern) :
    Utf8.encode s = Path.bytes (PathText.components s) ∧
      ∃ literal n, Utf8.encode s = literal ++ List.replicate n 92 ∧ (92 : UInt8) ∉ literal := by
  obtain ⟨hwild, htext⟩ := halike.text_eq harea hparse hnegated hsource
  have hsolid : solid (Utf8.encode s) ≤ solid pattern.text := by
    rw [htext]
    exact Nat.le_of_eq (PathText.solid_components harea).symm
  obtain ⟨hscanned, -, lead, slash, hparts, hlead, hslash⟩ := hsource.eq_of_solid hsolid
  have hscan : PathPattern.scan (Utf8.encode s) = (Utf8.encode s, false) :=
    Prod.ext hscanned (hsource.wild_eq ▸ hwild)
  obtain rfl : lead = [] := by
    refine hlead.resolve_right fun hroot => ?_
    rw [hroot] at hparts
    exact (PathText.components_of_trackable harea).2 (Utf8.head_of_encode (by decide) hparts)
  rw [List.nil_append, htext] at hparts
  have hstem := halike.stem_isPrefix harea
  rw [Pathspec.stemOf, PathPattern.beforeWildcard_of_scan hscan] at hstem
  obtain ⟨literal, n, hback, hnone⟩ :=
    Pathspec.backslashes_of_unescape (hstem.trans ⟨slash, hparts.symm⟩)
  refine ⟨?_, literal, n, hback, hnone⟩
  rcases hslash with rfl | rfl
  · rwa [List.append_nil] at hparts
  · -- a slash at the end would have to be part of the stem
    rw [hback] at hparts
    cases n with
    | zero =>
      rw [hback, List.replicate_zero, Pathspec.unescape_append hnone] at hstem
      rw [List.replicate_zero, List.append_nil] at hparts
      have hle := hstem.length_le
      rw [hparts, List.length_append, List.length_append, List.length_singleton] at hle
      omega
    | succ n =>
      rw [List.replicate_succ', ← List.append_assoc] at hparts
      have hlast := (List.append_inj' hparts rfl).2
      simp at hlast

/-- Without a mark, the text is read as it is written. -/
theorem verbatim (hparse : PathPattern.parse? (Utf8.encode s) = some pattern)
    (hnegated : pattern.negated = false) (hsource : PathPattern.Source (Utf8.encode s) pattern) :
    Verbatim s := by
  obtain ⟨hwild, htext⟩ := halike.text_eq harea hparse hnegated hsource
  obtain ⟨hencode, literal, n, hback, hnone⟩ := halike.encode_eq harea hparse hnegated hsource
  have hpattern : pattern = ⟨false, false, false, Utf8.encode s⟩ := by
    cases pattern
    simp only [PathPattern.mk.injEq]
    exact ⟨hnegated, hsource.everything_eq, hwild, htext.trans hencode.symm⟩
  refine ⟨harea, (Utf8.encode_injective hencode).symm, hpattern ▸ hparse, ?_⟩
  obtain ⟨hscan, hkept, -⟩ := hsource.eq_of_solid (Nat.le_of_eq (congrArg solid (hencode.trans htext.symm)))
  have heven : 2 * (n / 2) = n := by
    rw [htext, ← hencode, hback, PathPattern.unescapeBlanks_backslashes hnone,
      List.append_cancel_left_eq] at hkept
    simpa using congrArg List.length hkept
  rcases Nat.eq_zero_or_pos n with rfl | hpos
  · rwa [hback, List.replicate_zero, List.append_nil]
  -- half of the backslashes would be a file that the pattern matches
  obtain ⟨p, hp, hbytes⟩ := Path.exists_fewer_backslashes harea (hencode.symm.trans hback)
    (m := n / 2) (by omega)
  have hscan' : PathPattern.scan (literal ++ List.replicate n 92) =
      (literal ++ List.replicate n 92, false) :=
    hback ▸ Prod.ext hscan (hsource.wild_eq ▸ hwild)
  have hmatch := (Glob.isMatch_literal_iff (PathPattern.isLiteral_of_scan hscan' hnone) n).mpr
    ⟨by omega, hbytes⟩
  have hstem : Pathspec.stemOf (Utf8.encode s) = p.bytes := by
    rw [Pathspec.stemOf, hback, PathPattern.beforeWildcard_of_scan hscan',
      Pathspec.unescape_append hnone, Pathspec.unescape_backslashes, hbytes,
      show (n + 1) / 2 = n / 2 by omega]
  have hselects : (Pathspec.ofTexts [s]).selects p = true := by
    refine Pathspec.selects_ofTexts_iff.mpr ⟨hstem ▸ List.prefix_refl _, fun other hother => ?_⟩
    obtain rfl := Option.some.inj (hparse.symm.trans hother)
    refine PathPattern.judge_eq_some_true_iff.mpr (.inl ⟨hnegated, .inr (.inr (.inl ?_))⟩)
    rw [htext, ← hencode, hback]
    exact hmatch
  have hbelow := Path.below_bytes_of_isPrefix (Path.IsTrackable.ne_nil harea) ((halike p hp).mpr hselects)
  have hle := hbelow.isPrefix.length_le
  rw [← hencode, hback, hbytes, List.length_append, List.length_append, List.length_replicate,
    List.length_replicate] at hle
  omega

end Trackable

end ReadAlike

end CommitVerdict
