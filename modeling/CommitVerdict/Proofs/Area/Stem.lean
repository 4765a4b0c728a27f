import CommitVerdict.Proofs.Area.Reading

namespace CommitVerdict

namespace PathPattern

/-- A text that has been looked through without finding a wildcard has none that a selection would stop
at. -/
theorem beforeWildcard_of_scan {text : Bytes} (hscan : scan text = (text, false)) (before : UInt8) :
    Pathspec.beforeWildcard before text = text := by
  fun_induction scan text generalizing before with
  | case1 => rfl
  | case2 b rest scanned wild hrest ih =>
    simp only [Prod.mk.injEq, List.cons.injEq, true_and] at hscan
    obtain ⟨rfl, rfl⟩ := hscan
    have hback : Glob.isWildcard 92 = false := by decide
    simp only [Pathspec.beforeWildcard, hback, Bool.false_and, bne_self_eq_false, Bool.and_false,
      Bool.false_eq_true, if_false]
    rw [ih hrest]
  | case3 b rest _ hend => simp at hscan
  | case4 b rest _ hend scanned wild hrest ih =>
    simp only [Prod.mk.injEq, List.cons.injEq, true_and, Bool.or_eq_false_iff] at hscan
    obtain ⟨rfl, hb, rfl⟩ := hscan
    simp only [Pathspec.beforeWildcard, hb, Bool.false_and, Bool.false_eq_true, if_false]
    rw [ih hrest]

/-- Before its first backslash, such a text has literal bytes only. -/
theorem isLiteral_of_scan {literal rest : Bytes}
    (hscan : scan (literal ++ rest) = (literal ++ rest, false)) (hback : (92 : UInt8) ∉ literal) :
    ∀ b ∈ literal, Glob.isLiteral b = true := by
  induction literal with
  | nil => simp
  | cons b literal ih =>
    obtain ⟨hb, htail⟩ := not_or.mp (mt List.mem_cons.mpr hback)
    rw [List.cons_append, scan.eq_3 _ _ (by rintro c tail rfl -; exact hb rfl)] at hscan
    split at hscan
    · simp at hscan
    · simp only [Prod.mk.injEq, List.cons.injEq, true_and, Bool.or_eq_false_iff] at hscan
      obtain ⟨hscanned, hwild, hrest⟩ := hscan
      refine List.forall_mem_cons.mpr ⟨?_, ih (Prod.ext hscanned hrest) htail⟩
      simp [Glob.isLiteral, hwild, Ne.symm hb]

end PathPattern

namespace Pathspec

theorem unescape_append {literal : Bytes} (hback : (92 : UInt8) ∉ literal) (rest : Bytes) :
    unescape (literal ++ rest) = literal ++ unescape rest := by
  induction literal with
  | nil => rfl
  | cons b literal ih =>
    obtain ⟨hb, htail⟩ := not_or.mp (mt List.mem_cons.mpr hback)
    rw [List.cons_append, List.cons_append, ← ih htail, unescape.eq_2]
    rintro c tail rfl -
    exact hb rfl

theorem unescape_backslashes (n : Nat) :
    unescape (List.replicate n 92) = List.replicate ((n + 1) / 2) 92 := by
  induction n using Nat.twoStepInduction with
  | zero => rfl
  | one => rfl
  | more n ih _ =>
    have hstep : unescape (List.replicate (n + 2) 92) = 92 :: unescape (List.replicate n 92) := rfl
    rw [hstep, ih, Nat.add_right_comm n 2 1, Nat.add_div_right (n + 1) Nat.two_pos, List.replicate_succ]

/-- If the bytes that are left still begin like the text behind a backslash, they are all backslashes. -/
private theorem eq_backslash_of_unescape {text : Bytes} (n : Nat)
    (hbegins : unescape text <+: List.replicate (n + 1) 92 ++ text) : ∀ b ∈ text, b = 92 := by
  fun_induction unescape text generalizing n with
  | case1 b rest ih =>
    rw [List.replicate_succ, List.cons_append, List.cons_prefix_cons] at hbegins
    obtain ⟨rfl, hrest⟩ := hbegins
    have hmore : unescape rest <+: List.replicate (n + 1 + 1) 92 ++ rest := by
      simpa [List.replicate_succ', List.append_assoc] using hrest
    simpa using ih (n + 1) hmore
  | case2 b rest hb ih =>
    rw [List.replicate_succ, List.cons_append, List.cons_prefix_cons] at hbegins
    obtain ⟨rfl, hrest⟩ := hbegins
    cases rest with
    | nil => simp
    | cons c rest => exact absurd rfl (hb c rest rfl)
  | case3 => simp

/-- A text that begins with what becomes of it without its backslashes has them at its end. -/
theorem backslashes_of_unescape {text : Bytes} (hbegins : unescape text <+: text) :
    ∃ literal n, text = literal ++ List.replicate n 92 ∧ (92 : UInt8) ∉ literal := by
  fun_induction unescape text with
  | case1 b rest =>
    refine ⟨[], (rest.length + 2), ?_, List.not_mem_nil⟩
    obtain ⟨rfl, hrest⟩ := List.cons_prefix_cons.mp hbegins
    rw [List.nil_append, List.eq_replicate_iff]
    exact ⟨rfl, by simpa using eq_backslash_of_unescape 0 hrest⟩
  | case2 b rest hb ih =>
    by_cases heq : b = 92
    · cases rest with
      | nil => exact ⟨[], 1, by rw [heq]; rfl, List.not_mem_nil⟩
      | cons c rest => exact absurd rfl (hb c rest heq)
    · obtain ⟨literal, n, rfl, hback⟩ := ih (List.cons_prefix_cons.mp hbegins).2
      exact ⟨b :: literal, n, rfl, by simp [hback, Ne.symm heq]⟩
  | case3 => exact ⟨[], 0, rfl, List.not_mem_nil⟩

end Pathspec

end CommitVerdict
