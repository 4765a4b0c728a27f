import CommitVerdict.Git.Pathspec
import CommitVerdict.Proofs.Area.Matching

namespace CommitVerdict

open Bytes

namespace PathPattern

/-- What reading may drop behind a pattern. -/
def Droppable (dropped : Bytes) : Prop := dropped = [] ∨ 0 < solid dropped

theorem Droppable.append {a b : Bytes} (ha : Droppable a) (hb : Droppable b) : Droppable (a ++ b) := by
  rcases ha with rfl | ha
  · exact hb
  · right
    rw [solid_append]
    omega

theorem Droppable.cons {b : UInt8} (hsolid : 0 < solid [b]) (rest : Bytes) : Droppable (b :: rest) := by
  right
  rw [← List.singleton_append, solid_append]
  omega

theorem scan_append (text : Bytes) : ∃ cut, text = (scan text).1 ++ cut ∧ Droppable cut := by
  fun_induction scan text with
  | case1 => exact ⟨[], rfl, .inl rfl⟩
  | case2 b rest scanned wild hscan ih =>
    obtain ⟨cut, hrest, hcut⟩ := ih
    rw [hscan] at hrest
    exact ⟨cut, by rw [List.cons_append, List.cons_append, ← hrest], hcut⟩
  | case3 b rest _ hend =>
    refine ⟨b :: rest, rfl, .cons ?_ rest⟩
    simp only [isBlankByte, Bool.and_eq_true, Bool.or_eq_true, decide_eq_true_eq, beq_iff_eq,
      bne_iff_ne] at hend
    have hdot : b ≠ 46 := by
      rintro rfl
      simp at hend
    have hslash : b ≠ 47 := by
      rintro rfl
      simp at hend
    simp [solid, hdot, hslash]
  | case4 b rest _ hend scanned wild hscan ih =>
    obtain ⟨cut, hrest, hcut⟩ := ih
    rw [hscan] at hrest
    exact ⟨cut, by rw [List.cons_append, ← hrest], hcut⟩

theorem dropBlanksReversed_append (text : Bytes) :
    ∃ blanks, text = blanks ++ dropBlanksReversed text ∧ Droppable blanks := by
  fun_induction dropBlanksReversed text with
  | case1 => exact ⟨[], rfl, .inl rfl⟩
  | case2 => exact ⟨[], rfl, .inl rfl⟩
  | case3 b rest hblank _ ih =>
    obtain ⟨blanks, hrest, -⟩ := ih
    refine ⟨b :: blanks, by rw [List.cons_append, ← hrest], .cons ?_ blanks⟩
    rcases (by simpa using hblank : b = 32 ∨ b = 9) with rfl | rfl <;> decide
  | case4 => exact ⟨[], rfl, .inl rfl⟩

theorem unescapeBlanks_sublist (text : Bytes) : (unescapeBlanks text).Sublist text := by
  fun_induction unescapeBlanks text with
  | case1 b rest _ ih => exact (ih.cons_cons b).cons 92
  | case2 b rest _ ih => exact (ih.cons_cons b).cons_cons 92
  | case3 => exact List.nil_sublist _
  | case4 b rest _ _ ih => exact ih.cons_cons b
  | case5 => exact List.Sublist.refl _

/-- A backslash at the end stays exactly if it has a partner in front of it. -/
theorem unescapeBlanks_backslashes {literal : Bytes} (hback : (92 : UInt8) ∉ literal) (n : Nat) :
    unescapeBlanks (literal ++ List.replicate n 92) = literal ++ List.replicate (2 * (n / 2)) 92 := by
  induction literal with
  | nil =>
    induction n using Nat.twoStepInduction with
    | zero => rfl
    | one => rfl
    | more n ih _ =>
      have hstep : unescapeBlanks (List.replicate (n + 2) 92) =
          92 :: 92 :: unescapeBlanks (List.replicate n 92) := rfl
      rw [List.nil_append] at ih ⊢
      rw [hstep, ih, Nat.add_div_right n Nat.two_pos]
      rfl
  | cons b literal ih =>
    obtain ⟨hb, htail⟩ := not_or.mp (mt List.mem_cons.mpr hback)
    rw [List.cons_append, List.cons_append, ← ih htail, unescapeBlanks.eq_3]
    · rintro c tail rfl -
      exact hb rfl
    · rintro rfl -
      exact hb rfl

/-- All that is dropped from the inside of a pattern are backslashes. -/
theorem unescapeBlanks_eq_of_solid {text : Bytes} (hsolid : solid text ≤ solid (unescapeBlanks text)) :
    unescapeBlanks text = text := by
  fun_induction unescapeBlanks text with
  | case1 b rest _ ih =>
    have hle := solid_le_of_sublist (unescapeBlanks_sublist rest)
    have hback : solid (92 :: b :: rest) = solid (b :: rest) + 1 := solid_cons 92 (b :: rest)
    rw [hback, solid_cons b, solid_cons b] at hsolid
    omega
  | case2 b rest _ ih =>
    simp only [solid_cons 92, solid_cons b, Nat.add_le_add_iff_right] at hsolid
    rw [ih hsolid]
  | case3 => exact absurd hsolid (by decide)
  | case4 b rest _ _ ih =>
    rw [solid_cons b, solid_cons b, Nat.add_le_add_iff_right] at hsolid
    rw [ih hsolid]
  | case5 => rfl

/-- What a pattern comes from: its text, without the backslashes in front of blanks, stands between at
most one slash on either side, and what stands behind has been dropped. -/
structure Source (body : Bytes) (p : PathPattern) : Prop where
  everything_eq : p.everything = false
  wild_eq : p.wild = (scan body).2
  parts : ∃ lead named slash rest, body = lead ++ (named ++ (slash ++ rest)) ∧
    (lead = [] ∨ lead = [47]) ∧ (slash = [] ∨ slash = [47]) ∧ Droppable rest ∧
    named.Sublist (scan body).1 ∧ p.text = unescapeBlanks named

private theorem tail_if_head (b : UInt8) (l : Bytes) :
    ∃ lead, l = lead ++ (if l.head? == some b then l.tail else l) ∧ (lead = [] ∨ lead = [b]) := by
  split
  · rename_i hhead
    obtain ⟨rest, rfl⟩ := List.head?_eq_some_iff.mp (by simpa using hhead)
    exact ⟨[b], rfl, .inr rfl⟩
  · exact ⟨[], rfl, .inl rfl⟩

private theorem dropLast_if_getLast (b : UInt8) (l : Bytes) :
    ∃ last, l = (if l.getLast? == some b then l.dropLast else l) ++ last ∧ (last = [] ∨ last = [b]) := by
  split
  · rename_i hlast
    obtain ⟨front, rfl⟩ := List.getLast?_eq_some_iff.mp (by simpa using hlast)
    exact ⟨[b], by rw [List.dropLast_concat], .inr rfl⟩
  · exact ⟨[], (List.append_nil l).symm, .inl rfl⟩

private theorem parts_of_scanned (scanned : Bytes) :
    let relative := if scanned.head? == some 47 then scanned.tail else scanned
    let line := if relative.getLast? == some 13 then relative.dropLast else relative
    let trimmed := (dropBlanksReversed line.reverse).reverse
    let named := if trimmed.getLast? == some 47 then trimmed.dropLast else trimmed
    ∃ lead slash rest, scanned = lead ++ (named ++ (slash ++ rest)) ∧ named.Sublist scanned ∧
      (lead = [] ∨ lead = [47]) ∧ (slash = [] ∨ slash = [47]) ∧ Droppable rest := by
  intro relative line trimmed named
  obtain ⟨lead, hlead, hlead'⟩ := tail_if_head 47 scanned
  obtain ⟨ending, hending, hending'⟩ := dropLast_if_getLast 13 relative
  obtain ⟨blanks, hblanks, hblanks'⟩ := dropBlanksReversed_append line.reverse
  obtain ⟨slash, hslash, hslash'⟩ := dropLast_if_getLast 47 trimmed
  have hline : line = trimmed ++ blanks.reverse := by
    rw [← List.reverse_append, ← hblanks, List.reverse_reverse]
  have hnamed : trimmed = named ++ slash := hslash
  have hrelative : relative = line ++ ending := hending
  have hscanned : scanned = lead ++ (named ++ (slash ++ (blanks.reverse ++ ending))) :=
    calc scanned = lead ++ relative := hlead
      _ = lead ++ (named ++ (slash ++ (blanks.reverse ++ ending))) := by
        rw [hrelative, hline, hnamed, List.append_assoc, List.append_assoc]
  refine ⟨lead, slash, blanks.reverse ++ ending, hscanned, ?_, hlead', hslash', ?_⟩
  · rw [hscanned]
    exact (List.sublist_append_left _ _).trans (List.sublist_append_right _ _)
  · refine Droppable.append ?_ ?_
    · rcases hblanks' with rfl | hpos
      · exact .inl rfl
      · exact .inr (by rwa [solid, List.countP_reverse])
    · rcases hending' with rfl | rfl
      · exact .inl rfl
      · exact .inr (by decide)

theorem parse?_of_isWhole {text : Bytes} (hwhole : isWhole text = true) :
    parse? text = some ⟨false, true, false, []⟩ := by
  unfold parse?
  rw [if_pos hwhole]

/-- A pattern that deselects is not written as a lone star or dot. -/
theorem isWhole_of_negated {text : Bytes} {p : PathPattern} (hparse : parse? text = some p)
    (hnegated : p.negated = true) : isWhole text = false := by
  by_contra hwhole
  rw [parse?_of_isWhole (by simpa using hwhole)] at hparse
  obtain rfl := Option.some.inj hparse
  cases hnegated

/-- A pattern that is no lone star or dot comes from the text, or from what follows an exclamation mark. -/
theorem source_of_parse? {text : Bytes} {p : PathPattern} (hwhole : isWhole text = false)
    (hparse : parse? text = some p) :
    (p.negated = false ∧ Source text p) ∨
      (p.negated = true ∧ ∃ body, text = 33 :: body ∧ Source body p) := by
  have hsource (negated : Bool) (body : Bytes) (hbody : (let scanned := (scan body).1
      let relative := if scanned.head? == some 47 then scanned.tail else scanned
      let line := if relative.getLast? == some 13 then relative.dropLast else relative
      let trimmed := (dropBlanksReversed line.reverse).reverse
      if trimmed.isEmpty then none
      else
        let named := if trimmed.getLast? == some 47 then trimmed.dropLast else trimmed
        some ⟨negated, false, (scan body).2, unescapeBlanks named⟩) = some p) :
      p.negated = negated ∧ Source body p := by
    obtain ⟨lead, slash, rest, hscanned, hnamed, hlead, hslash, hrest⟩ := parts_of_scanned (scan body).1
    obtain ⟨cut, hcut, hcut'⟩ := scan_append body
    simp only [Option.ite_none_left_eq_some, Option.some.injEq] at hbody
    obtain ⟨-, rfl⟩ := hbody
    refine ⟨rfl, rfl, rfl, lead, _, slash, rest ++ cut, ?_, hlead, hslash, hrest.append hcut', hnamed,
      rfl⟩
    refine hcut.trans ((congrArg (· ++ cut) hscanned).trans ?_)
    simp only [List.append_assoc]
  unfold parse? at hparse
  rw [hwhole, if_neg Bool.false_ne_true] at hparse
  cases text with
  | nil => cases hparse
  | cons first rest =>
    simp only [] at hparse
    by_cases hcomment : (first == 35 || first == 10) = true
    · rw [if_pos hcomment] at hparse
      cases hparse
    · rw [if_neg hcomment] at hparse
      cases hmark : first == 33 with
      | true =>
        rw [hmark] at hparse
        obtain ⟨hnegated, hbody⟩ := hsource true rest hparse
        exact .inr ⟨hnegated, rest, by rw [eq_of_beq hmark], hbody⟩
      | false =>
        rw [hmark] at hparse
        exact .inl (hsource false (first :: rest) hparse)

theorem Source.text_sublist {body : Bytes} {p : PathPattern} (hsource : Source body p) :
    p.text.Sublist body := by
  obtain ⟨lead, named, slash, rest, rfl, -, -, -, -, htext⟩ := hsource.parts
  rw [htext]
  exact (unescapeBlanks_sublist named).trans
    ((List.sublist_append_left _ _).trans (List.sublist_append_right _ _))

/-- If nothing but dots and slashes has been dropped, that is a slash on either side at most, and the
whole text has been looked through for wildcards. -/
theorem Source.eq_of_solid {body : Bytes} {p : PathPattern} (hsource : Source body p)
    (hsolid : solid body ≤ solid p.text) :
    (scan body).1 = body ∧ unescapeBlanks p.text = p.text ∧ ∃ lead slash, body = lead ++ (p.text ++ slash) ∧
      (lead = [] ∨ lead = [47]) ∧ (slash = [] ∨ slash = [47]) := by
  obtain ⟨lead, named, slash, rest, hbody, hlead, hslash, hrest, hnamed, htext⟩ := hsource.parts
  obtain ⟨cut, hcut, hcut'⟩ := scan_append body
  have hlost : solid p.text ≤ solid named := htext ▸ solid_le_of_sublist (unescapeBlanks_sublist named)
  have hscanned := solid_le_of_sublist hnamed
  have hparts := congrArg solid hbody
  have hwhole := congrArg solid hcut
  simp only [solid_append] at hparts hwhole
  obtain rfl : rest = [] := hrest.resolve_right (by omega)
  obtain rfl : cut = [] := hcut'.resolve_right (by omega)
  rw [List.append_nil] at hcut
  have heq : unescapeBlanks named = named := unescapeBlanks_eq_of_solid (by rw [← htext]; omega)
  refine ⟨hcut.symm, by rw [htext, heq, heq], lead, slash, ?_, hlead, hslash⟩
  rw [htext, heq]
  simpa only [List.append_nil] using hbody

end PathPattern

end CommitVerdict
