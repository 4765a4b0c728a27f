import CommitVerdict.Proofs.Area.Spelling

namespace CommitVerdict

open Bytes

namespace PathPattern

/-- Whether a byte means more than itself somewhere in a pattern. -/
def isSpecial (b : UInt8) : Bool :=
  Glob.isWildcard b || b == 92 || b == 33 || b == 35 || isBlankByte b

/-- The characters of these bytes. -/
def specialChars : List Char :=
  ['*', '?', '[', '\\', '!', '#', ' ', '\t', '\n', '\x0b', '\x0c', '\r']

theorem exists_specialChar {b : UInt8} (hspecial : isSpecial b = true) :
    ∃ c ∈ specialChars, UInt8.ofNat c.toNat = b := by
  have hblank : 9 ≤ b → b ≤ 13 → b = 9 ∨ b = 10 ∨ b = 11 ∨ b = 12 ∨ b = 13 := by
    intro hlow hhigh
    simp only [UInt8.le_iff_toNat_le, ← UInt8.toNat_inj] at hlow hhigh ⊢
    simp only [UInt8.reduceToNat] at hlow hhigh ⊢
    omega
  simp only [isSpecial, Glob.isWildcard, isBlankByte, Bool.or_eq_true, Bool.and_eq_true, beq_iff_eq,
    decide_eq_true_eq] at hspecial
  apply List.mem_map.mp
  rcases hspecial with ((((((rfl | rfl) | rfl) | rfl) | rfl) | rfl) | ⟨hlow, hhigh⟩ | rfl)
  case inr.inl =>
    rcases hblank hlow hhigh with rfl | rfl | rfl | rfl | rfl <;> decide
  all_goals decide

section Unspecial

variable {e : Bytes} (hplain : ∀ b ∈ e, isSpecial b = false)

include hplain

theorem notMem_backslash : (92 : UInt8) ∉ e := by
  intro hmem
  exact absurd (hplain 92 hmem) (by decide)

theorem isLiteral_of_unspecial : ∀ b ∈ e, Glob.isLiteral b = true := by
  intro b hb
  have hwild := hplain b hb
  simp only [isSpecial, Bool.or_eq_false_iff] at hwild
  have hback : b ≠ 92 := by simpa using hwild.1.1.1.2
  simp [Glob.isLiteral, hwild.1.1.1.1, hback]

theorem scan_of_unspecial : scan e = (e, false) := by
  induction e with
  | nil => rfl
  | cons b e ih =>
    obtain ⟨hb, htail⟩ := List.forall_mem_cons.mp hplain
    simp only [isSpecial, Bool.or_eq_false_iff, beq_eq_false_iff_ne] at hb
    rw [scan.eq_3 _ _ (by rintro c tail rfl -; exact hb.1.1.1.2 rfl), ih htail]
    simp [hb.2, hb.1.1.1.1]

theorem unescapeBlanks_of_unspecial : unescapeBlanks e = e := by
  simpa using unescapeBlanks_backslashes (notMem_backslash hplain) 0

theorem dropBlanks_of_unspecial : dropBlanksReversed e.reverse = e.reverse := by
  cases hreverse : e.reverse with
  | nil => rfl
  | cons b rest =>
    have hb := hplain b (List.mem_reverse.mp (hreverse ▸ List.mem_cons_self))
    have hblank : (b == 32 || b == 9) = false := by
      rw [Bool.eq_false_iff]
      intro hblank
      simp only [Bool.or_eq_true, beq_iff_eq] at hblank
      rcases hblank with rfl | rfl <;> simp [isSpecial, isBlankByte] at hb
    rw [dropBlanksReversed, hblank]
    rfl

/-- A text without special bytes and without a leading slash writes the pattern of itself, less a slash at
the end. -/
theorem parse?_of_unspecial (hne : e ≠ []) (hdot : e ≠ [46]) (hslash : e.head? ≠ some 47) :
    parse? e = some ⟨false, false, false, if e.getLast? == some 47 then e.dropLast else e⟩ := by
  obtain ⟨b, rest, rfl⟩ := List.exists_cons_of_ne_nil hne
  have hspecial := hplain b List.mem_cons_self
  simp only [isSpecial, Glob.isWildcard, Bool.or_eq_false_iff, beq_eq_false_iff_ne] at hspecial
  have hwhole : isWhole (b :: rest) = false := by
    have hstar : b :: rest ≠ [42] := by
      intro heq
      exact hspecial.1.1.1.1.1.1 (List.cons.inj heq).1
    simp only [isWhole, Bool.or_eq_false_iff, beq_eq_false_iff_ne]
    exact ⟨hstar, hdot⟩
  have hcomment : (b == 35 || b == 10) = false := by
    have hline : b ≠ 10 := by
      rintro rfl
      exact absurd hspecial.2 (by decide)
    simp [hspecial.1.2, hline]
  have hnegated : (b == 33) = false := by simp [hspecial.1.1.2]
  have hleading : ((b :: rest).head? == some 47) = false := by simpa using hslash
  have hreturn : ((b :: rest).getLast? == some 13) = false := by
    rw [Bool.eq_false_iff]
    intro hlast
    have hmem := List.mem_of_getLast? (by simpa using hlast)
    exact absurd (hplain 13 hmem) (by decide)
  have hdropped := dropBlanks_of_unspecial hplain
  have hnamed : unescapeBlanks (if (b :: rest).getLast? == some 47 then (b :: rest).dropLast else b :: rest) =
      if (b :: rest).getLast? == some 47 then (b :: rest).dropLast else b :: rest := by
    split
    · exact unescapeBlanks_of_unspecial fun c hc => hplain c ((List.dropLast_sublist _).mem hc)
    · exact unescapeBlanks_of_unspecial hplain
  rw [parse?, hwhole, if_neg Bool.false_ne_true]
  simp only [hcomment, Bool.false_eq_true, if_false, hnegated, scan_of_unspecial hplain, hleading, hreturn,
    hdropped, List.reverse_reverse, List.isEmpty_cons, hnamed]

theorem stemOf_of_unspecial : Pathspec.stemOf e = e := by
  have hunescape := Pathspec.unescape_append (notMem_backslash hplain) []
  rw [Pathspec.stemOf, beforeWildcard_of_scan (scan_of_unspecial hplain)]
  simpa [Pathspec.unescape] using hunescape

theorem covers_iff_of_unspecial {path : Bytes} :
    Covers ⟨false, false, false, e⟩ path ↔ Below e path := by
  have hmatch : Glob.isMatch e path = true ↔ path = e := by
    have hliteral : Glob.isMatch (e ++ List.replicate 0 92) path = true ↔ _ :=
      Glob.isMatch_literal_iff (isLiteral_of_unspecial hplain) 0
    simpa using hliteral
  rw [Covers, hmatch, below_iff]
  constructor
  · rintro (habsurd | heq | heq | ⟨-, hbelow⟩)
    · cases habsurd
    · exact .inl heq
    · exact .inl heq.symm
    · exact .inr hbelow
  · rintro (heq | hbelow)
    · exact .inr (.inl heq)
    · exact .inr (.inr (.inr ⟨rfl, hbelow⟩))

end Unspecial

end PathPattern

/-- A path of whose names no character has a meaning in patterns. -/
def Path.Plain (p : Path) : Prop := ∀ name ∈ p, ∀ c ∈ name.toList, c ∉ PathPattern.specialChars

namespace PathText

variable {s : String}

theorem isSpecial_of_plain (hplain : (names s).Plain) : ∀ b ∈ Utf8.encode s, PathPattern.isSpecial b = false := by
  intro b hb
  by_contra hspecial
  obtain ⟨c, hc, rfl⟩ := PathPattern.exists_specialChar (by simpa using hspecial)
  have hchars : ∀ d ∈ PathPattern.specialChars, d.toNat < 128 ∧ d ≠ '/' ∧ d ≠ '.' := by
    simp [PathPattern.specialChars]
  have hchar := hchars c hc
  obtain ⟨piece, hpiece, hmem⟩ := exists_piece ((Utf8.mem_encodeChars_iff hchar.1).mp hb) hchar.2.1
  have hname : isName piece = true := by
    have hdot : piece ≠ ['.'] := by
      rintro rfl
      exact hchar.2.2 (List.mem_singleton.mp hmem)
    simp [isName, hdot, List.ne_nil_of_mem hmem]
  have hnames : String.ofList piece ∈ names s :=
    List.mem_map_of_mem (List.mem_filter.mpr ⟨hpiece, hname⟩)
  exact hplain _ hnames c (by simpa using hmem) hc

/-- The pieces of a text that a path begins with are names of the path. -/
theorem eq_toText_of_below {p : Path} (hp : p.isTrackable = true)
    (hbelow : Below (Utf8.encode s) p.bytes) : s = Path.toText (names s) ∧ names s <+: p := by
  let area : Path := (pieces s.toList).map String.ofList
  have htext : area.toText = s := toText_pieces s
  have hnamed : area.Named := by
    intro name hname
    obtain ⟨piece, hpiece, rfl⟩ := List.mem_map.mp hname
    simpa using notMem_of_mem_pieces hpiece
  have hbegins : area <+: p := by
    apply Path.isPrefix_of_below_bytes hnamed (Path.IsTrackable.named hp) (Path.IsTrackable.ne_nil hp)
    rwa [Path.bytes, htext]
  have hall : ∀ piece ∈ pieces s.toList, isName piece = true := by
    intro piece hpiece
    have hname : String.ofList piece ∈ p := hbegins.subset (List.mem_map_of_mem hpiece)
    simp only [Path.isTrackable, Bool.and_eq_true, List.all_eq_true] at hp
    simpa using isName_of_trackable (hp.2 _ hname)
  have hnames : names s = area := by rw [names, List.filter_eq_self.mpr hall]
  exact ⟨by rw [hnames, htext], hnames ▸ hbegins⟩

end PathText

namespace Pathspec

open PathText

/-- Without special bytes a text selects what begins with it and goes on, behind what the pattern is, with a
slash if at all. -/
theorem selects_iff_of_unspecial {s : String} (hrelative : isAbsolute s = false)
    (hunspecial : ∀ b ∈ Utf8.encode s, PathPattern.isSpecial b = false) (hs : s ≠ "") (hdot : s ≠ ".")
    {p : Path} :
    (ofTexts [s]).selects p = true ↔ Utf8.encode s <+: p.bytes ∧
      Below (if (Utf8.encode s).getLast? == some 47 then (Utf8.encode s).dropLast else Utf8.encode s)
        p.bytes := by
  have hne : Utf8.encode s ≠ [] := fun hempty => hs (Utf8.encode_injective hempty)
  have hdot' : Utf8.encode s ≠ [46] := fun hlone => hdot (Utf8.encode_injective hlone)
  have hhead : (Utf8.encode s).head? ≠ some 47 := by
    intro hslash
    obtain ⟨rest, hrest⟩ := List.head?_eq_some_iff.mp hslash
    have hfirst := Utf8.head_of_encode (d := '/') (by decide) hrest
    simp [isAbsolute, hfirst] at hrelative
  have hbody : ∀ b ∈ (if (Utf8.encode s).getLast? == some 47 then (Utf8.encode s).dropLast
      else Utf8.encode s), PathPattern.isSpecial b = false := by
    split
    · exact fun b hb => hunspecial b ((List.dropLast_sublist _).mem hb)
    · exact hunspecial
  rw [selects_ofTexts_iff, PathPattern.stemOf_of_unspecial hunspecial,
    PathPattern.parse?_of_unspecial hunspecial hne hdot' hhead]
  simp only [Option.some.injEq, forall_eq', PathPattern.judge_eq_some_true_iff, true_and,
    Bool.false_eq_true, false_and, or_false, PathPattern.covers_iff_of_unspecial hbody]

/-- A trackable path has no empty name, so its text has no slash at the end. -/
theorem toText_ne_concat_slash {p : Path} (hp : p.isTrackable = true) (t : String) :
    p.toText ≠ t ++ "/" := by
  intro htext
  have hpieces := pieces_toText (Path.IsTrackable.named hp) (Path.IsTrackable.ne_nil hp)
  rw [htext, String.toList_append] at hpieces
  have hempty : [] ∈ p.map String.toList := by
    rw [← hpieces]
    exact (pieces_concat_slash t.toList).symm ▸ List.mem_append_right _ (List.mem_singleton_self _)
  obtain ⟨name, hname, hnil⟩ := List.mem_map.mp hempty
  simp only [Path.isTrackable, Bool.and_eq_true, List.all_eq_true] at hp
  have hnone := hp.2 name hname
  simp [Path.isTrackableName, hnil] at hnone

theorem toText_injective_of_trackable {p q : Path} (hp : p.isTrackable = true) (hq : q.isTrackable = true)
    (htext : p.toText = q.toText) : p = q := by
  rw [← components_toText hp, ← components_toText hq, htext]

/-- With a slash at the end a plain directory is selected only if the rest is its plain spelling, with what lies
below it, and without a file in its own place. -/
theorem selects_concat_slash_iff {t : String} (hrelative : isAbsolute (t ++ "/") = false)
    (hplain : (names t).Plain) (hnames : Path.isTrackable (names t) = true) {p : Path}
    (hp : p.isTrackable = true) :
    (ofTexts [t ++ "/"]).selects p = true ↔
      t = Path.toText (names t) ∧ names t <+: p ∧ names t ≠ p := by
  have hne : t ++ "/" ≠ "" := by simp
  have hdot : t ++ "/" ≠ "." := by
    intro hlone
    have hlast := congrArg (fun s => s.toList.getLast?) hlone
    simp [String.toList_append] at hlast
  have hspelled := names_concat_slash t
  have hencode : Utf8.encode (t ++ "/") = Utf8.encode t ++ [47] := Utf8.encode_append t "/"
  rw [selects_iff_of_unspecial hrelative (isSpecial_of_plain (hspelled.symm ▸ hplain)) hne hdot, hencode,
    List.getLast?_concat, List.dropLast_concat, if_pos (beq_self_eq_true _)]
  constructor
  · rintro ⟨hstem, hbelow⟩
    obtain ⟨htext, hbegins⟩ := eq_toText_of_below hp hbelow
    refine ⟨htext, hbegins, ?_⟩
    rintro rfl
    have hlength := hstem.length_le
    rw [Path.bytes, ← htext, List.length_append, List.length_singleton] at hlength
    omega
  · rintro ⟨htext, hbegins, hdiffer⟩
    have hbelow : Below (Utf8.encode (Path.toText (names t))) p.bytes :=
      Path.below_bytes_of_isPrefix (Path.IsTrackable.ne_nil hnames) hbegins
    rw [← htext] at hbelow
    refine ⟨(below_iff.mp hbelow).resolve_left fun heq => ?_, hbelow⟩
    have hsame : Path.toText (names t) = p.toText := by
      rw [← htext]
      exact Utf8.encode_injective heq
    exact hdiffer (toText_injective_of_trackable hnames hp hsame)

/-- Without a slash at the end a plain directory is selected only if it is spelled plainly. -/
theorem selects_iff_of_no_slash {s : String} (hrelative : isAbsolute s = false)
    (hplain : (names s).Plain) (hnames : Path.isTrackable (names s) = true) (hend : ∀ t, s ≠ t ++ "/")
    {p : Path} (hp : p.isTrackable = true) :
    (ofTexts [s]).selects p = true ↔ s = Path.toText (names s) ∧ names s <+: p := by
  have hne : s ≠ "" := by
    rintro rfl
    exact absurd hnames (by decide)
  have hdot : s ≠ "." := by
    rintro rfl
    exact absurd hnames (by decide)
  have hlast : ((Utf8.encode s).getLast? == some 47) = false := by
    rw [Bool.eq_false_iff]
    intro hlast
    obtain ⟨front, hfront⟩ := List.getLast?_eq_some_iff.mp (by simpa using hlast)
    obtain ⟨start, hstart, -⟩ :=
      Utf8.exists_replicate_of_encodeChars (d := '/') (n := 1) (by decide) hfront
    refine hend (String.ofList start) (String.toList_inj.mp ?_)
    rw [String.toList_append, String.toList_ofList, hstart]
    rfl
  rw [selects_iff_of_unspecial hrelative (isSpecial_of_plain hplain) hne hdot, hlast]
  constructor
  · rintro ⟨-, hbelow⟩
    exact eq_toText_of_below hp hbelow
  · rintro ⟨htext, hbegins⟩
    have hbelow : Below (Utf8.encode (Path.toText (names s))) p.bytes :=
      Path.below_bytes_of_isPrefix (Path.IsTrackable.ne_nil hnames) hbegins
    rw [← htext] at hbelow
    exact ⟨hbelow.isPrefix, hbelow⟩

/-- A plain directory is selected by its plain spelling, with what lies below it, and with a slash at the
end, without a file in its own place. No other spelling selects any file. -/
theorem selects_iff_of_plain {s : String} (hrelative : isAbsolute s = false)
    (hplain : (names s).Plain) (hnames : Path.isTrackable (names s) = true) {p : Path}
    (hp : p.isTrackable = true) :
    (ofTexts [s]).selects p = true ↔
      (s = Path.toText (names s) ∧ names s <+: p) ∨
        (s = Path.toText (names s) ++ "/" ∧ names s <+: p ∧ names s ≠ p) := by
  by_cases hend : ∃ t, s = t ++ "/"
  · obtain ⟨t, rfl⟩ := hend
    rw [names_concat_slash] at hplain hnames ⊢
    have hopen : ¬t ++ "/" = Path.toText (names t) := (toText_ne_concat_slash hnames t).symm
    rw [selects_concat_slash_iff hrelative hplain hnames hp, String.append_left_inj]
    simp only [hopen, false_and, false_or]
  · have hend : ∀ t, s ≠ t ++ "/" := not_exists.mp hend
    rw [selects_iff_of_no_slash hrelative hplain hnames hend hp]
    simp only [hend, false_and, or_false]

/-- Two spellings of a plain directory select the same files exactly if they are the same as for the plain
one and as for the one with a slash at its end. -/
theorem selects_eq_iff_of_plain {s t : String} (hsame : SameDirectory s t) (hplain : (names s).Plain)
    (hnames : Path.isTrackable (names s) = true) :
    (∀ p : Path, p.isTrackable = true → (ofTexts [s]).selects p = (ofTexts [t]).selects p) ↔
      (s = Path.toText (names s) ↔ t = Path.toText (names s)) ∧
        (s = Path.toText (names s) ++ "/" ↔ t = Path.toText (names s) ++ "/") := by
  have hs {p : Path} (hp : p.isTrackable = true) :=
    selects_iff_of_plain hsame.left_relative hplain hnames hp
  have ht {p : Path} (hp : p.isTrackable = true) :=
    selects_iff_of_plain hsame.right_relative (hsame.names_eq ▸ hplain) (hsame.names_eq ▸ hnames) hp
  rw [← hsame.names_eq] at ht
  constructor
  · intro halike
    have hroot := Path.isTrackable_below hnames 0
    have hbegins : names s <+: (names s).below 0 := List.prefix_append _ _
    have hne : names s ≠ (names s).below 0 := by
      intro heq
      have hlength := congrArg List.length heq
      rw [Path.below, List.length_append, List.length_singleton] at hlength
      omega
    have hplace : s = Path.toText (names s) ↔ t = Path.toText (names s) := by
      have hread := hs hnames
      rw [halike _ hnames, ht hnames] at hread
      simpa using hread.symm
    have hinside := hs hroot
    rw [halike _ hroot, ht hroot] at hinside
    simp only [hbegins, hne, ne_eq, not_false_eq_true, and_true] at hinside
    refine ⟨hplace, ?_⟩
    have hslash (u : String) (hu : u = Path.toText (names s) ++ "/") : u ≠ Path.toText (names s) := by
      intro hopen
      exact toText_ne_concat_slash hnames _ (hopen.symm.trans hu)
    constructor
    · intro hsplit
      exact (hinside.mpr (.inr hsplit)).resolve_left fun hopen => hslash s hsplit (hplace.mpr hopen)
    · intro hsplit
      exact (hinside.mp (.inr hsplit)).resolve_left fun hopen => hslash t hsplit (hplace.mp hopen)
  · rintro ⟨hplace, hslash⟩ p hp
    rw [Bool.eq_iff_iff, hs hp, ht hp, hplace, hslash]

end Pathspec

end CommitVerdict
