import CommitVerdict.Proofs.Area.Spelling

namespace CommitVerdict

namespace PathText

/-- Whether a slash or the end of the text comes next. -/
def endsPiece : List Char → Bool
  | [] => true
  | c :: _ => c == '/'

def tidiedChars : List Char → List Char
  | [] => []
  | '/' :: '.' :: rest => if endsPiece rest then tidiedChars rest else '/' :: '.' :: tidiedChars rest
  | '/' :: rest => if endsPiece rest then tidiedChars rest else '/' :: tidiedChars rest
  | c :: rest => c :: tidiedChars rest

/-- The text without repeated slashes, slashes at the end and lone dots behind a slash. -/
def tidied (s : String) : String := String.ofList (tidiedChars s.toList)

/-- A text that is names with single slashes between them, none of them empty or a lone dot. -/
def SpelledOut (f : String) : Prop :=
  ∃ p : Path, p.Named ∧ (∀ name ∈ p, isName name.toList = true) ∧ p.toText = f

variable {cs rest first : List Char} {more : List (List Char)} {f area : String}

section Tidying

theorem pieces_of_endsPiece (hends : endsPiece rest = true) : ∃ more, pieces rest = [] :: more := by
  cases rest with
  | nil => exact ⟨[], rfl⟩
  | cons c rest =>
    obtain rfl : c = '/' := beq_iff_eq.mp hends
    exact ⟨pieces rest, pieces_slash rest⟩

theorem pieces_of_not_endsPiece (hends : ¬endsPiece rest = true) :
    ∃ c cs piece more, rest = c :: cs ∧ pieces rest = (c :: piece) :: more := by
  cases rest with
  | nil => exact absurd rfl hends
  | cons c cs =>
    have hc : c ≠ '/' := by simpa [endsPiece] using hends
    obtain ⟨piece, more, hpieces⟩ := List.exists_cons_of_ne_nil (pieces_ne_nil cs)
    exact ⟨c, cs, piece, more, rfl, pieces_cons_of_ne hc hpieces⟩

/-- Tidying takes away the pieces that are no names, but for the first one. -/
theorem pieces_tidiedChars (hpieces : pieces cs = first :: more) :
    pieces (tidiedChars cs) = first :: more.filter isName := by
  fun_induction tidiedChars cs generalizing first more with
  | case1 =>
    cases hpieces
    rfl
  | case2 rest hends ih =>
    obtain ⟨others, hrest⟩ := pieces_of_endsPiece hends
    rw [pieces_slash, pieces_cons_of_ne (by decide) hrest] at hpieces
    cases hpieces
    rw [ih hrest, List.filter_cons_of_neg (by decide)]
  | case3 rest hends ih =>
    obtain ⟨c, cs, piece, others, -, hrest⟩ := pieces_of_not_endsPiece hends
    rw [pieces_slash, pieces_cons_of_ne (by decide) hrest] at hpieces
    cases hpieces
    rw [pieces_slash, pieces_cons_of_ne (by decide) (ih hrest), List.filter_cons_of_pos (by simp [isName])]
  | case4 rest hdot hends ih =>
    obtain ⟨others, hrest⟩ := pieces_of_endsPiece hends
    rw [pieces_slash, hrest] at hpieces
    cases hpieces
    rw [ih hrest, List.filter_cons_of_neg (by decide)]
  | case5 rest hdot hends ih =>
    obtain ⟨c, cs, piece, others, rfl, hrest⟩ := pieces_of_not_endsPiece hends
    have hc : c ≠ '.' := fun heq => hdot cs (heq ▸ rfl)
    rw [pieces_slash, hrest] at hpieces
    cases hpieces
    rw [pieces_slash, ih hrest, List.filter_cons_of_pos (by simp [isName, hc])]
  | case6 c rest hdot hslash ih =>
    have hc : c ≠ '/' := fun heq => hslash heq
    obtain ⟨piece, others, hrest⟩ := List.exists_cons_of_ne_nil (pieces_ne_nil rest)
    rw [pieces_cons_of_ne hc hrest] at hpieces
    cases hpieces
    exact pieces_cons_of_ne hc (ih hrest)

/-- A relative text that does not begin with a lone dot has the pieces of its tidied text as components. -/
theorem components_eq_pieces_tidied (hrelative : isAbsolute area = false) (hdotted : ¬Dotted area)
    (hne : area ≠ "") : components area = (pieces (tidied area).toList).map String.ofList := by
  obtain ⟨first, more, hpieces⟩ := List.exists_cons_of_ne_nil (pieces_ne_nil area.toList)
  have hfirst : isName first = true := by
    obtain ⟨c, cs, hcs⟩ := List.exists_cons_of_ne_nil (mt String.toList_eq_nil_iff.mp hne)
    have hc : c ≠ '/' := by simpa [isAbsolute, hcs] using hrelative
    obtain ⟨piece, others, hrest⟩ := List.exists_cons_of_ne_nil (pieces_ne_nil cs)
    rw [hcs, pieces_cons_of_ne hc hrest] at hpieces
    cases hpieces
    have hdot : c :: piece ≠ ['.'] := by simpa [Dotted, hcs, pieces_cons_of_ne hc hrest] using hdotted
    simpa [isName] using hdot
  rw [components_of_relative hrelative, if_neg hdotted, names, hpieces, List.filter_cons_of_pos hfirst, tidied,
    String.toList_ofList, pieces_tidiedChars hpieces]

example : tidied "src//./lib/." = "src/lib" := by decide

theorem tidied_ne_empty (hrelative : isAbsolute area = false) (hne : area ≠ "") : tidied area ≠ "" := by
  obtain ⟨c, cs, hcs⟩ := List.exists_cons_of_ne_nil (mt String.toList_eq_nil_iff.mp hne)
  have hc : c ≠ '/' := by simpa [isAbsolute, hcs] using hrelative
  have hchars : tidiedChars (c :: cs) = c :: tidiedChars cs := by
    rw [tidiedChars] <;> simp [hc]
  simp [tidied, hcs, hchars]

end Tidying

/-- The pieces of one text begin with those of another one exactly if the text is the other one, or goes on
behind it with a slash. -/
theorem pieces_isPrefix_iff :
    pieces area.toList <+: pieces f.toList ↔ f = area ∨ (area ++ "/").toList <+: f.toList := by
  constructor
  · rintro ⟨more, hmore⟩
    by_cases hnil : more = []
    · left
      rw [← toText_pieces f, ← hmore, hnil, List.append_nil, toText_pieces]
    · right
      have hf : f = area ++ "/" ++ Path.toText (more.map String.ofList) := by
        calc f = Path.toText ((pieces area.toList).map String.ofList ++ more.map String.ofList) := by
              rw [← List.map_append, hmore, toText_pieces]
          _ = Path.toText ((pieces area.toList).map String.ofList) ++ "/" ++
              Path.toText (more.map String.ofList) :=
              String.intercalate_append_of_ne_nil (mt List.map_eq_nil_iff.mp (pieces_ne_nil _))
                (mt List.map_eq_nil_iff.mp hnil)
          _ = area ++ "/" ++ Path.toText (more.map String.ofList) := by rw [toText_pieces]
      exact ⟨(Path.toText (more.map String.ofList)).toList, by rw [← String.toList_append, ← hf]⟩
  · rintro (rfl | ⟨rest, hrest⟩)
    · exact List.prefix_refl _
    · have hslash : (area ++ "/").toList = area.toList ++ ['/'] := String.toList_append
      rw [← hrest, hslash, List.append_assoc, List.singleton_append, pieces_eq_splitOn, pieces_eq_splitOn,
        List.splitOn_append_cons_self]
      exact List.prefix_append _ _

/-- An absolute text begins with a component that no name is. -/
theorem components_of_absolute (habsolute : isAbsolute area = true) : ∃ more, components area = "/" :: more := by
  obtain ⟨cs, hcs⟩ := List.head?_eq_some_iff.mp (beq_iff_eq.mp habsolute)
  obtain ⟨piece, more, hpieces⟩ := List.exists_cons_of_ne_nil (pieces_ne_nil cs)
  simp [components, hcs, pieces_slash, hpieces]

/-- What lies below an area, going by the texts. -/
def Extends (f area : String) : Prop :=
  isAbsolute area = false ∧ ¬Dotted area ∧
    (tidied area = "" ∨ f = tidied area ∨ (tidied area ++ "/").toList <+: f.toList)

theorem isBelow_iff_extends (hspelled : SpelledOut f) : isBelow f area = true ↔ Extends f area := by
  obtain ⟨p, hnamed, hnames, rfl⟩ := hspelled
  have hbelow : isBelow p.toText area = true ↔ components area <+: p := by
    rw [isBelow, components_of_named hnamed hnames, List.isPrefixOf_iff_prefix]
  have hforeign (name : String) (hname : '/' ∈ name.toList ∨ isName name.toList = false) (more : List String) :
      ¬name :: more <+: p := by
    rintro ⟨rest, rfl⟩
    rcases hname with hslash | hdot
    · exact hnamed name List.mem_cons_self hslash
    · exact absurd (hnames name List.mem_cons_self) (by simp [hdot])
  rw [hbelow, Extends]
  cases hrelative : isAbsolute area with
  | true =>
    obtain ⟨more, hcomponents⟩ := components_of_absolute hrelative
    rw [hcomponents]
    exact iff_of_false (hforeign "/" (.inl (by decide)) more) (by simp)
  | false =>
    by_cases hdotted : Dotted area
    · rw [components_of_relative hrelative, if_pos hdotted]
      exact iff_of_false (hforeign "." (.inr (by decide)) _) (fun h => h.2.1 hdotted)
    · simp only [hdotted, not_false_eq_true, true_and]
      by_cases hempty : area = ""
      · subst hempty
        exact iff_of_true List.nil_prefix (.inl rfl)
      · have htidied := tidied_ne_empty hrelative hempty
        rw [or_iff_right htidied, components_eq_pieces_tidied hrelative hdotted hempty]
        by_cases hp : p = []
        · subst hp
          refine iff_of_false (by simpa using pieces_ne_nil (tidied area).toList) ?_
          rintro (heq | hbegins)
          · exact htidied heq.symm
          · simpa [Path.toText] using hbegins.length_le
        · have hpieces : p = (pieces p.toText.toList).map String.ofList := by
            rw [pieces_toText hnamed hp, List.map_map]
            simp
          rw [← pieces_isPrefix_iff]
          conv_lhs => rw [hpieces]
          exact List.prefix_map_iff_of_injective fun _ _ => String.ofList_injective

/-- A file whose text goes on behind the tidied text of an area, but with no slash. -/
def Beside (f area : String) : Prop :=
  tidied area ≠ "" ∧ ∃ c, c ≠ '/' ∧ ((tidied area).push c).toList <+: f.toList

theorem not_extends_of_beside (hbeside : Beside f area) : ¬Extends f area := by
  obtain ⟨hne, c, hc, hbegins⟩ := hbeside
  rw [String.toList_push] at hbegins
  rintro ⟨-, -, hempty | rfl | hbelow⟩
  · exact hne hempty
  · exact absurd hbegins.length_le (by simp)
  · have hslash : (tidied area ++ "/").toList = (tidied area).toList ++ ['/'] := String.toList_append
    rw [hslash] at hbelow
    have hsame := (List.prefix_of_prefix_length_le hbegins hbelow (by simp)).eq_of_length (by simp)
    exact hc (by simpa using hsame)

end PathText

namespace ChangeSet

open PathText

variable {files : List String} {area : String} {layout : ProjectLayout}

/-- A list of files touches an area, going by the texts. -/
def Touches (files : List String) (area : String) : Prop :=
  isAbsolute area = false ∧ ¬Dotted area ∧
    ((tidied area = "" ∧ files ≠ []) ∨
      ∃ f ∈ files, f = tidied area ∨ (tidied area ++ "/").toList <+: f.toList)

theorem touches_iff_exists_extends : Touches files area ↔ ∃ f ∈ files, Extends f area := by
  constructor
  · rintro ⟨hrelative, hdotted, ⟨hempty, hne⟩ | ⟨f, hf, htext⟩⟩
    · obtain ⟨f, rest, rfl⟩ := List.exists_cons_of_ne_nil hne
      exact ⟨f, List.mem_cons_self, hrelative, hdotted, .inl hempty⟩
    · exact ⟨f, hf, hrelative, hdotted, .inr htext⟩
  · rintro ⟨f, hf, hrelative, hdotted, hempty | htext⟩
    · exact ⟨hrelative, hdotted, .inl ⟨hempty, List.ne_nil_of_mem hf⟩⟩
    · exact ⟨hrelative, hdotted, .inr ⟨f, hf, htext⟩⟩

theorem any_isBelow_iff_touches (hfiles : ∀ f ∈ files, SpelledOut f) :
    files.any (isBelow · area) = true ↔ Touches files area := by
  rw [List.any_eq_true, touches_iff_exists_extends]
  exact exists_congr fun f => and_congr_right fun hf => isBelow_iff_extends (hfiles f hf)

theorem any_isBelow_cons_of_beside {f : String} (hf : SpelledOut f) (hbeside : Beside f area) :
    (f :: files).any (isBelow · area) = files.any (isBelow · area) := by
  have hnot : isBelow f area = false :=
    Bool.eq_false_iff.mpr (mt (isBelow_iff_extends hf).mp (not_extends_of_beside hbeside))
  rw [List.any_cons, hnot, Bool.false_or]

/-- A change set is what the texts of the changed files say. -/
structure GoesByTexts (files : List String) (layout : ProjectLayout) (changes : ChangeSet) : Prop where
  tests : changes.touchesTests = true ↔ Touches files layout.testsDir
  code : changes.touchesProductionCode = true ↔ Touches files layout.codeDir
  count : changes.filesChanged = files.length
  order : ∀ reordered : List String, reordered.Perm files → classify reordered layout = changes
  beside_tests : ∀ f, SpelledOut f → Beside f layout.testsDir →
    (classify (f :: files) layout).touchesTests = changes.touchesTests
  beside_code : ∀ f, SpelledOut f → Beside f layout.codeDir →
    (classify (f :: files) layout).touchesProductionCode = changes.touchesProductionCode

/-- An area is touched exactly if it is relative, does not begin with a lone dot, and is empty when tidied, or the
text of some file is its tidied text or goes on behind it with a slash. What goes on with anything else lies
beside it. -/
theorem classify_goesByTexts (files : List String) (layout : ProjectLayout) (hfiles : ∀ f ∈ files, SpelledOut f) :
    GoesByTexts files layout (classify files layout) where
  tests := any_isBelow_iff_touches hfiles
  code := any_isBelow_iff_touches hfiles
  count := rfl
  order reordered hperm := by
    rw [classify, classify, hperm.any_eq, hperm.any_eq, hperm.length_eq]
  beside_tests _ hf hbeside := any_isBelow_cons_of_beside hf hbeside
  beside_code _ hf hbeside := any_isBelow_cons_of_beside hf hbeside

/-- A change of production code, beside a directory that only begins with the name of the tests. -/
theorem classify_goesByTexts_sibling :
    (∀ f ∈ ["tests_util/a", "src/lib/b"], SpelledOut f) ∧
      GoesByTexts ["tests_util/a", "src/lib/b"] ⟨"tests", "src//./lib/"⟩ ⟨false, true, 2⟩ := by
  have hfiles : ∀ f ∈ ["tests_util/a", "src/lib/b"], SpelledOut f := by
    rw [List.forall_mem_cons, List.forall_mem_singleton]
    exact ⟨⟨["tests_util", "a"], by unfold Path.Named; decide, by decide, by decide⟩,
      ⟨["src", "lib", "b"], by unfold Path.Named; decide, by decide, by decide⟩⟩
  exact ⟨hfiles, classify_goesByTexts _ _ hfiles⟩

end ChangeSet

end CommitVerdict
