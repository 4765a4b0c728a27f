import CommitVerdict.PathText
import CommitVerdict.Proofs.Area.PathBytes
import Mathlib.Algebra.Ring.Nat

namespace CommitVerdict

namespace Bytes

/-- The number of bytes that no normalisation of a path drops: those that are no dot and no slash. -/
def solid (text : Bytes) : Nat := text.countP fun b => b != 46 && b != 47

@[simp]
theorem solid_append (a b : Bytes) : solid (a ++ b) = solid a + solid b := List.countP_append

theorem solid_cons (b : UInt8) (text : Bytes) :
    solid (b :: text) = solid text + if b != 46 && b != 47 then 1 else 0 := List.countP_cons

theorem solid_le_of_sublist {a b : Bytes} (hsublist : a.Sublist b) : solid a ≤ solid b :=
  hsublist.countP_le

end Bytes

namespace PathText

theorem pieces_eq_splitOn (cs : List Char) : pieces cs = cs.splitOn '/' := by
  induction cs with
  | nil => rfl
  | cons c cs ih =>
    rw [List.splitOn_cons_eq_if_modifyHead, ← ih, pieces]
    cases hpieces : pieces cs with
    | nil => exact absurd (ih.symm.trans hpieces) (List.splitOn_ne_nil '/' cs)
    | cons piece more => simp only [beq_iff_eq, List.modifyHead_cons]

theorem pieces_ne_nil (cs : List Char) : pieces cs ≠ [] := by
  rw [pieces_eq_splitOn]
  exact List.splitOn_ne_nil '/' cs

theorem pieces_slash (cs : List Char) : pieces ('/' :: cs) = [] :: pieces cs := by
  rw [pieces_eq_splitOn, pieces_eq_splitOn, List.splitOn_cons_eq_if_modifyHead]
  rfl

theorem pieces_cons_of_ne {c : Char} (hc : c ≠ '/') {cs piece : List Char} {more : List (List Char)}
    (hpieces : pieces cs = piece :: more) : pieces (c :: cs) = (c :: piece) :: more := by
  rw [pieces, hpieces]
  exact if_neg hc

theorem pieces_concat_slash (cs : List Char) : pieces (cs ++ ['/']) = pieces cs ++ [[]] := by
  rw [pieces_eq_splitOn, pieces_eq_splitOn, List.splitOn_append_cons_self, List.splitOn_nil]

theorem pieces_toText {p : Path} (hnamed : p.Named) (hne : p ≠ []) :
    pieces p.toText.toList = p.map String.toList := by
  rw [pieces_eq_splitOn, Path.toText, String.toList_intercalate]
  apply List.splitOn_intercalate
  · intro name hname
    obtain ⟨name, hmem, rfl⟩ := List.mem_map.mp hname
    exact hnamed name hmem
  · simpa using hne

/-- The pieces of a text with slashes between them are the text. -/
theorem toText_pieces (s : String) : Path.toText ((pieces s.toList).map String.ofList) = s := by
  apply String.toList_inj.mp
  rw [Path.toText, String.toList_intercalate, List.map_map, pieces_eq_splitOn]
  simp

theorem components_of_pieces {s : String} {piece : List Char} {more : List (List Char)}
    (hpieces : pieces s.toList = piece :: more) (hempty : piece ≠ []) (hdot : piece ≠ ['.']) :
    components s = ((piece :: more).filter isName).map String.ofList := by
  unfold components
  simp only [hpieces]
  split
  · rename_i heq
    exact absurd (List.cons.inj heq).1 hempty
  · rename_i heq
    exact absurd (List.cons.inj heq).1 hdot
  · rfl

theorem isName_of_trackable {name : String} (htrackable : Path.isTrackableName name = true) :
    isName name.toList = true := by
  simp only [Path.isTrackableName, Bool.and_eq_true] at htrackable
  simp only [isName, Bool.and_eq_true]
  exact ⟨htrackable.1.1.1.1, htrackable.1.1.2⟩

/-- The text of a path without empty names and lone dots has its names as components. -/
theorem components_of_named {p : Path} (hnamed : p.Named) (hnames : ∀ name ∈ p, isName name.toList = true) :
    components p.toText = p := by
  cases p with
  | nil => rfl
  | cons name rest =>
    have hfirst := hnames name List.mem_cons_self
    simp only [isName, Bool.and_eq_true, Bool.not_eq_true', bne_iff_ne] at hfirst
    have hall : ∀ piece ∈ (name :: rest).map String.toList, isName piece = true :=
      List.forall_mem_map.mpr hnames
    rw [components_of_pieces (pieces_toText hnamed (List.cons_ne_nil _ _)) (by simpa using hfirst.1) hfirst.2,
      ← List.map_cons, List.filter_eq_self.mpr hall, List.map_map]
    simp

/-- The text of a trackable path has its names as components. -/
theorem components_toText {p : Path} (htrackable : p.isTrackable = true) : components p.toText = p := by
  refine components_of_named (Path.IsTrackable.named htrackable) fun name hname => ?_
  simp only [Path.isTrackable, Bool.and_eq_true, List.all_eq_true] at htrackable
  exact isName_of_trackable (htrackable.2 name hname)

/-- The names that a text spells, without empty pieces and lone dots. -/
def names (s : String) : Path := ((pieces s.toList).filter isName).map String.ofList

/-- Whether a text begins with a lone dot. -/
def Dotted (s : String) : Prop := (pieces s.toList).head? = some ['.']

instance (s : String) : Decidable (Dotted s) :=
  inferInstanceAs (Decidable ((pieces s.toList).head? = some ['.']))

/-- Of the dots that a relative text spells, only one at its beginning is a component. -/
theorem components_of_relative {s : String} (hrelative : isAbsolute s = false) :
    components s = if Dotted s then "." :: names s else names s := by
  cases hs : s.toList with
  | nil =>
    have hdotted : ¬Dotted s := by simp [Dotted, hs, pieces]
    rw [if_neg hdotted]
    simp [components, names, hs, pieces]
  | cons c cs =>
    have hc : c ≠ '/' := by
      rintro rfl
      simp [isAbsolute, hs] at hrelative
    obtain ⟨piece, more, hpieces⟩ := List.exists_cons_of_ne_nil (pieces_ne_nil cs)
    have hfirst := pieces_cons_of_ne hc hpieces
    have hdotted : Dotted s ↔ c :: piece = ['.'] := by simp [Dotted, hs, hfirst]
    by_cases hdot : c :: piece = ['.']
    · rw [if_pos (hdotted.mpr hdot)]
      simp [components, names, hs, hfirst, hdot]
    · have hcomponents := components_of_pieces (hs ▸ hfirst) (List.cons_ne_nil _ _) hdot
      rw [if_neg (mt hdotted.mp hdot), hcomponents, names, hs, hfirst]

/-- If the components of a text can be tracked, the text has no leading slash and no leading dot. -/
theorem components_of_trackable {s : String} (htrackable : Path.isTrackable (components s) = true) :
    components s = names s ∧ s.toList.head? ≠ some '/' := by
  have hhead (name : String) (hname : Path.isTrackableName name = false) (rest : List String) :
      components s ≠ name :: rest := by
    intro heq
    simp [heq, Path.isTrackable, hname] at htrackable
  have hroot : s.toList.head? ≠ some '/' := by
    intro hslash
    obtain ⟨cs, hcs⟩ := List.head?_eq_some_iff.mp hslash
    obtain ⟨next, rest, hrest⟩ := List.exists_cons_of_ne_nil (pieces_ne_nil cs)
    refine hhead "/" (by decide) (names s) ?_
    simp only [components, names, hcs, pieces_slash, hrest]
    rfl
  have hrelative : isAbsolute s = false := by simpa [isAbsolute] using hroot
  have hcomponents := components_of_relative hrelative
  have hdotted : ¬Dotted s := by
    intro hdotted
    rw [if_pos hdotted] at hcomponents
    exact hhead "." (by decide) (names s) hcomponents
  rw [if_neg hdotted] at hcomponents
  exact ⟨hcomponents, hroot⟩

/-- Only the empty text has no components. -/
theorem components_ne_nil {s : String} (hs : s ≠ "") : components s ≠ [] := by
  obtain ⟨c, cs, hcs⟩ := List.exists_cons_of_ne_nil (mt String.toList_eq_nil_iff.mp hs)
  obtain ⟨piece, more, hpieces⟩ := List.exists_cons_of_ne_nil (pieces_ne_nil cs)
  by_cases hslash : c = '/'
  · simp [components, hcs, hslash, pieces_slash, hpieces]
  · have hfirst := pieces_cons_of_ne hslash hpieces
    by_cases hdot : c :: piece = ['.']
    · simp [components, hcs, hfirst, hdot]
    · have hname : isName (c :: piece) = true := by simpa [isName] using hdot
      rw [components_of_pieces (hcs ▸ hfirst) (List.cons_ne_nil _ _) hdot,
        List.filter_cons_of_pos hname]
      exact List.cons_ne_nil _ _

open Bytes in
theorem solid_pieces (cs : List Char) :
    ((pieces cs).map fun piece => solid (Utf8.encodeChars piece)).sum = solid (Utf8.encodeChars cs) := by
  have hcons (c : Char) (cs : List Char) : solid (Utf8.encodeChars (c :: cs)) =
      solid (Utf8.encodeChars [c]) + solid (Utf8.encodeChars cs) := by
    rw [← solid_append, ← Utf8.encodeChars_append, List.singleton_append]
  induction cs with
  | nil => rfl
  | cons c cs ih =>
    obtain ⟨piece, more, hpieces⟩ := List.exists_cons_of_ne_nil (pieces_ne_nil cs)
    rw [hcons, ← ih]
    by_cases hc : c = '/'
    · have hslash : solid (Utf8.encodeChars ['/']) = 0 := by decide
      rw [hc, pieces_slash, hslash, List.map_cons, List.sum_cons]
      rfl
    · rw [pieces_cons_of_ne hc hpieces, hpieces, List.map_cons, List.sum_cons, List.map_cons,
        List.sum_cons, hcons, Nat.add_assoc]

open Bytes in
theorem solid_bytes (p : Path) : solid p.bytes = (p.map fun name => solid (Utf8.encode name)).sum := by
  induction p with
  | nil => rfl
  | cons name p ih =>
    by_cases hp : p = []
    · rw [hp, Path.bytes_singleton]
      rfl
    · have hslash (text : Bytes) : solid (47 :: text) = solid text := by simp [solid]
      rw [← List.singleton_append, Path.bytes_append (List.cons_ne_nil _ _) hp, Path.bytes_singleton,
        solid_append, hslash, ih, List.singleton_append, List.map_cons, List.sum_cons]

/-- Taking a text apart drops nothing but dots and slashes. -/
theorem solid_components {s : String} (htrackable : Path.isTrackable (components s) = true) :
    Bytes.solid (Path.bytes (components s)) = Bytes.solid (Utf8.encode s) := by
  have hname (piece : List Char) (hpiece : isName piece = false) :
      Bytes.solid (Utf8.encodeChars piece) = 0 := by
    have hdropped : piece = [] ∨ piece = ['.'] := by
      simpa [isName, or_iff_not_imp_left] using hpiece
    rcases hdropped with rfl | rfl
    · rfl
    · decide
  have hfilter (l : List (List Char)) :
      ((l.filter isName).map fun piece => Bytes.solid (Utf8.encodeChars piece)).sum =
        (l.map fun piece => Bytes.solid (Utf8.encodeChars piece)).sum := by
    induction l with
    | nil => rfl
    | cons piece l ih =>
      cases hpiece : isName piece with
      | true => rw [List.filter_cons_of_pos hpiece, List.map_cons, List.sum_cons, ih, List.map_cons,
          List.sum_cons]
      | false => rw [List.filter_cons_of_neg (by simp [hpiece]), ih, List.map_cons, List.sum_cons,
          hname piece hpiece, Nat.zero_add]
  rw [solid_bytes, (components_of_trackable htrackable).1, names, List.map_map]
  refine Eq.trans ?_ ((hfilter _).trans (solid_pieces s.toList))
  congr 2
  funext piece
  simp [Utf8.encode]

end PathText

end CommitVerdict
