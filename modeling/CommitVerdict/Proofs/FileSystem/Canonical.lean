import CommitVerdict.Proofs.Area.Spelling
import CommitVerdict.Proofs.FileSystem.Contents

namespace CommitVerdict

/-- What a directory can list: a name that is there, that is no way to another directory, and that a path can
write. -/
structure FileName (name : String) : Prop where
  ne_empty : name ≠ ""
  notDots : name ≠ "." ∧ name ≠ ".."
  noSlash : '/' ∉ name.toList
  noNul : '\x00' ∉ name.toList

instance {name : String} : Decidable (FileName name) :=
  decidable_of_iff (name ≠ "" ∧ (name ≠ "." ∧ name ≠ "..") ∧ '/' ∉ name.toList ∧ '\x00' ∉ name.toList)
    ⟨fun ⟨hempty, hdots, hslash, hnul⟩ => ⟨hempty, hdots, hslash, hnul⟩, fun h => ⟨h.1, h.2, h.3, h.4⟩⟩

namespace Path

variable {p : Path}

theorem toList_toAbsolute (p : Path) : p.toAbsolute.toList = '/' :: p.toText.toList := by
  rw [toAbsolute, String.toList_append]
  rfl

theorem pieces_toAbsolute (hnames : ∀ name ∈ p, FileName name) (hne : p ≠ []) :
    PathText.pieces p.toAbsolute.toList = [] :: p.map String.toList := by
  rw [toList_toAbsolute, PathText.pieces_slash,
    PathText.pieces_toText (fun name hname => (hnames name hname).noSlash) hne]

theorem ofText_toAbsolute (hnames : ∀ name ∈ p, FileName name) : ofText p.toAbsolute = p := by
  by_cases hne : p = []
  · rw [hne]
    rfl
  · have hkept : ∀ piece ∈ p.map String.toList, (!piece.isEmpty) = true := by
      refine List.forall_mem_map.mpr fun name hname => ?_
      simpa using (hnames name hname).ne_empty
    rw [ofText, pieces_toAbsolute hnames hne, List.filter_cons_of_neg (by simp), List.filter_eq_self.mpr hkept,
      List.map_map]
    simp

end Path

namespace FileSystem

open Directory

variable {fs : FileSystem} {p q done directory : Path} {text : String}

/-- Whether all names in a file system are names that a directory can list. -/
def WellNamed (fs : FileSystem) : Prop := ∀ p ∈ fs.paths, ∀ name ∈ p, FileName name

instance : Decidable (WellNamed fs) := inferInstanceAs (Decidable (∀ p ∈ fs.paths, ∀ name ∈ p, FileName name))

/-- Whether something stands at a place. -/
def Occupied (fs : FileSystem) (p : Path) : Prop := fs.isDirectoryAt p = true ∨ fs.contains p = true

/-- Whether something stands at a place that is no link. -/
structure IsPlace (fs : FileSystem) (p : Path) : Prop where
  occupied : fs.Occupied p
  notLink : p = [] ∨ fs.linkAt? p = none

theorem contains_iff : fs.contains p = true ↔ ∃ q leaf, fs.get? q = some leaf ∧ p <+: q := by
  simp only [Tree.contains, List.any_eq_true, List.isPrefixOf_iff_prefix, Tree.get?_eq_some_iff]
  constructor
  · rintro ⟨⟨q, leaf⟩, hmem, hbelow⟩
    exact ⟨q, leaf, hmem, hbelow⟩
  · rintro ⟨q, leaf, hmem, hbelow⟩
    exact ⟨(q, leaf), hmem, hbelow⟩

theorem Occupied.contains (hoccupied : fs.Occupied p) (hne : p ≠ []) : fs.contains p = true := by
  rcases hoccupied with hdirectory | hcontains
  · rcases isDirectoryAt_iff.mp hdirectory with hnil | hbelow | hempty
    · exact absurd hnil hne
    · obtain ⟨q, leaf, hleaf, hpq, -⟩ := Tree.hasBelow_iff.mp hbelow
      exact contains_iff.mpr ⟨q, leaf, hleaf, hpq⟩
    · exact contains_iff.mpr ⟨p, .emptyDirectory, hempty, List.prefix_refl p⟩
  · exact hcontains

theorem linkAt?_eq_some_iff {target : String} :
    fs.linkAt? p = some target ↔ fs.get? p = some (.entry (.link target)) := by
  rw [linkAt?]
  split
  · rename_i other hget
    simp [hget]
  · rename_i hnone
    simpa using hnone target

theorem linkAt?_eq_none_of_isDirectoryAt (hdirectory : fs.isDirectoryAt p = true) :
    p = [] ∨ fs.linkAt? p = none := by
  by_cases hne : p = []
  · exact .inl hne
  · refine .inr (Option.eq_none_iff_forall_ne_some.mpr fun target hlink => ?_)
    exact not_isPrefix_of_isDirectoryAt (linkAt?_eq_some_iff.mp hlink) hne hdirectory (List.prefix_refl p)

/-- What is above something is a directory. -/
theorem Occupied.isDirectoryAt_of_isPrefix (hoccupied : fs.Occupied p) (habove : q <+: p) (hne : q ≠ p) :
    fs.isDirectoryAt q = true := by
  have hp : p ≠ [] := fun hnil => hne (hnil ▸ List.prefix_nil.mp (hnil ▸ habove))
  obtain ⟨r, leaf, hleaf, hpr⟩ := contains_iff.mp (hoccupied.contains hp)
  refine isDirectoryAt_iff.mpr (.inr (.inl (Tree.hasBelow_iff.mpr ⟨r, leaf, hleaf, habove.trans hpr, ?_⟩)))
  rintro rfl
  exact hne (habove.eq_of_length (Nat.le_antisymm habove.length_le hpr.length_le))

theorem IsPlace.of_isPrefix (hplace : fs.IsPlace p) (habove : q <+: p) : fs.IsPlace q := by
  by_cases heq : q = p
  · exact heq ▸ hplace
  · have hdirectory := hplace.occupied.isDirectoryAt_of_isPrefix habove heq
    exact ⟨.inl hdirectory, linkAt?_eq_none_of_isDirectoryAt hdirectory⟩

section LookUp

/-- A look-up that follows links does not end at one. -/
theorem linkAt?_walk {budget : Nat} {names : List String} (hfound : walk fs true budget names done = .ok p)
    (hstart : names = [] → done = [] ∨ fs.linkAt? done = none) : p = [] ∨ fs.linkAt? p = none := by
  fun_induction walk fs true budget names done with
  | case1 => exact Except.ok.inj hfound ▸ hstart rfl
  | case2 | case6 | case9 => cases hfound
  | case3 budget done rest hdirectory ih =>
    replace hdirectory : fs.isDirectoryAt done = true := by simpa using hdirectory
    exact ih hfound fun _ => linkAt?_eq_none_of_isDirectoryAt hdirectory
  | case4 budget done rest hdirectory _ ih =>
    replace hdirectory : fs.isDirectoryAt done = true := by simpa using hdirectory
    exact ih hfound fun _ => linkAt?_eq_none_of_isDirectoryAt (isDirectoryAt_dropLast hdirectory)
  | case5 budget done name rest hdirectory _ _ _ _ _ hlast => simp at hlast
  | case7 done name rest hdirectory _ _ _ target _ _ _ ih =>
    replace hdirectory : fs.isDirectoryAt done = true := by simpa using hdirectory
    refine ih hfound fun _ => ?_
    rw [origin]
    split
    · exact .inl rfl
    · exact linkAt?_eq_none_of_isDirectoryAt hdirectory
  | case8 budget done name rest _ _ _ next _ hnolink ih =>
    refine ih hfound fun _ => .inr ?_
    exact Option.eq_none_iff_forall_ne_some.mpr fun target hlink => hnolink target (linkAt?_eq_some_iff.mp hlink)

theorem isPlace_of_canonicalize (hfound : canonicalize fs directory text = .ok p) : fs.IsPlace p := by
  obtain ⟨found, hplace, hoccupied⟩ := bind_eq_ok hfound
  split at hoccupied
  · rename_i hthere
    obtain rfl := Except.ok.inj hoccupied
    obtain ⟨hwalk, hroot⟩ := walk_of_place hplace
    exact ⟨by simpa [Occupied] using hthere, linkAt?_walk hwalk fun hnil => .inl (hroot hnil)⟩
  · cases hoccupied

end LookUp

section Places

variable {names : List String}

theorem IsPlace.fileName (hnames : fs.WellNamed) (hplace : fs.IsPlace p) : ∀ name ∈ p, FileName name := by
  intro name hname
  obtain ⟨q, leaf, hleaf, habove⟩ := contains_iff.mp (hplace.occupied.contains (List.ne_nil_of_mem hname))
  exact hnames q (Tree.get?_isSome_iff.mp (Option.isSome_of_eq_some hleaf)) name (habove.subset hname)

/-- From any directory on the way, the look-up goes straight to a place. -/
theorem IsPlace.straight (hnames : fs.WellNamed) (hplace : fs.IsPlace (done ++ names)) :
    fs.Straight done names := by
  induction names generalizing done with
  | nil => exact .nil
  | cons name rest ih =>
    have hsplit : done ++ name :: rest = done ++ [name] ++ rest := by simp
    have hnext : fs.IsPlace (done ++ [name]) := hplace.of_isPrefix (hsplit ▸ List.prefix_append _ _)
    have hstep : fs.IsStep done name :=
      { isDirectory := hplace.occupied.isDirectoryAt_of_isPrefix (List.prefix_append _ _) (by simp)
        notDots := (hplace.fileName hnames name (by simp)).notDots
        notLink := hnext.notLink.resolve_left (by simp) }
    exact .cons hstep (.inr (hnext.occupied.contains (by simp))) (ih (hsplit ▸ hplace))

theorem spells_toAbsolute (hnames : ∀ name ∈ p, FileName name) (hne : p ≠ []) : Spells p.toAbsolute p where
  ne_empty := by simp [← String.toList_inj, Path.toList_toAbsolute]
  noNul := by
    intro hnul
    obtain ⟨piece, hpiece, hnul⟩ := PathText.exists_piece hnul (by decide)
    rw [Path.pieces_toAbsolute hnames hne, List.mem_cons] at hpiece
    rcases hpiece with rfl | hpiece
    · cases hnul
    · obtain ⟨name, hname, rfl⟩ := List.mem_map.mp hpiece
      exact (hnames name hname).noNul hnul
  noSlash := by
    rintro ⟨cs, hcs⟩
    have hpieces : PathText.pieces cs ++ [[]] = [] :: p.map String.toList := by
      rw [← Path.pieces_toAbsolute hnames hne, ← hcs]
      exact (PathText.pieces_concat_slash cs).symm
    -- the last piece is empty, but it is a name
    have hlast := congrArg List.getLast? hpieces
    rw [List.getLast?_concat, List.getLast?_cons_of_ne_nil (by simpa using hne)] at hlast
    obtain ⟨name, hname, hempty⟩ := List.mem_map.mp (List.mem_of_getLast? hlast.symm)
    exact (hnames name hname).ne_empty (String.toList_eq_nil_iff.mp hempty)
  names_eq := Path.ofText_toAbsolute hnames

/-- A place is found where it is, whatever directory it is looked up from. -/
theorem IsPlace.canonicalize_eq (hnames : fs.WellNamed) (hplace : fs.IsPlace p) (directory : Path) :
    canonicalize fs directory p.toAbsolute = .ok p := by
  have horigin : origin directory p.toAbsolute = [] := by
    simp [origin, PathText.isAbsolute, Path.toList_toAbsolute]
  by_cases hne : p = []
  · subst hne
    have hnames : Path.ofText (Path.toAbsolute []) = [] := rfl
    have hsteps : steps (Path.toAbsolute []) = [] := by simp [steps, hnames]
    have hempty : (Path.toAbsolute []).isEmpty = false := by decide
    have hnul : (Path.toAbsolute []).contains '\x00' = false := by
      simp [Path.toAbsolute, Path.toText]
    simp only [canonicalize, place, hempty, hnul, hsteps, horigin, walk_nil, Bool.false_eq_true, if_false]
    rfl
  · have hspells := spells_toAbsolute (hplace.fileName hnames) hne
    have hstraight : fs.Straight (origin directory p.toAbsolute) p := by
      rw [horigin]
      exact IsPlace.straight hnames hplace
    rw [hstraight.canonicalize_eq hspells, horigin, List.nil_append]
    exact if_pos (by simpa [Occupied] using hplace.occupied)

end Places

section Entries

/-- Whether a directory has an entry of a name, which if it is a link leads to something. -/
def HasEntry (fs : FileSystem) (directory : Path) (name : String) : Prop :=
  fs.isDirectoryAt directory = true ∧ fs.contains (directory ++ [name]) = true ∧
    ∀ target, fs.linkAt? (directory ++ [name]) = some target →
      ∃ found, walk fs true (linkBudget - 1) (steps target) (origin directory target) = .ok found ∧
        fs.Occupied found

variable {name : String}

theorem existsAt_iff : existsAt fs directory text = true ↔
    ∃ found, place fs directory text true = .ok found ∧ fs.Occupied found := by
  rw [existsAt, canonicalize]
  cases hplace : place fs directory text true with
  | error e => simp [Except.toBool, bind, Except.bind]
  | ok found =>
    have hthere : fs.Occupied found ↔ (fs.isDirectoryAt found || fs.contains found) = true := by simp [Occupied]
    simp only [bind, Except.bind, Except.ok.injEq, exists_eq_left', hthere]
    split <;> simp_all [Except.toBool]

/-- Something exists under a name of a directory exactly if the directory has such an entry. -/
theorem existsAt_iff_hasEntry (hspells : Spells name [name]) (hrelative : PathText.isAbsolute name = false)
    (hdots : name ≠ "." ∧ name ≠ "..") : existsAt fs directory name = true ↔ fs.HasEntry directory name := by
  have horigin : origin directory name = directory := by simp [origin, hrelative]
  rw [existsAt_iff, hspells.place_eq, horigin, HasEntry]
  cases hdirectory : fs.isDirectoryAt directory with
  | false =>
    rw [walk]
    simp [hdirectory]
  | true =>
    cases hlink : fs.linkAt? (directory ++ [name]) with
    | some target =>
      have hget := linkAt?_eq_some_iff.mp hlink
      have hthere : fs.contains (directory ++ [name]) = true :=
        contains_iff.mpr ⟨_, _, hget, List.prefix_refl _⟩
      rw [walk]
      simp only [hdirectory, Bool.not_true, Bool.false_eq_true, if_false, hdots.1, hdots.2, hget, hthere,
        Option.some.injEq, forall_eq', true_and, List.append_nil, linkBudget]
      rfl
    | none =>
      have hstep : fs.IsStep directory name := ⟨hdirectory, hdots, hlink⟩
      have hwalk : walk fs true linkBudget [name] directory = .ok (directory ++ [name]) := by
        rw [hstep.walk_cons, if_pos (by simp), walk_nil]
      simp only [hwalk, Except.ok.injEq, exists_eq_left', reduceCtorEq, false_imp_iff, implies_true, and_true,
        true_and]
      exact ⟨fun hoccupied => hoccupied.contains (by simp), .inr⟩

end Entries

end FileSystem

end CommitVerdict
