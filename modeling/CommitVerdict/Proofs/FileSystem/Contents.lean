import CommitVerdict.LogFile
import CommitVerdict.Proofs.Fallible
import CommitVerdict.Proofs.FileSystem.Straight
import CommitVerdict.Proofs.Tree.Overlay

namespace CommitVerdict

namespace Directory

variable {d : Directory} {p q : Path} {e : Entry}

theorem entryAt?_eq_some_iff : d.entryAt? p = some e ↔ d.get? p = some (.entry e) := by
  rw [entryAt?]
  cases d.get? p with
  | none => simp
  | some leaf => cases leaf <;> simp [Leaf.asEntry]

theorem isDirectoryAt_iff :
    d.isDirectoryAt p = true ↔ p = [] ∨ d.hasBelow p = true ∨ d.get? p = some .emptyDirectory := by
  simp [isDirectoryAt, or_assoc]

/-- No file stands in the way to a directory. -/
theorem not_isPrefix_of_isDirectoryAt (hentry : d.get? p = some (.entry e)) (hne : p ≠ [])
    (hdirectory : d.isDirectoryAt q = true) : ¬ p <+: q := by
  intro habove
  rcases isDirectoryAt_iff.mp hdirectory with rfl | hbelow | hempty
  · exact hne (List.prefix_nil.mp habove)
  · obtain ⟨r, leaf, hleaf, hqr, hrq⟩ := Tree.hasBelow_iff.mp hbelow
    have hpr : p ≠ r := by
      rintro rfl
      exact hrq (hqr.eq_of_length (Nat.le_antisymm hqr.length_le habove.length_le)).symm
    have hapart := d.not_conflicts_of_ne (Tree.get?_eq_some_iff.mp hentry) (Tree.get?_eq_some_iff.mp hleaf) hpr
    rw [Path.conflicts_iff.mpr (.inl (habove.trans hqr))] at hapart
    cases hapart
  · have hpq : p ≠ q := by
      rintro rfl
      rw [hentry] at hempty
      cases hempty
    have hapart := d.not_conflicts_of_ne (Tree.get?_eq_some_iff.mp hentry) (Tree.get?_eq_some_iff.mp hempty) hpq
    rw [Path.conflicts_iff.mpr (.inl habove)] at hapart
    cases hapart

theorem isDirectoryAt_dropLast (hdirectory : d.isDirectoryAt p = true) : d.isDirectoryAt p.dropLast = true := by
  rcases p.eq_nil_or_concat' with rfl | ⟨parent, name, rfl⟩
  · exact hdirectory
  · rw [List.dropLast_concat, isDirectoryAt_iff]
    have hbelow (r : Path) (hr : parent ++ [name] <+: r) : parent <+: r ∧ r ≠ parent :=
      ⟨(List.prefix_append parent [name]).trans hr, fun heq => absurd hr.length_le (by simp [heq])⟩
    rcases isDirectoryAt_iff.mp hdirectory with hnil | hlower | hempty
    · simp at hnil
    · obtain ⟨r, leaf, hleaf, hr, -⟩ := Tree.hasBelow_iff.mp hlower
      exact .inr (.inl (Tree.hasBelow_iff.mpr ⟨r, leaf, hleaf, hbelow r hr⟩))
    · exact .inr (.inl (Tree.hasBelow_iff.mpr ⟨_, _, hempty, hbelow _ (List.prefix_refl _)⟩))

/-- An empty directory where there was nothing, in a directory, takes the place of no file. -/
theorem entryAt?_put_emptyDirectory (hne : p ≠ []) (hmissing : d.contains q = false)
    (hparent : d.isDirectoryAt q.dropLast = true) :
    Directory.entryAt? (d.put q .emptyDirectory) p = d.entryAt? p := by
  refine Option.ext fun e => ?_
  rw [entryAt?_eq_some_iff, entryAt?_eq_some_iff, Tree.get?_put_eq_some_iff]
  constructor
  · rintro (⟨-, hleaf⟩ | ⟨-, hget⟩)
    · cases hleaf
    · exact hget
  · intro hget
    refine .inr ⟨?_, hget⟩
    rw [Bool.eq_false_iff, ne_eq, Path.conflicts_iff]
    rintro (hqp | hpq)
    · rw [Tree.contains, List.any_eq_false] at hmissing
      exact hmissing _ (Tree.get?_eq_some_iff.mp hget) (List.isPrefixOf_iff_prefix.mpr hqp)
    · rcases q.eq_nil_or_concat' with rfl | ⟨parent, name, rfl⟩
      · exact hne (List.prefix_nil.mp hpq)
      · rw [List.dropLast_concat] at hparent
        rcases List.prefix_concat_iff.mp hpq with rfl | hprefix
        · rw [Tree.contains, List.any_eq_false] at hmissing
          exact hmissing _ (Tree.get?_eq_some_iff.mp hget) (List.isPrefixOf_iff_prefix.mpr (List.prefix_refl _))
        · exact not_isPrefix_of_isDirectoryAt hget hne hparent hprefix

end Directory

namespace FileSystem

open Directory

variable {fs made : FileSystem} {p done directory : Path} {text : String} {content added : Bytes}

@[simp]
theorem contentAt_setContent : contentAt (setContent fs p content) p = content := by
  have hput (leaf : Leaf) : (fs.put p leaf).get? p = some leaf :=
    Tree.get?_put_eq_some_iff.mpr (.inl ⟨rfl, rfl⟩)
  rw [setContent]
  split <;> rw [contentAt, entryAt?, hput] <;> rfl

@[simp]
theorem contentAt_append : contentAt (append fs p added) p = contentAt fs p ++ added := by
  rw [append, contentAt_setContent]

section Directories

/-- What is looked up from a directory on is a directory itself or, though it may be missing, has a place in
one. -/
theorem isDirectoryAt_walk {follow : Bool} {budget : Nat} {names : List String}
    (hfound : walk fs follow budget names done = .ok p) (hstart : names = [] → fs.isDirectoryAt done = true) :
    fs.isDirectoryAt p = true ∨ fs.isDirectoryAt p.dropLast = true := by
  fun_induction walk fs follow budget names done with
  | case1 => exact .inl (Except.ok.inj hfound ▸ hstart rfl)
  | case2 | case6 | case9 => cases hfound
  | case3 budget done rest hdirectory ih =>
    replace hdirectory : fs.isDirectoryAt done = true := by simpa using hdirectory
    exact ih hfound fun _ => hdirectory
  | case4 budget done rest hdirectory _ ih =>
    replace hdirectory : fs.isDirectoryAt done = true := by simpa using hdirectory
    exact ih hfound fun _ => isDirectoryAt_dropLast hdirectory
  | case5 budget done name rest hdirectory =>
    replace hdirectory : fs.isDirectoryAt done = true := by simpa using hdirectory
    rw [← Except.ok.inj hfound, List.dropLast_concat]
    exact .inr hdirectory
  | case7 done name rest hdirectory _ _ _ target _ _ _ ih =>
    replace hdirectory : fs.isDirectoryAt done = true := by simpa using hdirectory
    refine ih hfound fun _ => ?_
    rw [origin]
    split
    · rfl
    · exact hdirectory
  | case8 budget done name rest hdirectory _ _ _ _ _ ih =>
    replace hdirectory : fs.isDirectoryAt done = true := by simpa using hdirectory
    by_cases hrest : rest = []
    · rw [hrest, walk_nil] at hfound
      rw [← Except.ok.inj hfound, List.dropLast_concat]
      exact .inr hdirectory
    · exact ih hfound fun hnil => absurd hnil hrest

/-- A relative path has a name. -/
theorem steps_ne_nil (hne : text.isEmpty = false) (hrelative : PathText.isAbsolute text = false) :
    steps text ≠ [] := by
  have hnames : Path.ofText text ≠ [] := by
    cases hchars : text.toList with
    | nil => simp_all
    | cons c rest =>
      have hslash : c ≠ '/' := by simpa [PathText.isAbsolute, hchars] using hrelative
      rw [Path.ofText, hchars, PathText.pieces]
      split <;> simp [hslash]
  rw [steps]
  split
  · simp
  · exact hnames

/-- A place is found by a look-up that has names to look up, or starts at the root. -/
theorem walk_of_place {follow : Bool} (hfound : place fs directory text follow = .ok p) :
    walk fs follow linkBudget (steps text) (origin directory text) = .ok p ∧
      (steps text = [] → origin directory text = []) := by
  rw [place] at hfound
  split at hfound
  · cases hfound
  · rename_i hne
    split at hfound
    · cases hfound
    · refine ⟨hfound, fun hnil => ?_⟩
      rw [origin]
      split
      · rfl
      · rename_i hrelative
        exact absurd hnil (steps_ne_nil (by simpa using hne) (by simpa using hrelative))

theorem isDirectoryAt_place {follow : Bool} (hfound : place fs directory text follow = .ok p) :
    fs.isDirectoryAt p = true ∨ fs.isDirectoryAt p.dropLast = true := by
  obtain ⟨hwalk, hroot⟩ := walk_of_place hfound
  refine isDirectoryAt_walk hwalk fun hnil => ?_
  rw [hroot hnil]
  rfl

theorem entryAt?_makeDirectory (hne : p ≠ [])
    (hmade : makeDirectory fs directory text = .ok made) : made.entryAt? p = fs.entryAt? p := by
  obtain ⟨found, hplace, hput⟩ := bind_eq_ok hmade
  split at hput
  · cases hput
  · rename_i hmissing
    simp only [Bool.or_eq_true, not_or, Bool.not_eq_true] at hmissing
    have hparent : fs.isDirectoryAt found.dropLast = true :=
      (isDirectoryAt_place hplace).resolve_left (by simp [hmissing.1])
    rw [← Except.ok.inj hput, entryAt?_put_emptyDirectory hne hmissing.2 hparent]

/-- Making directories, as far as that goes, leaves every file and link as it is. -/
theorem entryAt?_makeDirectoriesReversed (components : List String) (hne : p ≠ []) :
    (makeDirectoriesReversed fs directory components).2.entryAt? p = fs.entryAt? p := by
  induction components with
  | nil => rfl
  | cons last parents ih =>
    rw [makeDirectoriesReversed]
    split
    case h_1 made hmade => exact entryAt?_makeDirectory hne hmade
    case h_2 =>
      split
      case h_1 e above habove => rw [← ih, habove]
      case h_2 above habove =>
        rw [habove] at ih
        split
        case h_1 made hmade => exact (entryAt?_makeDirectory hne hmade).trans ih
        case h_2 => exact ih
    case h_3 => rfl

end Directories

theorem openForAppending_eq_ok {opened : FileSystem}
    (hopened : openForAppending fs directory text = .ok (p, opened)) :
    fs.isDirectoryAt p = false ∧ opened = setContent fs p (contentAt fs p) := by
  obtain ⟨found, hfound, hset⟩ := bind_eq_ok hopened
  obtain ⟨rfl, rfl⟩ := Prod.mk.inj (Except.ok.inj hset)
  obtain ⟨place, hplace, hfile⟩ := bind_eq_ok hfound
  split at hfile
  · cases hfile
  · rename_i hdirectory
    rw [Except.ok.inj hfile] at hdirectory
    exact ⟨Bool.eq_false_iff.mpr hdirectory, rfl⟩

end FileSystem

namespace LogFile

open FileSystem

variable {fs opened : FileSystem} {place directory : Path} {path : String}

theorem openAt_eq_ok_iff : openAt fs directory path = .ok (place, opened) ↔
    attempt fs directory path = (.ok place, opened) := by
  unfold openAt
  obtain ⟨result, files⟩ := attempt fs directory path
  cases result <;> simp [Except.map]

theorem openAt_eq_error_iff {e : OsError} :
    openAt fs directory path = .error e ↔ (attempt fs directory path).1 = .error e := by
  unfold openAt
  obtain ⟨result, files⟩ := attempt fs directory path
  cases result <;> simp [Except.map]

theorem entryAt?_attemptParent {p : Path} (hne : p ≠ []) :
    (attemptParent fs directory path).2.entryAt? p = fs.entryAt? p := by
  rw [attemptParent]
  split
  · exact entryAt?_makeDirectoriesReversed _ hne
  · rfl

/-- An attempt makes directories, which changes no file and no link, and then opens the file if it can. -/
theorem attempt_cases (fs : FileSystem) (directory : Path) (path : String) :
    ∃ made : FileSystem, (∀ p, p ≠ [] → made.entryAt? p = fs.entryAt? p) ∧
    ((∃ e, attempt fs directory path = (.error e, made)) ∨
      ∃ place opened, openForAppending made directory path = .ok (place, opened) ∧
        attempt fs directory path = (.ok place, opened)) := by
  refine ⟨(attemptParent fs directory path).2, fun p hne => entryAt?_attemptParent hne, ?_⟩
  unfold attempt
  cases hparent : attemptParent fs directory path with
  | mk result made =>
    cases result with
    | error e => exact .inl ⟨e, rfl⟩
    | ok =>
      cases hopen : openForAppending made directory path with
      | error e => exact .inl ⟨e, by simp only [hopen]⟩
      | ok opened => exact .inr ⟨opened.1, opened.2, rfl, by simp only [hopen]⟩

/-- An attempt that fails leaves every file and link as it is. -/
theorem entryAt?_attempt {e : OsError} (hfails : (attempt fs directory path).1 = .error e) {p : Path}
    (hne : p ≠ []) : (attempt fs directory path).2.entryAt? p = fs.entryAt? p := by
  obtain ⟨made, hmade, ⟨e', hattempt⟩ | ⟨place, opened, -, hattempt⟩⟩ := attempt_cases fs directory path
  · rw [hattempt]
    exact hmade p hne
  · rw [hattempt] at hfails
    cases hfails

/-- A log file holds at first what was at its place before, which is nothing if there was no file. -/
theorem contentAt_openAt (hopened : openAt fs directory path = .ok (place, opened)) :
    contentAt opened place = contentAt fs place := by
  rw [openAt_eq_ok_iff] at hopened
  obtain ⟨made, hmade, ⟨e, hattempt⟩ | ⟨place', opened', hopen, hattempt⟩⟩ := attempt_cases fs directory path
  · rw [hattempt] at hopened
    cases hopened
  · obtain ⟨rfl, rfl⟩ : place' = place ∧ opened' = opened := by
      simpa [hattempt] using hopened
    obtain ⟨hfile, rfl⟩ := openForAppending_eq_ok hopen
    have hne : place' ≠ [] := by
      rintro rfl
      cases hfile
    rw [contentAt_setContent, contentAt, hmade place' hne, contentAt]

end LogFile

end CommitVerdict
