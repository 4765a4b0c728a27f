import CommitVerdict.FileSystem

namespace CommitVerdict

theorem endsWith_eq_false {s t : String} (hend : ¬t.toList <:+ s.toList) : s.endsWith t = false := by
  rw [← String.endsWith_toSlice, Bool.eq_false_iff, ne_eq, String.Slice.endsWith_string_iff]
  simpa using hend

namespace FileSystem

variable {fs : FileSystem} {follow : Bool} {budget : Nat} {name : String} {names rest : List String}
  {done directory : Path} {text : String}

/-- Where the link at a place leads to, if there is one. -/
def linkAt? (fs : FileSystem) (p : Path) : Option String :=
  match fs.get? p with
  | some (.entry (.link target)) => some target
  | _ => none

/-- Whether the look-up of a name goes one place down from a directory. -/
structure IsStep (fs : FileSystem) (done : Path) (name : String) : Prop where
  isDirectory : fs.isDirectoryAt done = true
  notDots : name ≠ "." ∧ name ≠ ".."
  notLink : fs.linkAt? (done ++ [name]) = none

instance : Decidable (IsStep fs done name) :=
  decidable_of_iff (fs.isDirectoryAt done = true ∧ (name ≠ "." ∧ name ≠ "..") ∧
    fs.linkAt? (done ++ [name]) = none)
    ⟨fun ⟨hdirectory, hdots, hlink⟩ => ⟨hdirectory, hdots, hlink⟩, fun h => ⟨h.1, h.2, h.3⟩⟩

theorem walk_nil : walk fs follow budget [] done = .ok done := by rw [walk]

/-- Only the last name of a path may be missing. -/
theorem IsStep.walk_cons (hstep : fs.IsStep done name) :
    walk fs follow budget (name :: rest) done =
      if rest.isEmpty || fs.contains (done ++ [name]) then walk fs follow budget rest (done ++ [name])
      else .error .notFound := by
  obtain ⟨hdirectory, ⟨hdot, hdots⟩, hlink⟩ := hstep
  rw [walk]
  simp only [hdirectory, Bool.not_true, Bool.false_eq_true, if_false, hdot, hdots]
  split
  · rename_i target hget
    simp [linkAt?, hget] at hlink
  · rfl

/-- Whether all names of a path go one place down, and only the last one may be missing. -/
inductive Straight (fs : FileSystem) : Path → List String → Prop
  | nil {done : Path} : Straight fs done []
  | cons {done : Path} {name : String} {rest : List String} : fs.IsStep done name →
      rest = [] ∨ fs.contains (done ++ [name]) = true → Straight fs (done ++ [name]) rest →
      Straight fs done (name :: rest)

theorem Straight.walk_eq (hstraight : fs.Straight done names) :
    walk fs follow budget names done = .ok (done ++ names) := by
  induction hstraight with
  | nil => rw [walk_nil, List.append_nil]
  | cons hstep hgoes _ ih =>
    rw [hstep.walk_cons, if_pos (by simpa using hgoes), ih, List.append_assoc, List.singleton_append]

/-- Whether a text writes a path of these names, without a slash at its end. -/
structure Spells (text : String) (names : List String) : Prop where
  ne_empty : text ≠ ""
  noNul : '\x00' ∉ text.toList
  noSlash : ¬"/".toList <:+ text.toList
  names_eq : Path.ofText text = names

instance : Decidable (Spells text names) :=
  decidable_of_iff (text ≠ "" ∧ '\x00' ∉ text.toList ∧ ¬"/".toList <:+ text.toList ∧ Path.ofText text = names)
    ⟨fun ⟨hempty, hnul, hslash, hnames⟩ => ⟨hempty, hnul, hslash, hnames⟩,
      fun h => ⟨h.1, h.2, h.3, h.4⟩⟩

theorem Spells.place_eq (hspells : Spells text names) :
    place fs directory text follow = walk fs follow linkBudget names (origin directory text) := by
  have hempty : text.isEmpty = false := by simpa using hspells.ne_empty
  have hnul : text.contains '\x00' = false := by simpa using hspells.noNul
  have hsteps : steps text = names := by
    rw [steps, endsWith_eq_false hspells.noSlash, hspells.names_eq]
    rfl
  simp only [place, hempty, hnul, hsteps, Bool.false_eq_true, if_false]

/-- A straight path leads to the place that it spells, if there is something. -/
theorem Straight.canonicalize_eq (hspells : Spells text names)
    (hstraight : fs.Straight (origin directory text) names) :
    canonicalize fs directory text =
      if fs.isDirectoryAt (origin directory text ++ names) || fs.contains (origin directory text ++ names)
      then .ok (origin directory text ++ names) else .error .notFound := by
  rw [canonicalize, hspells.place_eq, hstraight.walk_eq]
  rfl

theorem existsAt_of_canonicalize {p : Path} (hfound : canonicalize fs directory text = .ok p) :
    existsAt fs directory text = true := by
  rw [existsAt, hfound]
  rfl

theorem existsAt_eq_false {e : OsError} (hmissing : canonicalize fs directory text = .error e) :
    existsAt fs directory text = false := by
  rw [existsAt, hmissing]
  rfl

/-- Nothing is found behind a name that is missing. -/
theorem IsStep.canonicalize_eq_error (hstep : fs.IsStep (origin directory text) name)
    (hspells : Spells text (name :: rest)) (hrest : rest ≠ [])
    (hmissing : fs.contains (origin directory text ++ [name]) = false) :
    canonicalize fs directory text = .error .notFound := by
  have hwalk : walk fs true linkBudget (name :: rest) (origin directory text) = .error .notFound := by
    rw [hstep.walk_cons, if_neg]
    simp [hrest, hmissing]
  rw [canonicalize, hspells.place_eq, hwalk]
  rfl

end FileSystem

end CommitVerdict
