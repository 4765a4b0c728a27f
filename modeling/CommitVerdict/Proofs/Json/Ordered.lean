import CommitVerdict.Proofs.Fallible
import CommitVerdict.Proofs.Json.Records
import Mathlib.Data.String.Basic

namespace CommitVerdict

namespace Json

/-- The fields stand in the order of their names, and each name stands once. -/
def Ascending (fields : List (String × Json)) : Prop := fields.Pairwise fun a b => a.1 < b.1

variable {fields before after : List (String × Json)} {field : String × Json} {name : String} {value : Json}

section Sorting

theorem name_of_mem_insertField (hmem : field ∈ insertField name value fields) :
    field.1 = name ∨ field ∈ fields := by
  induction fields with
  | nil => exact .inl (congrArg Prod.fst (List.mem_singleton.mp hmem))
  | cons first rest ih =>
    rw [insertField] at hmem
    split at hmem
    · rcases List.mem_cons.mp hmem with rfl | hrest
      · exact .inl rfl
      · exact .inr hrest
    · split at hmem
      · rcases List.mem_cons.mp hmem with rfl | hrest
        · exact .inl rfl
        · exact .inr (List.mem_cons_of_mem _ hrest)
      · rcases List.mem_cons.mp hmem with rfl | hrest
        · exact .inr List.mem_cons_self
        · exact (ih hrest).imp_right (List.mem_cons_of_mem _)

theorem ascending_insertField (hascending : Ascending fields) : Ascending (insertField name value fields) := by
  induction fields with
  | nil => exact List.pairwise_singleton _ _
  | cons first rest ih =>
    obtain ⟨hbehind, hrest⟩ := List.pairwise_cons.mp hascending
    rw [insertField]
    split
    · rename_i hless
      exact List.pairwise_cons.mpr
        ⟨List.forall_mem_cons.mpr ⟨hless, fun field hfield => hless.trans (hbehind field hfield)⟩, hascending⟩
    · rename_i hnot
      split
      · rename_i heq
        exact List.pairwise_cons.mpr ⟨heq ▸ hbehind, hrest⟩
      · rename_i hne
        have hgreater : first.1 < name := lt_of_le_of_ne (not_lt.mp hnot) (Ne.symm hne)
        refine List.pairwise_cons.mpr ⟨fun field hfield => ?_, ih hrest⟩
        rcases name_of_mem_insertField hfield with hname | hold
        · exact hname ▸ hgreater
        · exact hbehind field hold

theorem ascending_sortFields (fields : List (String × Json)) : Ascending (sortFields fields) := by
  have hfold (sorted : List (String × Json)) (hsorted : Ascending sorted) :
      Ascending (fields.foldl (fun sorted field => insertField field.1 field.2 sorted) sorted) := by
    induction fields generalizing sorted with
    | nil => exact hsorted
    | cons field rest ih => exact ih _ (ascending_insertField hsorted)
  exact hfold [] List.Pairwise.nil

/-- What an object is sorted to has its fields in order. -/
theorem ascending_of_sorted {j : Json} (hsorted : j.sorted = .object fields) : Ascending fields := by
  cases j with
  | object others =>
    rw [sorted] at hsorted
    cases hsorted
    exact ascending_sortFields _
  | null | bool | number | string | array => simp [sorted] at hsorted

end Sorting

theorem Ascending.distinct (hascending : Ascending fields) : Distinct fields :=
  List.pairwise_map.mpr (hascending.imp fun hless => hless.ne)

/-- A field that is found stands behind those with smaller names and in front of those with greater ones. -/
theorem Ascending.exists_split (hascending : Ascending fields) (hlookup : lookup fields name = some value) :
    ∃ before after, fields = before ++ (name, value) :: after ∧ (∀ field ∈ before, field.1 < name) ∧
      ∀ field ∈ after, name < field.1 := by
  obtain ⟨⟨found, content⟩, hfind, hcontent⟩ := Option.map_eq_some_iff.mp hlookup
  obtain ⟨hname, before, after, rfl, -⟩ := List.find?_eq_some_iff_append.mp hfind
  obtain rfl : found = name := by simpa using hname
  obtain rfl : content = value := hcontent
  obtain ⟨-, hafter, hbefore⟩ := List.pairwise_append.mp hascending
  exact ⟨before, after, rfl, fun field hfield => hbefore field hfield _ List.mem_cons_self,
    (List.pairwise_cons.mp hafter).1⟩

section Visiting

variable {rules : List FieldRule}

/-- Fields that the record does not have are passed over. -/
theorem visitFields_append_of_unnamed (hunnamed : ∀ field ∈ before, ∀ r ∈ rules, r.name ≠ field.1) :
    visitFields rules (before ++ after) = visitFields rules after := by
  induction before with
  | nil => rfl
  | cons field rest ih =>
    have hrest := ih fun other hother => hunnamed other (List.mem_cons_of_mem _ hother)
    have hfind : rules.find? (fun r => r.name == field.1) = none := by
      simpa using hunnamed field List.mem_cons_self
    rw [visitFields, List.forM_eq_forM] at hrest ⊢
    rw [List.cons_append, List.forM_cons, hfind]
    exact hrest

/-- A bad value of a field that the record has is the error, if it is visited first. -/
theorem visitFields_cons_of_error {r : FieldRule} {e : DecodeError}
    (hfind : rules.find? (fun r => r.name == field.1) = some r) (hbad : r.check field.2 = .error e) :
    visitFields rules (field :: after) = .error e := by
  rw [visitFields, List.forM_eq_forM, List.forM_cons, hfind]
  simp only [hbad]
  rfl

/-- The error of a visit is that of a field's check. -/
theorem exists_of_visitFields_eq_error {e : DecodeError} (hvisit : visitFields rules fields = .error e) :
    ∃ field ∈ fields, ∃ r ∈ rules, r.name = field.1 ∧ r.check field.2 = .error e := by
  obtain ⟨field, hfield, hcheck⟩ := exists_of_forM_eq_error hvisit
  split at hcheck
  · rename_i r hfind
    have hname : r.name = field.1 := by simpa using List.find?_some hfind
    exact ⟨field, hfield, r, List.mem_of_find?_eq_some hfind, hname, hcheck⟩
  · cases hcheck

/-- The error of an array is that of an item's check, unless it is one of its length. -/
theorem exists_of_nameItems_eq_error {record : RecordName} {items : List Json} {e : DecodeError}
    (hitems : nameItems record rules items = .error e) :
    (∃ pair ∈ rules.zip items, pair.1.check pair.2 = .error e) ∨
      ∃ length expected, e = .invalidLength length expected := by
  rcases bind_eq_error_iff.mp hitems with hcheck | ⟨-, -, hlength⟩
  · exact .inl (exists_of_forM_eq_error hcheck)
  · right
    split at hlength
    · cases hlength
      exact ⟨_, _, rfl⟩
    · split at hlength <;> cases hlength
      exact ⟨_, _, rfl⟩

/-- An array whose items are named has as many as the record has fields. -/
theorem length_of_nameItems_eq_ok {record : RecordName} {items : List Json}
    (hitems : nameItems record rules items = .ok fields) : items.length = rules.length := by
  obtain ⟨-, -, hlength⟩ := bind_eq_ok hitems
  split at hlength
  · cases hlength
  · split at hlength
    · cases hlength
    · omega

end Visiting

end Json

end CommitVerdict
