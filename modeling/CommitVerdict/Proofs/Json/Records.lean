import CommitVerdict.Json.Decode
import Mathlib.Data.List.Forall2
import Mathlib.Data.List.Nodup

namespace CommitVerdict

namespace Json

/-- No two fields have one name. -/
def Distinct (fields : List (String × Json)) : Prop := (fields.map (·.1)).Nodup

variable {fields : List (String × Json)} {name : String} {value : Json}

theorem Distinct.perm {others : List (String × Json)} (hdistinct : Distinct fields)
    (hperm : fields.Perm others) : Distinct others :=
  (hperm.map _).nodup_iff.mp hdistinct

theorem Distinct.tail {field : String × Json} (hdistinct : Distinct (field :: fields)) : Distinct fields :=
  (List.nodup_cons.mp hdistinct).2

section Sorting

theorem insertField_perm (value : Json) (hnew : name ∉ fields.map (·.1)) :
    (insertField name value fields).Perm ((name, value) :: fields) := by
  induction fields with
  | nil => exact .refl _
  | cons field rest ih =>
    simp only [List.map_cons, List.mem_cons, not_or] at hnew
    rw [insertField]
    split
    · exact .refl _
    · rw [if_neg hnew.1]
      exact ((ih hnew.2).cons field).trans (.swap _ _ _)

theorem foldl_insertField_perm (sorted : List (String × Json)) (hdistinct : Distinct (sorted ++ fields)) :
    (fields.foldl (fun sorted field => insertField field.1 field.2 sorted) sorted).Perm
      (sorted ++ fields) := by
  induction fields generalizing sorted with
  | nil => simp
  | cons field rest ih =>
    have hmiddle : (sorted ++ field :: rest).Perm ((field :: sorted) ++ rest) := List.perm_middle
    have hnew : field.1 ∉ sorted.map (·.1) := by
      have hnodup := hdistinct.perm hmiddle
      simp only [Distinct, List.cons_append, List.map_cons, List.nodup_cons, List.map_append,
        List.mem_append, not_or] at hnodup
      exact hnodup.1.1
    have hinsert := (insertField_perm field.2 hnew).append_right rest
    exact (ih _ (hdistinct.perm (hmiddle.trans hinsert.symm))).trans (hinsert.trans hmiddle.symm)

/-- Sorting only reorders fields, if no two have one name. -/
theorem sortFields_perm (hdistinct : Distinct fields) : (sortFields fields).Perm fields :=
  foldl_insertField_perm [] hdistinct

theorem sortedValues_eq : sortedValues fields = fields.map fun field => (field.1, field.2.sorted) := by
  induction fields with
  | nil => rfl
  | cons field rest ih => rw [sortedValues, ih, List.map_cons]

/-- Sorting a record without records in it only reorders its fields. -/
theorem sorted_object (hdistinct : Distinct fields) (hflat : ∀ field ∈ fields, field.2.sorted = field.2) :
    ∃ others, (object fields).sorted = .object others ∧ others.Perm fields := by
  have hvalues : sortedValues fields = fields := by
    rw [sortedValues_eq]
    calc fields.map (fun field => (field.1, field.2.sorted))
        = fields.map id := List.map_congr_left fun field hmem => by rw [hflat field hmem, id]
      _ = fields := List.map_id fields
  exact ⟨_, by rw [sorted, hvalues], sortFields_perm hdistinct⟩

theorem sorted_ofStrings (xs : List String) : (ofStrings xs).sorted = ofStrings xs := by
  have hitems : sortedItems (xs.map .string) = xs.map .string := by
    induction xs with
    | nil => rfl
    | cons x xs ih =>
      rw [List.map_cons, sortedItems, ih]
      rfl
  rw [ofStrings, sorted, hitems]

end Sorting

section Finding

theorem lookup_of_mem (hdistinct : Distinct fields) (hmem : (name, value) ∈ fields) :
    lookup fields name = some value := by
  induction fields with
  | nil => cases hmem
  | cons field rest ih =>
    rw [Distinct, List.map_cons, List.nodup_cons] at hdistinct
    rcases List.mem_cons.mp hmem with rfl | hrest
    · simp [lookup]
    · have hname : field.1 ≠ name := fun heq =>
        hdistinct.1 (List.mem_map.mpr ⟨_, hrest, heq.symm⟩)
      have htail := ih hdistinct.2 hrest
      rw [lookup, List.find?_cons_of_neg (by simpa using hname)]
      exact htail

theorem lookup_eq_none (hnone : ∀ field ∈ fields, field.1 ≠ name) : lookup fields name = none := by
  rw [lookup, List.find?_eq_none.mpr fun field hmem => by simpa using hnone field hmem]
  rfl

end Finding

/-- The fields are, one by one, those that the rules are about, with values that pass the checks. -/
def Fits (rules : List FieldRule) (fields : List (String × Json)) : Prop :=
  List.Forall₂ (fun rule field => rule.name = field.1 ∧ rule.check field.2 = .ok ()) rules fields

theorem fits_rule {α : Type} {decode : Json → Decoded α} {a : α} (hdecode : decode value = .ok a) :
    (rule name decode).name = name ∧ (rule name decode).check value = .ok () :=
  ⟨rfl, by simp only [rule, hdecode]; rfl⟩

section Visiting

variable {rules : List FieldRule} {own : List (String × Json)}

theorem Fits.exists_mem {r : FieldRule} (hfits : Fits rules own) (hmem : r ∈ rules) :
    ∃ value, (r.name, value) ∈ own ∧ r.check value = .ok () := by
  induction hfits with
  | nil => cases hmem
  | cons hfirst _ ih =>
    rcases List.mem_cons.mp hmem with rfl | hrest
    · exact ⟨_, List.mem_cons.mpr (.inl (Prod.ext hfirst.1 rfl)), hfirst.2⟩
    · obtain ⟨value, hvalue, hcheck⟩ := ih hrest
      exact ⟨value, List.mem_cons_of_mem _ hvalue, hcheck⟩

theorem visitFields_eq_ok
    (hchecks : ∀ field ∈ fields, ∀ r ∈ rules, r.name = field.1 → r.check field.2 = .ok ()) :
    visitFields rules fields = .ok () := by
  induction fields with
  | nil => rfl
  | cons field rest ih =>
    have hrest := ih fun other hother => hchecks other (List.mem_cons_of_mem _ hother)
    rw [visitFields, List.forM_eq_forM] at hrest ⊢
    rw [List.forM_cons]
    cases hfind : rules.find? fun r => r.name == field.1 with
    | none => exact hrest
    | some r =>
      have hname : r.name = field.1 := by simpa using List.find?_some hfind
      have hcheck := hchecks field List.mem_cons_self r (List.mem_of_find?_eq_some hfind) hname
      simp only [hcheck]
      exact hrest

/-- Fields with the right ones among them pass all checks, whatever order they are in. -/
theorem Fits.visitFields_eq_ok (hfits : Fits rules own) (hdistinct : Distinct fields)
    (hsubset : own ⊆ fields) : visitFields rules fields = .ok () := by
  refine Json.visitFields_eq_ok fun field hfield r hr hname => ?_
  obtain ⟨value, hvalue, hcheck⟩ := hfits.exists_mem hr
  have hsame : some field.2 = some value := by
    rw [← lookup_of_mem hdistinct (hsubset hvalue), hname]
    exact (lookup_of_mem hdistinct hfield).symm
  rwa [Option.some.inj hsame]

theorem recordFields_object (record : String) (hfits : Fits rules own) (hdistinct : Distinct fields)
    (hsubset : own ⊆ fields) : recordFields record rules (.object fields) = .ok fields := by
  simp only [recordFields, hfits.visitFields_eq_ok hdistinct hsubset]
  rfl

/-- The reading of a tagged union with all fields of its variant, in any order and with others among them. -/
theorem taggedFields_object (union : String) {tagName tag : String} {variants : List VariantRule}
    {variant : VariantRule} {others : List (String × Json)}
    (hvariant : variants.find? (fun variant => variant.tag == tag) = some variant)
    (hfits : Fits variant.fields own) (hdistinct : Distinct ((tagName, .string tag) :: own ++ others))
    (hperm : fields.Perm ((tagName, .string tag) :: own ++ others)) :
    ∃ rest, taggedFields union tagName variants (.object fields) = .ok (tag, rest) ∧
      rest.Perm (own ++ others) := by
  have hfields : Distinct fields := hdistinct.perm hperm.symm
  have hlookup : lookup fields tagName = some (.string tag) :=
    lookup_of_mem hfields (hperm.mem_iff.mpr (by simp))
  have hnotag : ∀ field ∈ own ++ others, (field.1 != tagName) = true := by
    rw [Distinct, List.cons_append, List.map_cons, List.nodup_cons] at hdistinct
    intro field hmem
    rw [bne_iff_ne]
    exact fun heq => hdistinct.1 (List.mem_map.mpr ⟨field, hmem, heq⟩)
  have hrest : (fields.filter fun field => field.1 != tagName).Perm (own ++ others) := by
    have hfilter := hperm.filter fun field => field.1 != tagName
    rwa [List.cons_append, List.filter_cons_of_neg (by simp), List.filter_eq_self.mpr hnotag] at hfilter
  have hvisit : visitFields variant.fields (fields.filter fun field => field.1 != tagName) = .ok () :=
    hfits.visitFields_eq_ok (hfields.sublist ((List.filter_sublist).map _))
      fun field hmem => hrest.mem_iff.mpr (List.mem_append_left _ hmem)
  have htag : variant.tag = tag := by simpa using List.find?_some hvariant
  refine ⟨_, ?_, hrest⟩
  simp only [taggedFields, hlookup, hvariant, bind, Except.bind, hvisit, htag]

end Visiting

end Json

end CommitVerdict
