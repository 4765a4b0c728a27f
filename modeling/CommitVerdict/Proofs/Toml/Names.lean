import CommitVerdict.Toml.Reader
import Mathlib.Data.List.Nodup

namespace CommitVerdict

namespace TomlEntries

variable {entries result : TomlEntries} {key : String} {value : Toml} {path : List String}

/-- No two entries have one name. -/
def Distinct (entries : TomlEntries) : Prop := (entries.map (·.1)).Nodup

theorem find?_eq_none_iff : find? entries key = none ↔ key ∉ entries.map (·.1) := by
  simp only [find?, Option.map_eq_none_iff, List.find?_eq_none, beq_iff_eq, List.mem_map, not_exists, not_and]

theorem Distinct.append (hdistinct : Distinct entries) (hnew : find? entries key = none) (value : Toml) :
    Distinct (entries ++ [(key, value)]) := by
  have hkey := find?_eq_none_iff.mp hnew
  rw [Distinct, List.map_append, List.nodup_append]
  refine ⟨hdistinct, List.nodup_singleton _, ?_⟩
  rintro name hname _ hother rfl
  obtain rfl : name = key := by simpa using hother
  exact hkey hname

theorem Distinct.replace (hdistinct : Distinct entries) (key : String) (value : Toml) :
    Distinct (replace entries key value) := by
  have hnames : (TomlEntries.replace entries key value).map (·.1) = entries.map (·.1) := by
    rw [TomlEntries.replace, List.map_map]
    apply List.map_congr_left
    intro entry _
    simp only [Function.comp_apply]
    split
    · simp_all
    · rfl
  rw [Distinct, hnames]
  exact hdistinct

section Options

variable {α : Type} {value? : Option α} {build : α → Toml}

theorem Distinct.of_map_append (hdistinct : Distinct entries) (hnew : find? entries key = none)
    (hresult : value?.map (fun a => entries ++ [(key, build a)]) = some result) : Distinct result := by
  obtain ⟨a, -, rfl⟩ := Option.map_eq_some_iff.mp hresult
  exact hdistinct.append hnew (build a)

theorem Distinct.of_map_replace (hdistinct : Distinct entries)
    (hresult : value?.map (fun a => TomlEntries.replace entries key (build a)) = some result) :
    Distinct result := by
  obtain ⟨a, -, rfl⟩ := Option.map_eq_some_iff.mp hresult
  exact hdistinct.replace key (build a)

end Options

/-- A table gets a new name at its end, or the value of one of its names changes. -/
theorem Distinct.assign (hdistinct : Distinct entries)
    (hassign : assign path key value entries = some result) : Distinct result := by
  cases path with
  | nil =>
    rw [TomlEntries.assign] at hassign
    split at hassign
    · cases hassign
    · rename_i hnew
      rw [← Option.some.inj hassign]
      exact hdistinct.append (by simpa using hnew) value
  | cons step path =>
    rw [TomlEntries.assign] at hassign
    split at hassign
    case h_1 hnew => exact hdistinct.of_map_append hnew hassign
    case h_2 => exact hdistinct.of_map_replace hassign
    case h_3 =>
      split at hassign
      · cases hassign
      · exact hdistinct.of_map_replace hassign
    case h_4 =>
      split at hassign
      · cases hassign
      · exact hdistinct.of_map_replace hassign
    case h_5 => cases hassign

theorem Distinct.descend {change : TomlEntries → Option TomlEntries}
    (hchange : ∀ {entries result}, Distinct entries → change entries = some result → Distinct result)
    (hdistinct : Distinct entries) (hdescend : descend change path entries = some result) :
    Distinct result := by
  cases path with
  | nil => exact hchange hdistinct hdescend
  | cons step path =>
    rw [TomlEntries.descend] at hdescend
    split at hdescend
    case h_1 hnew => exact hdistinct.of_map_append hnew hdescend
    case h_2 => cases hdescend
    case h_3 => exact hdistinct.of_map_replace hdescend
    case h_4 => exact hdistinct.of_map_replace hdescend
    case h_5 => cases hdescend

end TomlEntries

namespace TomlSection

open TomlEntries

variable {document result : TomlEntries}

/-- What every step keeps, all steps together keep. -/
theorem foldlM_keeps {α β : Type} {P : β → Prop} {f : β → α → Option β}
    (hstep : ∀ b a b', P b → f b a = some b' → P b') {l : List α} {start last : β} (hstart : P start)
    (hfold : l.foldlM f start = some last) : P last := by
  induction l generalizing start with
  | nil => exact Option.some.inj hfold ▸ hstart
  | cons a rest ih =>
    rw [List.foldlM_cons] at hfold
    obtain ⟨next, hnext, hrest⟩ := Option.bind_eq_some_iff.mp hfold
    exact ih (hstep start a next hstart hnext) hrest

theorem distinct_assignAll {assignments : List TomlAssignment} (hdistinct : Distinct document)
    (hassign : assignAll assignments document = some result) : Distinct result :=
  foldlM_keeps (fun _ _ _ hentries hstep => hentries.assign hstep) hdistinct hassign

theorem distinct_addTo {part : TomlSection} (hdistinct : Distinct document)
    (hadd : addTo document part = some result) : Distinct result := by
  rw [addTo] at hadd
  split at hadd
  case h_1 => exact distinct_assignAll hdistinct hadd
  case h_2 path key _ =>
    refine hdistinct.descend (fun {entries result} hentries hcomplete => ?_) hadd
    have hothers : Distinct (erase entries key) := hentries.sublist (List.filter_sublist.map _)
    have hnew : find? (erase entries key) key = none := by
      rw [find?_eq_none_iff]
      simp [erase]
    have hcompleted {start : TomlEntries} (hrest : (assignAll part.assignments start).bind (fun inner =>
        some (erase entries key ++ [(key, .table .header inner)])) = some result) : Distinct result := by
      obtain ⟨inner, -, hresult⟩ := Option.bind_eq_some_iff.mp hrest
      rw [← Option.some.inj hresult]
      exact hothers.append hnew _
    split at hcomplete
    case h_1 => exact hcompleted hcomplete
    case h_2 => exact hcompleted hcomplete
    case h_3 => cases hcomplete
  case h_3 path key _ =>
    refine hdistinct.descend (fun {entries result} hentries hextend => ?_) hadd
    obtain ⟨inner, -, hresult⟩ := Option.bind_eq_some_iff.mp hextend
    split at hresult
    case h_1 hnew =>
      rw [← Option.some.inj hresult]
      exact hentries.append hnew _
    case h_2 =>
      rw [← Option.some.inj hresult]
      exact hentries.replace _ _
    case h_3 => cases hresult

/-- A document that a text writes has no name twice. -/
theorem distinct_of_parse? {text : List Char} (hparse : Toml.parse? text = some document) :
    Distinct document := by
  obtain ⟨parts, -, hdocument⟩ := Option.bind_eq_some_iff.mp hparse
  have hempty : Distinct [] := List.nodup_nil
  exact foldlM_keeps (fun _ _ _ hentries hstep => distinct_addTo hentries hstep) hempty hdocument

end TomlSection

end CommitVerdict
