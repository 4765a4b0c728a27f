import CommitVerdict.Config
import CommitVerdict.Proofs.Fallible
import CommitVerdict.Proofs.Toml.Names
import Mathlib.Data.List.Perm.Basic

namespace CommitVerdict

namespace ProjectConfig

open TomlEntries

variable {config next result : ProjectConfig} {document : TomlEntries} {entry : String × Toml}
  {cause : DecodeError}

/-- The entries that write settings. -/
def toToml (config : ProjectConfig) : TomlEntries :=
  (config.testsDir.map fun path => ("tests_dir", Toml.string path)).toList
    ++ (config.codeDir.map fun path => ("code_dir", Toml.string path)).toList
    ++ (config.testCommand.map fun texts => ("test_command", Toml.array (texts.map .string))).toList

/-- What is wrong with an entry. -/
inductive Wrong : String × Toml → DecodeError → Prop
  | name {name value} : name ∉ fieldNames → Wrong (name, value) (.unknownField name fieldNames)
  | path {name value} : name ∈ ["tests_dir", "code_dir"] → (∀ text, value ≠ .string text) →
      Wrong (name, value) (.invalidType (unexpected value) "path string")
  | command {value} : (∀ items, value ≠ .array items) → (∀ elements, value ≠ .tables elements) →
      Wrong ("test_command", value) (.invalidType (unexpected value) "a sequence")
  | tables {elements} : Wrong ("test_command", .tables elements) (.invalidType .map "a string")
  | item {texts : List String} {item rest} : (∀ text, item ≠ .string text) →
      Wrong ("test_command", .array (texts.map .string ++ item :: rest))
        (.invalidType (unexpected item) "a string")

/-- What is wrong with the first wrong entry of a document. -/
inductive FirstWrong : TomlEntries → DecodeError → Prop
  | here {entry rest cause} : Wrong entry cause → FirstWrong (entry :: rest) cause
  | behind {entry rest cause} : (∀ other, ¬Wrong entry other) → FirstWrong rest cause →
      FirstWrong (entry :: rest) cause

theorem decodeString_eq_ok_iff {expected text : String} {value : Toml} :
    decodeString expected value = .ok text ↔ value = .string text := by
  cases value <;> simp [decodeString]

theorem decodeString_eq_error_iff {expected : String} {value : Toml} :
    decodeString expected value = .error cause ↔
      (∀ text, value ≠ .string text) ∧ cause = .invalidType (unexpected value) expected := by
  cases value <;> simp [decodeString, eq_comm]

theorem mapM_decodeString_eq_ok_iff {items : List Toml} {texts : List String} :
    items.mapM (decodeString "a string") = .ok texts ↔ items = texts.map .string := by
  induction items generalizing texts with
  | nil => cases texts <;> simp [pure, Except.pure]
  | cons item rest ih =>
    rw [List.mapM_cons]
    constructor
    · intro hall
      obtain ⟨text, hfirst, hrest⟩ := bind_eq_ok hall
      obtain ⟨more, hmore, hlast⟩ := bind_eq_ok hrest
      rw [← Except.ok.inj hlast, List.map_cons, decodeString_eq_ok_iff.mp hfirst, ih.mp hmore]
    · intro hall
      cases texts with
      | nil => cases hall
      | cons text more =>
        obtain ⟨rfl, rfl⟩ := List.cons.inj hall
        rw [decodeString_eq_ok_iff.mpr rfl, ih.mpr rfl]
        rfl

theorem mapM_decodeString_eq_error_iff {items : List Toml} : items.mapM (decodeString "a string") = .error cause ↔
    ∃ (texts : List String) (item : Toml) (rest : List Toml), items = texts.map .string ++ item :: rest ∧
      (∀ text, item ≠ .string text) ∧ cause = .invalidType (unexpected item) "a string" := by
  induction items with
  | nil => simp [pure, Except.pure]
  | cons item rest ih =>
    rw [List.mapM_cons, bind_eq_error_iff, decodeString_eq_error_iff]
    constructor
    · rintro (⟨hitem, rfl⟩ | ⟨text, hfirst, hrest⟩)
      · exact ⟨[], item, rest, rfl, hitem, rfl⟩
      · rcases bind_eq_error_iff.mp hrest with hmore | ⟨more, hmore, hlast⟩
        · obtain ⟨texts, wrong, behind, rfl, hwrong, rfl⟩ := ih.mp hmore
          rw [decodeString_eq_ok_iff.mp hfirst]
          exact ⟨text :: texts, wrong, behind, rfl, hwrong, rfl⟩
        · cases hlast
    · rintro ⟨texts, wrong, behind, hitems, hwrong, rfl⟩
      cases texts with
      | nil =>
        obtain ⟨rfl, rfl⟩ := List.cons.inj hitems
        exact .inl ⟨hwrong, rfl⟩
      | cons text texts =>
        obtain ⟨rfl, hrest⟩ := List.cons.inj hitems
        refine .inr ⟨text, rfl, bind_eq_error_iff.mpr (.inl ?_)⟩
        exact ih.mpr ⟨texts, wrong, behind, hrest, hwrong, rfl⟩

theorem decodeTexts_eq_ok_iff {value : Toml} {texts : List String} :
    decodeTexts value = .ok texts ↔ value = .array (texts.map .string) := by
  cases value <;> simp [decodeTexts, mapM_decodeString_eq_ok_iff]

theorem decodeTexts_eq_error_iff {value : Toml} :
    decodeTexts value = .error cause ↔ Wrong ("test_command", value) cause := by
  constructor
  · intro hfails
    cases value with
    | array items =>
      obtain ⟨texts, item, rest, rfl, hitem, rfl⟩ := mapM_decodeString_eq_error_iff.mp hfails
      exact .item hitem
    | tables elements =>
      rw [← Except.error.inj hfails]
      exact .tables
    | _ =>
      rw [← Except.error.inj hfails]
      exact .command nofun nofun
  · intro hwrong
    cases hwrong with
    | name hname => simp [fieldNames] at hname
    | path hname => simp at hname
    | command harray htables => cases value <;> simp_all [decodeTexts]
    | tables => rfl
    | item hitem => exact mapM_decodeString_eq_error_iff.mpr ⟨_, _, _, rfl, hitem, rfl⟩

theorem wrong_path_iff {name : String} {value : Toml} (hname : name ∈ ["tests_dir", "code_dir"]) :
    Wrong (name, value) cause ↔ decodeString "path string" value = .error cause := by
  rw [decodeString_eq_error_iff]
  constructor
  · intro hwrong
    cases hwrong with
    | name hother =>
      simp only [List.mem_cons, List.not_mem_nil, or_false] at hname
      rcases hname with rfl | rfl <;> simp [fieldNames] at hother
    | path _ hvalue => exact ⟨hvalue, rfl⟩
    | _ => simp at hname
  · rintro ⟨hvalue, rfl⟩
    exact .path hname hvalue

theorem addEntry_eq_error_iff : addEntry config entry = .error cause ↔ Wrong entry cause := by
  obtain ⟨name, value⟩ := entry
  simp only [addEntry]
  split
  · rw [map_eq_error_iff, wrong_path_iff (by simp)]
  · rw [map_eq_error_iff, wrong_path_iff (by simp)]
  · rw [map_eq_error_iff, decodeTexts_eq_error_iff]
  · rename_i htests hcode hcommand
    constructor
    · intro hfails
      rw [← Except.error.inj hfails]
      exact .name (by simpa [fieldNames] using ⟨htests, hcode, hcommand⟩)
    · intro hwrong
      cases hwrong with
      | name => rfl
      | path hname => simp_all
      | _ => exact absurd rfl hcommand

/-- What is taken over of an entry is what writes it. -/
theorem perm_of_addEntry (hadd : addEntry config entry = .ok next)
    (hnew : entry.1 ∉ config.toToml.map (·.1)) : next.toToml.Perm (entry :: config.toToml) := by
  obtain ⟨name, value⟩ := entry
  obtain ⟨testsDir, codeDir, testCommand⟩ := config
  simp only [addEntry] at hadd
  split at hadd
  · obtain ⟨path, hpath, rfl⟩ := map_eq_ok_iff.mp hadd
    obtain rfl := decodeString_eq_ok_iff.mp hpath
    cases testsDir with
    | some other => simp [toToml] at hnew
    | none => exact .refl _
  · obtain ⟨path, hpath, rfl⟩ := map_eq_ok_iff.mp hadd
    obtain rfl := decodeString_eq_ok_iff.mp hpath
    cases codeDir with
    | some other => simp [toToml] at hnew
    | none =>
      simp only [toToml, Option.map_some, Option.map_none, Option.toList_some, Option.toList_none, List.append_nil,
        List.append_assoc]
      exact List.perm_middle
  · obtain ⟨texts, htexts, rfl⟩ := map_eq_ok_iff.mp hadd
    obtain rfl := decodeTexts_eq_ok_iff.mp htexts
    cases testCommand with
    | some other => simp [toToml] at hnew
    | none =>
      simp only [toToml, Option.map_some, Option.map_none, Option.toList_some, Option.toList_none, List.append_nil]
      exact List.perm_append_singleton _ _
  · cases hadd

theorem perm_of_foldlM (hfold : document.foldlM addEntry config = .ok result)
    (hdistinct : Distinct (document ++ config.toToml)) : result.toToml.Perm (document ++ config.toToml) := by
  induction document generalizing config with
  | nil =>
    rw [← Except.ok.inj hfold]
    exact .refl _
  | cons entry rest ih =>
    rw [List.foldlM_cons] at hfold
    obtain ⟨next, hadd, hrest⟩ := bind_eq_ok hfold
    obtain ⟨hfirst, -⟩ := List.nodup_cons.mp hdistinct
    have hnew : entry.1 ∉ config.toToml.map (·.1) := fun hmem =>
      hfirst (List.map_subset _ (List.subset_append_right rest _) hmem)
    have hmoved : (rest ++ next.toToml).Perm (entry :: rest ++ config.toToml) :=
      ((perm_of_addEntry hadd hnew).append_left rest).trans List.perm_middle
    exact (ih hrest ((hmoved.map _).nodup_iff.mpr hdistinct)).trans hmoved

theorem foldlM_eq_error_iff : document.foldlM addEntry config = .error cause ↔ FirstWrong document cause := by
  induction document generalizing config with
  | nil =>
    constructor <;> intro h <;> cases h
  | cons entry rest ih =>
    rw [List.foldlM_cons, bind_eq_error_iff, addEntry_eq_error_iff]
    constructor
    · rintro (hwrong | ⟨next, hadd, hrest⟩)
      · exact .here hwrong
      · refine .behind (fun other hother => ?_) (ih.mp hrest)
        rw [addEntry_eq_error_iff.mpr hother] at hadd
        cases hadd
    · intro hfirst
      cases hfirst with
      | here hwrong => exact .inl hwrong
      | behind hright hrest =>
        cases hadd : addEntry config entry with
        | error other => exact absurd (addEntry_eq_error_iff.mp hadd) (hright other)
        | ok next => exact .inr ⟨next, rfl, ih.mpr hrest⟩

theorem ofToml_eq_error_iff : ofToml document = .error cause ↔ FirstWrong document cause := foldlM_eq_error_iff

theorem FirstWrong.exists_wrong (hfirst : FirstWrong document cause) : ∃ entry ∈ document, Wrong entry cause := by
  induction hfirst with
  | here hwrong => exact ⟨_, List.mem_cons_self, hwrong⟩
  | behind _ _ ih =>
    obtain ⟨entry, hmem, hwrong⟩ := ih
    exact ⟨entry, List.mem_cons_of_mem _ hmem, hwrong⟩

theorem mem_toToml_iff : entry ∈ config.toToml ↔
    (∃ path, config.testsDir = some path ∧ ("tests_dir", .string path) = entry) ∨
    (∃ path, config.codeDir = some path ∧ ("code_dir", .string path) = entry) ∨
    ∃ texts, config.testCommand = some texts ∧ ("test_command", .array (texts.map .string)) = entry := by
  simp [toToml]

theorem not_wrong_of_mem (hmem : entry ∈ config.toToml) : ¬Wrong entry cause := by
  rintro hwrong
  rcases mem_toToml_iff.mp hmem with ⟨path, -, rfl⟩ | ⟨path, -, rfl⟩ | ⟨texts, -, rfl⟩
  · cases (wrong_path_iff (by simp)).mp hwrong
  · cases (wrong_path_iff (by simp)).mp hwrong
  · have hfails := decodeTexts_eq_error_iff.mpr hwrong
    rw [decodeTexts_eq_ok_iff.mpr rfl] at hfails
    cases hfails

theorem testsDir_eq_some_iff {path : String} :
    config.testsDir = some path ↔ ("tests_dir", .string path) ∈ config.toToml := by
  simp [mem_toToml_iff]

theorem codeDir_eq_some_iff {path : String} :
    config.codeDir = some path ↔ ("code_dir", .string path) ∈ config.toToml := by
  simp [mem_toToml_iff]

theorem testCommand_eq_some_iff {texts : List String} :
    config.testCommand = some texts ↔ ("test_command", .array (texts.map .string)) ∈ config.toToml := by
  have hinjective : Function.Injective (List.map Toml.string) := List.map_injective_iff.mpr fun _ _ => Toml.string.inj
  simp [mem_toToml_iff, hinjective.eq_iff]

/-- Settings that are written by the same entries are the same. -/
theorem eq_of_perm {other : ProjectConfig} (hperm : config.toToml.Perm other.toToml) : config = other := by
  have htests : config.testsDir = other.testsDir := Option.ext fun path => by
    rw [testsDir_eq_some_iff, hperm.mem_iff, testsDir_eq_some_iff]
  have hcode : config.codeDir = other.codeDir := Option.ext fun path => by
    rw [codeDir_eq_some_iff, hperm.mem_iff, codeDir_eq_some_iff]
  have hcommand : config.testCommand = other.testCommand := Option.ext fun texts => by
    rw [testCommand_eq_some_iff, hperm.mem_iff, testCommand_eq_some_iff]
  cases config
  cases other
  simp_all

/-- A document holds the settings whose entries it is made of, in any order. -/
theorem ofToml_eq_ok_iff (hdistinct : Distinct document) :
    ofToml document = .ok config ↔ document.Perm config.toToml := by
  have hperm {result : ProjectConfig} (hfold : ofToml document = .ok result) :
      result.toToml.Perm document := by
    have hall : Distinct (document ++ empty.toToml) := by
      rw [show empty.toToml = [] from rfl, List.append_nil]
      exact hdistinct
    have hresult := perm_of_foldlM hfold hall
    rwa [show empty.toToml = [] from rfl, List.append_nil] at hresult
  constructor
  · exact fun hfold => (hperm hfold).symm
  · intro hconfig
    cases hfold : ofToml document with
    | error cause =>
      obtain ⟨entry, hmem, hwrong⟩ := (ofToml_eq_error_iff.mp hfold).exists_wrong
      exact absurd hwrong (not_wrong_of_mem (hconfig.mem_iff.mp hmem))
    | ok result => rw [eq_of_perm ((hperm hfold).trans hconfig)]

section Loads

variable {fs : FileSystem} {root : String}

/-- Where the settings of the repository at a root stand. -/
def filePath (root : String) : String := PathText.join root fileName

/-- There is a file of settings, and it has this content. -/
structure HasContent (fs : FileSystem) (root : String) (content : Bytes) : Prop where
  exists_file : FileSystem.existsAt fs [] (filePath root) = true
  read_eq : FileSystem.read fs [] (filePath root) = .ok content

/-- There is a file of settings, and it writes this document. -/
def HasDocument (fs : FileSystem) (root : String) (document : TomlEntries) : Prop :=
  ∃ content text, HasContent fs root content ∧ Utf8.decode? content = some text ∧
    Toml.parse? text = some document

/-- What becomes of the file of settings of the repository at a root. -/
inductive Loads (fs : FileSystem) (root : String) : Except ConfigError (Option ProjectConfig) → Prop
  | missing : FileSystem.existsAt fs [] (filePath root) = false → Loads fs root (.ok none)
  | unreadable {cause : OsError} : FileSystem.existsAt fs [] (filePath root) = true →
      FileSystem.read fs [] (filePath root) = .error cause →
      Loads fs root (.error (.unreadable (filePath root) cause))
  | notText {content} : HasContent fs root content → Utf8.decode? content = none →
      Loads fs root (.error (.notText (filePath root)))
  | malformed {content text} : HasContent fs root content → Utf8.decode? content = some text →
      Toml.parse? text = none → Loads fs root (.error (.malformed (filePath root)))
  | wrongContent {document : TomlEntries} {cause : DecodeError} : HasDocument fs root document → FirstWrong document cause →
      Loads fs root (.error (.wrongContent (filePath root) cause))
  | settings {document : TomlEntries} {config : ProjectConfig} : HasDocument fs root document → document.Perm config.toToml →
      Loads fs root (.ok (some config))

theorem load_of_loads {result : Except ConfigError (Option ProjectConfig)} (hloads : Loads fs root result) :
    load fs root = result := by
  cases hloads with
  | missing hmissing =>
    rw [filePath] at hmissing
    simp only [load, hmissing]
    rfl
  | unreadable hexists hread =>
    rw [filePath] at hexists hread ⊢
    simp only [load, hexists, hread]
    rfl
  | notText hcontent hdecode =>
    obtain ⟨hexists, hread⟩ := hcontent
    rw [filePath] at hexists hread ⊢
    simp only [load, hexists, hread, Except.mapError, bind, Except.bind, hdecode]
    rfl
  | malformed hcontent hdecode hparse =>
    obtain ⟨hexists, hread⟩ := hcontent
    rw [filePath] at hexists hread ⊢
    simp only [load, hexists, hread, Except.mapError, bind, Except.bind, hdecode, hparse]
    rfl
  | wrongContent hdocument hwrong =>
    obtain ⟨content, text, ⟨hexists, hread⟩, hdecode, hparse⟩ := hdocument
    have hfails := ofToml_eq_error_iff.mpr hwrong
    rw [filePath] at hexists hread ⊢
    simp only [load, hexists, hread, Except.mapError, bind, Except.bind, hdecode, hparse, hfails]
    rfl
  | settings hdocument hperm =>
    obtain ⟨content, text, ⟨hexists, hread⟩, hdecode, hparse⟩ := hdocument
    have hholds := (ofToml_eq_ok_iff (TomlSection.distinct_of_parse? hparse)).mpr hperm
    rw [filePath] at hexists hread
    simp only [load, hexists, hread, Except.mapError, bind, Except.bind, hdecode, hparse, hholds]
    rfl

end Loads

end ProjectConfig

end CommitVerdict
