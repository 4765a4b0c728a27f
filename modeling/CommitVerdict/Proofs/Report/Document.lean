import CommitVerdict.Report
import CommitVerdict.Proofs.Json.Documents
import CommitVerdict.Proofs.Json.Readings
import CommitVerdict.Proofs.Json.Records
import CommitVerdict.Proofs.Text.Hex

namespace CommitVerdict

open Json

theorem TestOutcome.decode_toJson (o : TestOutcome) : decode o.toJson = .ok o := by
  cases o <;> rfl

theorem CommitId.decode_toJson (id : CommitId) : decode id.toJson = .ok id := by
  simp only [decode, toJson, decodeString, bind, Except.bind, parse_hex, Except.mapError]

theorem Verdict.decode_toJson (v : Verdict) : decode v.toJson = .ok v := by
  cases v <;> rfl

theorem ChangeSet.decode_toJson {c : ChangeSet} (hfiles : c.filesChanged < 2 ^ 64) :
    decode c.toJson = .ok c := by
  let fields : List (String × Json) := [("touches_tests", .bool c.touchesTests),
    ("touches_production_code", .bool c.touchesProductionCode), ("files_changed", .ofNat c.filesChanged)]
  have hcount : require fields "files_changed" decodeCount = .ok c.filesChanged := decodeCount_ofNat hfiles
  have hfits : Fits [rule "touches_tests" decodeBool, rule "touches_production_code" decodeBool,
      rule "files_changed" decodeCount] fields :=
    .cons (fits_rule rfl) (.cons (fits_rule rfl) (.cons (fits_rule hcount) .nil))
  have hdistinct : Distinct fields := by simp [Distinct, fields]
  have hfields := recordFields_object "ChangeSet" hfits hdistinct (List.Subset.refl _)
  have hjson : c.toJson = .object fields := rfl
  simp only [decode, hjson, hfields, bind, Except.bind, hcount]
  rfl

/-- A record stands under a name. -/
def HasRecord (fields : List (String × Json)) (name : String) (P : List (String × Json) → Prop) : Prop :=
  ∃ inner, lookup fields name = some (.object inner) ∧ P inner

/-- What stands under a name is one record. -/
theorem HasRecord.both {fields : List (String × Json)} {name : String} {P Q : List (String × Json) → Prop}
    (hP : HasRecord fields name P) (hQ : HasRecord fields name Q) : ∃ inner, P inner ∧ Q inner := by
  obtain ⟨inner, hlookup, hinner⟩ := hP
  obtain ⟨again, hagain, hsame⟩ := hQ
  obtain rfl : inner = again := by simpa [hlookup] using hagain
  exact ⟨inner, hinner, hsame⟩

namespace PhaseRecord

variable {r other : PhaseRecord} {fields : List (String × Json)}

/-- The exit code fits its type, and the duration is finite. -/
def InRange (r : PhaseRecord) : Prop := (-2 ^ 31 ≤ r.exitCode ∧ r.exitCode < 2 ^ 31) ∧ r.seconds.isFinite = true

instance (r : PhaseRecord) : Decidable r.InRange :=
  inferInstanceAs (Decidable ((-2 ^ 31 ≤ r.exitCode ∧ r.exitCode < 2 ^ 31) ∧ r.seconds.isFinite = true))

/-- What is recovered of a run from its fields in a document. The number that stands for the duration is the one
that is printed for it, and it is one that can be read. -/
structure Recovered (r : PhaseRecord) (fields : List (String × Json)) : Prop where
  outcome : require fields "outcome" TestOutcome.decode = .ok r.outcome
  exitCode : require fields "exit_code" decodeExitCode = .ok r.exitCode
  seconds : lookup fields "duration_secs" = some (.number r.seconds.literal)
  readable : require fields "duration_secs" decodeReal = .ok r.seconds.reread

theorem Recovered.unique (hr : r.Recovered fields) (hother : other.Recovered fields) : r = other := by
  have houtcome := Except.ok.inj (hr.outcome.symm.trans hother.outcome)
  have hexit := Except.ok.inj (hr.exitCode.symm.trans hother.exitCode)
  have hliteral := Json.number.inj (Option.some.inj (hr.seconds.symm.trans hother.seconds))
  have hseconds := Binary64.literal_injective hliteral
  cases r
  cases other
  simp_all

theorem exists_recovered (hrange : r.InRange) : ∃ fields, r.toJson = .object fields ∧ r.Recovered fields := by
  refine ⟨_, rfl, ?_, ?_, rfl, ?_⟩
  · exact r.outcome.decode_toJson
  · exact decodeExitCode_ofInt hrange.1.1 hrange.1.2
  · exact decodeReal_literal hrange.2

end PhaseRecord

namespace PhaseSummary

variable {s other : PhaseSummary} {fields : List (String × Json)}

def InRange (s : PhaseSummary) : Prop := s.postChange.InRange ∧ s.preChange.InRange

instance (s : PhaseSummary) : Decidable s.InRange :=
  inferInstanceAs (Decidable (s.postChange.InRange ∧ s.preChange.InRange))

/-- What is recovered of the two runs on a commit. -/
structure Recovered (s : PhaseSummary) (fields : List (String × Json)) : Prop where
  postChange : HasRecord fields "post_change" s.postChange.Recovered
  preChange : HasRecord fields "pre_change" s.preChange.Recovered

theorem Recovered.unique (hs : s.Recovered fields) (hother : other.Recovered fields) : s = other := by
  obtain ⟨_, hpost, hpost'⟩ := hs.postChange.both hother.postChange
  obtain ⟨_, hpre, hpre'⟩ := hs.preChange.both hother.preChange
  cases s
  cases other
  rw [PhaseSummary.mk.injEq]
  exact ⟨hpost.unique hpost', hpre.unique hpre'⟩

theorem exists_recovered (hrange : s.InRange) : ∃ fields, s.toJson = .object fields ∧ s.Recovered fields := by
  obtain ⟨post, hpost, hpostRecovered⟩ := PhaseRecord.exists_recovered hrange.1
  obtain ⟨pre, hpre, hpreRecovered⟩ := PhaseRecord.exists_recovered hrange.2
  exact ⟨_, rfl, ⟨post, congrArg some hpost, hpostRecovered⟩, ⟨pre, congrArg some hpre, hpreRecovered⟩⟩

end PhaseSummary

namespace CommitReport

variable {c other : CommitReport} {fields : List (String × Json)}

/-- The numbers of an entry fit their types, and its durations are finite. -/
def InRange (c : CommitReport) : Prop := c.changeSet.filesChanged < 2 ^ 64 ∧ ∀ s ∈ c.phases, s.InRange

instance (c : CommitReport) : Decidable c.InRange :=
  inferInstanceAs (Decidable (c.changeSet.filesChanged < 2 ^ 64 ∧ ∀ s ∈ c.phases, s.InRange))

/-- What is recovered of an entry from its fields in a document. -/
structure Recovered (c : CommitReport) (fields : List (String × Json)) : Prop where
  reference : require fields "reference" decodeString = .ok c.reference
  commit : require fields "commit" CommitId.decode = .ok c.commit
  fullId : ∃ text, lookup fields "commit" = some (.string text) ∧ text.toList.length = 40
  verdict : require fields "verdict" Verdict.decode = .ok c.verdict
  changeSet : require fields "change_set" ChangeSet.decode = .ok c.changeSet
  hasPhases : (lookup fields "phases").isSome = c.phases.isSome
  phases : ∀ s ∈ c.phases, HasRecord fields "phases" s.Recovered

theorem Recovered.unique (hc : c.Recovered fields) (hother : other.Recovered fields) : c = other := by
  have hreference := Except.ok.inj (hc.reference.symm.trans hother.reference)
  have hcommit := Except.ok.inj (hc.commit.symm.trans hother.commit)
  have hverdict := Except.ok.inj (hc.verdict.symm.trans hother.verdict)
  have hchanges := Except.ok.inj (hc.changeSet.symm.trans hother.changeSet)
  have hphases : c.phases = other.phases := by
    have hpresent := hc.hasPhases.symm.trans hother.hasPhases
    cases hs : c.phases with
    | none => exact (Option.not_isSome_iff_eq_none.mp (by simp [← hpresent, hs])).symm
    | some s =>
      obtain ⟨t, ht⟩ := Option.isSome_iff_exists.mp (by simpa [hs] using hpresent.symm)
      obtain ⟨inner, hinner, hsame⟩ := (hc.phases s hs).both (hother.phases t ht)
      rw [ht, hinner.unique hsame]
  cases c
  cases other
  simp_all

theorem exists_recovered (hrange : c.InRange) : ∃ fields, c.toJson = .object fields ∧ c.Recovered fields := by
  obtain ⟨reference, commit, verdict, changeSet, phases⟩ := c
  refine ⟨_, rfl, rfl, commit.decode_toJson, ⟨_, rfl, commit.length_hex⟩, verdict.decode_toJson,
    ChangeSet.decode_toJson hrange.1, ?_, ?_⟩
  · cases phases <;> rfl
  · rintro s hs
    obtain rfl : phases = some s := hs
    obtain ⟨runs, hjson, hruns⟩ := PhaseSummary.exists_recovered (hrange.2 s rfl)
    exact ⟨runs, congrArg some hjson, hruns⟩

end CommitReport

namespace RunReport

/-- Entries added to an empty report, one after the other. -/
def ofEntries (entries : List CommitReport) : RunReport := entries.foldl push empty

theorem foldl_push (report : RunReport) (entries : List CommitReport) :
    entries.foldl push report = ⟨report.commits ++ entries⟩ := by
  induction entries generalizing report with
  | nil => rw [List.foldl_nil, List.append_nil]
  | cons c rest ih => rw [List.foldl_cons, ih, push, List.append_assoc, List.singleton_append]

theorem ofEntries_eq (entries : List CommitReport) : ofEntries entries = ⟨entries⟩ := foldl_push empty entries

/-- Whether a reader counts an item as a failure. -/
def isFailure (item : Json) : Bool :=
  match item with
  | .object fields =>
    match require fields "verdict" Verdict.decode with
    | .ok verdict => verdict.isFailure
    | .error _ => false
  | _ => false

/-- An item of a report's array from which an entry is recovered. -/
def Tells (c : CommitReport) (item : Json) : Prop := ∃ fields, item = .object fields ∧ c.Recovered fields

/-- No two entries are told by one item. -/
theorem tells_leftUnique : Relator.LeftUnique Tells := by
  rintro c other item ⟨fields, rfl, hc⟩ ⟨again, hagain, hother⟩
  obtain rfl := Json.object.inj hagain
  exact hc.unique hother

theorem Tells.isFailure_eq {c : CommitReport} {item : Json} (htells : Tells c item) :
    isFailure item = c.verdict.isFailure := by
  obtain ⟨fields, rfl, hfields⟩ := htells
  simp only [isFailure, hfields.verdict]

theorem countP_isFailure {entries : List CommitReport} {items : List Json}
    (htells : List.Forall₂ Tells entries items) :
    items.countP isFailure = entries.countP (·.verdict.isFailure) := by
  induction htells with
  | nil => rfl
  | cons hfirst _ ih => rw [List.countP_cons, List.countP_cons, ih, hfirst.isFailure_eq]

theorem tells_commits (report : RunReport) (hrange : ∀ c ∈ report.commits, c.InRange) :
    List.Forall₂ Tells report.commits (report.commits.map (·.toJson)) := by
  rw [List.forall₂_map_right_iff, List.forall₂_same]
  exact fun c hmem => CommitReport.exists_recovered (hrange c hmem)

theorem lookup_commits {report : RunReport} {contents : List (String × Json)}
    (hjson : report.toJson = .object contents) :
    lookup contents "commits" = some (.array (report.commits.map (·.toJson))) ∧
      lookup contents "failures" = some (.ofNat report.failures) ∧
      lookup contents "exit_code" = some (.ofNat report.exitCode) := by
  obtain rfl := Json.object.inj hjson
  exact ⟨rfl, rfl, rfl⟩

/-- No two reports have one document. -/
theorem eq_of_document {report other : RunReport} (hrange : ∀ c ∈ report.commits, c.InRange)
    (hother : ∀ c ∈ other.commits, c.InRange) (hdocument : other.document = report.document) :
    other = report := by
  have hjson : other.toJson = report.toJson := by
    have hparse := parse?_pretty other.toJson
    rw [← document, hdocument, document, parse?_pretty] at hparse
    exact (Option.some.inj hparse).symm
  obtain ⟨hitems, -, -⟩ := lookup_commits (hjson : other.toJson = _)
  obtain ⟨hsame, -, -⟩ := lookup_commits (rfl : report.toJson = _)
  have hmap := Json.array.inj (Option.some.inj (hitems.symm.trans hsame))
  have htells := other.tells_commits hother
  rw [hmap] at htells
  have hcommits := List.left_unique_forall₂' tells_leftUnique htells (report.tells_commits hrange)
  cases other
  cases report
  exact congrArg RunReport.mk hcommits

/-- The document of a report tells every entry, in order, and the number of those that fail. -/
theorem document_recoverable {entries : List CommitReport} (hrange : ∀ c ∈ entries, c.InRange) :
    (∃ contents items, parse? (ofEntries entries).document = some (.object contents) ∧
      lookup contents "commits" = some (.array items) ∧ List.Forall₂ Tells entries items ∧
      lookup contents "failures" = some (.ofNat (items.countP isFailure)) ∧
      lookup contents "exit_code" = some (.ofNat (if items.countP isFailure = 0 then 0 else 1))) ∧
    ∀ other : RunReport, (∀ c ∈ other.commits, c.InRange) →
      other.document = (ofEntries entries).document → other = ofEntries entries := by
  rw [ofEntries_eq]
  refine ⟨?_, fun other hother => eq_of_document hrange hother⟩
  let report : RunReport := ⟨entries⟩
  have htells : List.Forall₂ Tells entries (entries.map (·.toJson)) := report.tells_commits hrange
  obtain ⟨hitems, hfailures, hexit⟩ := lookup_commits (rfl : report.toJson = _)
  refine ⟨_, _, parse?_pretty _, hitems, htells, ?_, ?_⟩
  · rw [hfailures, countP_isFailure htells, failures]
  · rw [hexit, countP_isFailure htells, exitCode, isSuccess, failures]
    simp only [report, beq_iff_eq]

/-- An entry that was run, with a text that has to be escaped, and one that was not. -/
def sampleEntries : List CommitReport :=
  [⟨"a\"\n", CommitId.ofNat 255, .couldNotPass true, ⟨true, true, 2⟩,
      some ⟨⟨.failed, -1, ⟨false, 4591870180066957722⟩⟩, ⟨.passed, 0, .zero⟩⟩⟩,
   .triaged "HEAD" (CommitId.ofNat 1) ⟨false, true, 1⟩ .codeChangeWithoutTests]

theorem document_recoverable_sample :
    ∃ contents items, parse? (ofEntries sampleEntries).document = some (.object contents) ∧
      lookup contents "commits" = some (.array items) ∧ List.Forall₂ Tells sampleEntries items ∧
      lookup contents "failures" = some (.ofNat 2) := by
  have hrange : ∀ c ∈ sampleEntries, c.InRange := by decide
  obtain ⟨contents, items, hparse, hitems, htells, hfailures, -⟩ := (document_recoverable hrange).1
  refine ⟨contents, items, hparse, hitems, htells, ?_⟩
  rw [hfailures, countP_isFailure htells]
  rfl

end RunReport

end CommitVerdict
