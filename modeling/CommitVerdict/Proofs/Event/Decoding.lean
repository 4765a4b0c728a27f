import CommitVerdict.Event.Basic
import CommitVerdict.Proofs.Json.Readings
import CommitVerdict.Proofs.Json.Records

namespace CommitVerdict

theorem Phase.decode_toJson (p : Phase) : decode p.toJson = .ok p := by
  cases p <;> rfl

theorem OutputStream.decode_toJson (s : OutputStream) : decode s.toJson = .ok s := by
  cases s <;> rfl

namespace Json

theorem decodeStrings_ofStrings (xs : List String) : decodeList decodeString (.ofStrings xs) = .ok xs := by
  have hitems : (xs.map Json.string).mapM decodeString = .ok xs := by
    induction xs with
    | nil => rfl
    | cons x xs ih =>
      rw [List.map_cons, List.mapM_cons, ih]
      rfl
  exact hitems

end Json

namespace Event

open Json

/-- The numbers of the event fit their types, and its duration is finite. -/
def InRange : Event → Prop
  | .commitClassified _ filesChanged _ _ => filesChanged < 2 ^ 64
  | .phaseCompleted _ _ _ exitCode seconds =>
    (-2 ^ 31 ≤ exitCode ∧ exitCode < 2 ^ 31) ∧ seconds.isFinite = true
  | .runCompleted commits failures seconds =>
    (commits < 2 ^ 64 ∧ failures < 2 ^ 64) ∧ seconds.isFinite = true
  | _ => True

instance : (e : Event) → Decidable e.InRange
  | .commitClassified _ filesChanged _ _ => inferInstanceAs (Decidable (filesChanged < 2 ^ 64))
  | .phaseCompleted _ _ _ exitCode seconds =>
    inferInstanceAs (Decidable ((-2 ^ 31 ≤ exitCode ∧ exitCode < 2 ^ 31) ∧ seconds.isFinite = true))
  | .runCompleted commits failures seconds =>
    inferInstanceAs (Decidable ((commits < 2 ^ 64 ∧ failures < 2 ^ 64) ∧ seconds.isFinite = true))
  | .runStarted .. | .workspaceCreated .. | .referenceResolved .. | .phaseStarted .. | .outputLine ..
  | .verdictReached .. | .workspaceRemoved .. | .errorEncountered .. => inferInstanceAs (Decidable True)

/-- The duration of an event, if it has one. -/
def seconds? : Event → Option Binary64
  | .phaseCompleted _ _ _ _ seconds => some seconds
  | .runCompleted _ _ seconds => some seconds
  | _ => none

/-- The event with another duration. -/
def mapSeconds (f : Binary64 → Binary64) : Event → Event
  | .phaseCompleted commit phase passed exitCode seconds =>
    .phaseCompleted commit phase passed exitCode (f seconds)
  | .runCompleted commits failures seconds => .runCompleted commits failures (f seconds)
  | other => other

/-- An event is what is left of it without its duration, and its duration. -/
theorem eq_of_mapSeconds {f : Binary64 → Binary64} {e other : Event}
    (hrest : e.mapSeconds f = other.mapSeconds f) (hseconds : e.seconds? = other.seconds?) : e = other := by
  cases e <;> cases other <;> simp_all [mapSeconds, seconds?]

variable {e : Event}

theorem mapSeconds_eq_self {f : Binary64 → Binary64} (hseconds : ∀ x ∈ e.seconds?, f x = x) :
    e.mapSeconds f = e := by
  cases e <;> simp_all [mapSeconds, seconds?]

theorem InRange.isFinite (hrange : e.InRange) : ∀ x ∈ e.seconds?, x.isFinite = true := by
  cases e <;> simp_all [InRange, seconds?]

theorem sorted_fields (e : Event) : ∀ field ∈ e.fields, field.2.sorted = field.2 := by
  cases e <;> simp [fields, Json.sorted, Json.sorted_ofStrings, Json.ofNat, Json.ofInt, Phase.toJson,
    OutputStream.toJson]

/-- The names of the fields of an event in the log file. -/
theorem distinct_fields (e : Event) (time : Json) :
    Json.Distinct (("event", .string e.tag) :: e.fields ++ [("timestamp", time)]) := by
  cases e <;> simp [Json.Distinct, fields]

theorem exists_variant (hrange : e.InRange) :
    ∃ variant, variantRules.find? (fun variant => variant.tag == e.tag) = some variant ∧
      Json.Fits variant.fields e.fields := by
  cases e with
  | runStarted repository references testCommand =>
    exact ⟨_, rfl, .cons (fits_rule rfl)
      (.cons (fits_rule (decodeStrings_ofStrings references)) (.cons (fits_rule rfl) .nil))⟩
  | workspaceCreated path | workspaceRemoved path => exact ⟨_, rfl, .cons (fits_rule rfl) .nil⟩
  | errorEncountered error => exact ⟨_, rfl, .cons (fits_rule rfl) .nil⟩
  | referenceResolved reference commit =>
    exact ⟨_, rfl, .cons (fits_rule rfl) (.cons (fits_rule rfl) .nil)⟩
  | commitClassified commit filesChanged touchesTests touchesCode =>
    exact ⟨_, rfl, .cons (fits_rule rfl) (.cons (fits_rule (decodeCount_ofNat hrange))
      (.cons (fits_rule rfl) (.cons (fits_rule rfl) .nil)))⟩
  | phaseStarted commit phase =>
    exact ⟨_, rfl, .cons (fits_rule rfl) (.cons (fits_rule phase.decode_toJson) .nil)⟩
  | outputLine commit phase stream line =>
    exact ⟨_, rfl, .cons (fits_rule rfl) (.cons (fits_rule phase.decode_toJson)
      (.cons (fits_rule stream.decode_toJson) (.cons (fits_rule rfl) .nil)))⟩
  | phaseCompleted commit phase passed exitCode seconds =>
    exact ⟨_, rfl, .cons (fits_rule rfl) (.cons (fits_rule phase.decode_toJson) (.cons (fits_rule rfl)
      (.cons (fits_rule (decodeExitCode_ofInt hrange.1.1 hrange.1.2))
        (.cons (fits_rule (decodeReal_literal hrange.2)) .nil))))⟩
  | verdictReached commit verdict legitimate =>
    exact ⟨_, rfl, .cons (fits_rule rfl) (.cons (fits_rule rfl) (.cons (fits_rule rfl) .nil))⟩
  | runCompleted commits failures seconds =>
    exact ⟨_, rfl, .cons (fits_rule (decodeCount_ofNat hrange.1.1))
      (.cons (fits_rule (decodeCount_ofNat hrange.1.2)) (.cons (fits_rule (decodeReal_literal hrange.2)) .nil))⟩

/-- A document with the fields of an event is decoded as that event. -/
theorem decode_object (hrange : e.InRange) {others contents : List (String × Json)}
    (hdistinct : Distinct (("event", .string e.tag) :: e.fields ++ others))
    (hperm : contents.Perm (("event", .string e.tag) :: e.fields ++ others)) :
    decode (.object contents) = .ok (e.mapSeconds Binary64.reread) := by
  obtain ⟨variant, hvariant, hfits⟩ := exists_variant hrange
  obtain ⟨rest, htagged, hrest⟩ := taggedFields_object "LogEvent" hvariant hfits hdistinct hperm
  have hnames : Distinct rest := hdistinct.tail.perm hrest.symm
  have hlookup : ∀ field ∈ e.fields, lookup rest field.1 = some field.2 := fun field hmem =>
    lookup_of_mem hnames (hrest.mem_iff.mpr (List.mem_append_left _ hmem))
  simp only [decode, htagged, bind, Except.bind, pure, Except.pure]
  cases e <;> simp only [fields, List.forall_mem_cons] at hlookup <;>
    simp only [tag, require, hlookup, decodeStrings_ofStrings, Phase.decode_toJson, OutputStream.decode_toJson]
  case commitClassified =>
    rw [decodeCount_ofNat hrange]
    rfl
  case phaseCompleted =>
    rw [decodeExitCode_ofInt hrange.1.1 hrange.1.2, decodeReal_literal hrange.2]
    rfl
  case runCompleted =>
    rw [decodeCount_ofNat hrange.1.1, decodeCount_ofNat hrange.1.2, decodeReal_literal hrange.2]
    rfl
  all_goals rfl

/-- What is recovered of an event from the fields of a document: they are decoded as the event, and the number
that stands for its duration is the one that is printed for it. The double that a reader makes of that number
is the duration again if the number is short, and may be rounded otherwise. -/
structure Recovered (e : Event) (contents : List (String × Json)) : Prop where
  decoded : decode (.object contents) = .ok (e.mapSeconds Binary64.reread)
  seconds : lookup contents "duration_secs" = e.seconds?.map fun x => .number x.literal
  unrounded : (∀ x ∈ e.seconds?, x.IsShort) → decode (.object contents) = .ok e

theorem recovered (hrange : e.InRange) {others contents : List (String × Json)}
    (hdistinct : Distinct (("event", .string e.tag) :: e.fields ++ others))
    (hothers : ∀ field ∈ others, field.1 ≠ "duration_secs")
    (hperm : contents.Perm (("event", .string e.tag) :: e.fields ++ others)) : e.Recovered contents where
  decoded := decode_object hrange hdistinct hperm
  seconds := by
    cases hseconds : e.seconds? with
    | none =>
      refine lookup_eq_none fun field hmem => ?_
      have hfields : ∀ field ∈ e.fields, field.1 ≠ "duration_secs" := by
        cases e <;> simp_all [seconds?, fields]
      rcases List.mem_append.mp (hperm.mem_iff.mp hmem) with hown | hother
      · rcases List.mem_cons.mp hown with rfl | hfield
        · simp
        · exact hfields field hfield
      · exact hothers field hother
    | some x =>
      have hfield : ("duration_secs", .number x.literal) ∈ e.fields := by
        cases e <;> simp_all [seconds?, fields]
      exact lookup_of_mem (hdistinct.perm hperm.symm)
        (hperm.mem_iff.mpr (List.mem_append_left _ (List.mem_cons_of_mem _ hfield)))
  unrounded hshort := by
    have hsame := mapSeconds_eq_self fun x hx => Binary64.reread_eq_self (hrange.isFinite x hx) (hshort x hx)
    rw [decode_object hrange hdistinct hperm, hsame]

/-- No two events are recovered from the same fields. -/
theorem Recovered.unique {other : Event} {contents : List (String × Json)} (hrecovered : e.Recovered contents)
    (hother : other.Recovered contents) : e = other := by
  have hrest := Except.ok.inj (hrecovered.decoded.symm.trans hother.decoded)
  have hseconds := hrecovered.seconds.symm.trans hother.seconds
  refine eq_of_mapSeconds hrest (Option.map_injective (fun x y heq => ?_) hseconds)
  exact Binary64.literal_injective (Json.number.inj heq)

end Event

end CommitVerdict
