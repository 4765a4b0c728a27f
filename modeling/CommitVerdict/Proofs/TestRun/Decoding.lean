import CommitVerdict.Proofs.Fallible
import CommitVerdict.Proofs.Json.Ordered
import CommitVerdict.Proofs.Number.Seconds
import CommitVerdict.TestRun
import Mathlib.Tactic.IntervalCases

namespace CommitVerdict

namespace Json

/-- What a decoder does not take it refuses; it never ends the program. -/
def Refuses {α : Type} (decode : Json → Decoded α) : Prop :=
  ∀ j e, decode j = .error e → e.aborts = false

theorem Refuses.ne {α : Type} {decode : Json → Decoded α} {e : DecodeError} (hrefuses : Refuses decode)
    (haborts : e.aborts = true) (j : Json) : decode j ≠ .error e := by
  intro herror
  rw [hrefuses j e herror] at haborts
  cases haborts

theorem refuses_string : Refuses decodeString := by
  intro j e herror
  cases j <;> cases herror <;> rfl

theorem refuses_integer (low high : Int) (expected : String) :
    Refuses (decodeInteger low high expected) := by
  intro j e herror
  unfold decodeInteger at herror
  dsimp only at herror
  split at herror
  · split at herror
    · split at herror <;> cases herror
      rfl
    · split at herror <;> cases herror
      rfl
    · cases herror
      rfl
  · cases herror
    rfl

theorem refuses_name {α : Type} (names : List (String × α)) : Refuses (decodeName names) := by
  intro j e herror
  unfold decodeName at herror
  dsimp only at herror
  split at herror
  · split at herror <;> cases herror
    rfl
  · rcases bind_eq_error_iff.mp herror with hname | ⟨value, -, hcontent⟩
    · split at hname <;> cases hname
      rfl
    · split at hcontent <;> cases hcontent
      rfl
  · cases herror
    rfl
  · cases herror
    rfl

/-- The double that a value is read as. -/
def StandsFor (v : Json) (x : Binary64) : Prop :=
  ∃ literal number, v = .number literal ∧ literal.reading? = some number ∧ number.toBinary64 = x

theorem decodeReal_eq_ok_iff {v : Json} {x : Binary64} : decodeReal v = .ok x ↔ v.StandsFor x := by
  cases v with
  | number literal => cases hreading : literal.reading? <;> simp [decodeReal, StandsFor, hreading]
  | null | bool | string | array | object => simp [decodeReal, StandsFor]

theorem refuses_real : Refuses decodeReal := by
  intro j e herror
  unfold decodeReal at herror
  split at herror
  · split at herror <;> cases herror
    rfl
  · cases herror
    rfl

theorem decodeDuration_eq_ok_iff {v : Json} {d : Duration} :
    decodeDuration v = .ok d ↔ ∃ x, v.StandsFor x ∧ 0 ≤ x.value ∧ x.value < 2 ^ 64 ∧ d.Nearest x.value := by
  constructor
  · intro hok
    obtain ⟨x, hreal, hseconds⟩ := bind_eq_ok hok
    refine ⟨x, decodeReal_eq_ok_iff.mp hreal, Duration.ofSeconds_eq_ok_iff.mp ?_⟩
    cases hof : Duration.ofSeconds x with
    | error reason =>
      rw [hof] at hseconds
      cases hseconds
    | ok d' =>
      rw [hof] at hseconds
      cases hseconds
      rfl
  · rintro ⟨x, hreads, hrange⟩
    simp only [decodeDuration, decodeReal_eq_ok_iff.mpr hreads]
    show (Duration.ofSeconds x).mapError DecodeError.duration = .ok d
    rw [Duration.ofSeconds_eq_ok_iff.mpr hrange]
    rfl

theorem decodeDuration_aborts_iff {v : Json} : (∃ e, decodeDuration v = .error e ∧ e.aborts = true) ↔
    ∃ x, v.StandsFor x ∧ (x.value < 0 ∨ 2 ^ 64 ≤ x.value) := by
  simp only [← Duration.exists_ofSeconds_eq_error_iff, ← decodeReal_eq_ok_iff]
  constructor
  · rintro ⟨e, herror, haborts⟩
    rcases bind_eq_error_iff.mp herror with hreal | ⟨x, hreal, hseconds⟩
    · exact absurd hreal (refuses_real.ne haborts v)
    · refine ⟨x, hreal, ?_⟩
      cases hof : Duration.ofSeconds x with
      | error reason => exact ⟨reason, rfl⟩
      | ok d =>
        rw [hof] at hseconds
        cases hseconds
  · rintro ⟨x, hreal, reason, hof⟩
    refine ⟨.duration reason, ?_, rfl⟩
    simp only [decodeDuration, hreal]
    show (Duration.ofSeconds x).mapError DecodeError.duration = _
    rw [hof]
    rfl

theorem require_eq_ok_iff {α : Type} {fields : List (String × Json)} {name : String}
    {decode : Json → Decoded α} {a : α} :
    require fields name decode = .ok a ↔ ∃ v, lookup fields name = some v ∧ decode v = .ok a := by
  rw [require]
  cases lookup fields name <;> simp

theorem require_eq_error {α : Type} {fields : List (String × Json)} {name : String}
    {decode : Json → Decoded α} {e : DecodeError} (herror : require fields name decode = .error e) :
    e = .missingField name ∨ ∃ v, lookup fields name = some v ∧ decode v = .error e := by
  rw [require] at herror
  split at herror
  · rename_i v hlookup
    exact .inr ⟨v, hlookup, herror⟩
  · cases herror
    exact .inl rfl

theorem rule_eq_error_iff {α : Type} {name : String} {decode : Json → Decoded α} {v : Json}
    {e : DecodeError} : (rule name decode).check v = .error e ↔ decode v = .error e := by
  have hcheck : (rule name decode).check v = (decode v).map fun _ => () := rfl
  rw [hcheck]
  cases decode v <;> simp [Except.map]

theorem mem_of_lookup {fields : List (String × Json)} {name : String} {v : Json}
    (hlookup : lookup fields name = some v) : (name, v) ∈ fields := by
  obtain ⟨⟨found, content⟩, hfind, rfl⟩ := Option.map_eq_some_iff.mp hlookup
  obtain rfl : found = name := by simpa using List.find?_some hfind
  exact List.mem_of_find?_eq_some hfind

end Json

namespace TestRun

open Json

variable {fields : List (String × Json)} {run : TestRun}

/-- The fields of a run in declaration order. -/
def rules : List FieldRule :=
  [rule "outcome" TestOutcome.decode, rule "stdout" decodeString, rule "stderr" decodeString,
    rule "exit_code" decodeExitCode, rule "duration" decodeDuration]

/-- The run of fields that have been checked. -/
def ofFields (fields : List (String × Json)) : Decoded TestRun := do
  return {
    outcome := ← require fields "outcome" TestOutcome.decode
    stdout := ← require fields "stdout" decodeString
    stderr := ← require fields "stderr" decodeString
    exitCode := ← require fields "exit_code" decodeExitCode
    duration := ← require fields "duration" decodeDuration }

theorem decode_eq (j : Json) : decode j = recordFields "TestRun" rules j >>= ofFields := rfl

/-- Five values are those of a run. -/
structure Values (outcome stdout stderr exitCode duration : Json) (run : TestRun) : Prop where
  outcome : TestOutcome.decode outcome = .ok run.outcome
  stdout : decodeString stdout = .ok run.stdout
  stderr : decodeString stderr = .ok run.stderr
  exitCode : decodeExitCode exitCode = .ok run.exitCode
  duration : ∃ x, duration.StandsFor x ∧ 0 ≤ x.value ∧ x.value < 2 ^ 64 ∧ run.duration.Nearest x.value

theorem ofFields_eq_ok_iff : ofFields fields = .ok run ↔ ∃ a b c d v, lookup fields "outcome" = some a ∧
    lookup fields "stdout" = some b ∧ lookup fields "stderr" = some c ∧
    lookup fields "exit_code" = some d ∧ lookup fields "duration" = some v ∧ Values a b c d v run := by
  constructor
  · intro hok
    obtain ⟨outcome, houtcome, hok⟩ := bind_eq_ok hok
    obtain ⟨stdout, hstdout, hok⟩ := bind_eq_ok hok
    obtain ⟨stderr, hstderr, hok⟩ := bind_eq_ok hok
    obtain ⟨exitCode, hexitCode, hok⟩ := bind_eq_ok hok
    obtain ⟨duration, hduration, hok⟩ := bind_eq_ok hok
    cases hok
    obtain ⟨a, ha, houtcome⟩ := require_eq_ok_iff.mp houtcome
    obtain ⟨b, hb, hstdout⟩ := require_eq_ok_iff.mp hstdout
    obtain ⟨c, hc, hstderr⟩ := require_eq_ok_iff.mp hstderr
    obtain ⟨d, hd, hexitCode⟩ := require_eq_ok_iff.mp hexitCode
    obtain ⟨v, hv, hduration⟩ := require_eq_ok_iff.mp hduration
    exact ⟨a, b, c, d, v, ha, hb, hc, hd, hv,
      ⟨houtcome, hstdout, hstderr, hexitCode, decodeDuration_eq_ok_iff.mp hduration⟩⟩
  · rintro ⟨a, b, c, d, v, ha, hb, hc, hd, hv, hvalues⟩
    simp only [ofFields, require_eq_ok_iff.mpr ⟨a, ha, hvalues.outcome⟩,
      require_eq_ok_iff.mpr ⟨b, hb, hvalues.stdout⟩, require_eq_ok_iff.mpr ⟨c, hc, hvalues.stderr⟩,
      require_eq_ok_iff.mpr ⟨d, hd, hvalues.exitCode⟩,
      require_eq_ok_iff.mpr ⟨v, hv, decodeDuration_eq_ok_iff.mpr hvalues.duration⟩]
    rfl

/-- Only the seconds of a run can end the program. -/
theorem abort_of_ofFields {e : DecodeError} (herror : ofFields fields = .error e) (haborts : e.aborts = true) :
    ∃ v, lookup fields "duration" = some v ∧ decodeDuration v = .error e := by
  have hrefused {α : Type} {name : String} {decode : Json → Decoded α} (hrefuses : Refuses decode) :
      require fields name decode ≠ .error e := by
    intro hrequire
    rcases require_eq_error hrequire with rfl | ⟨v, -, hbad⟩
    · cases haborts
    · exact hrefuses.ne haborts v hbad
  rcases bind_eq_error_iff.mp herror with hbad | ⟨outcome, -, herror⟩
  · exact absurd hbad (hrefused (refuses_name _))
  rcases bind_eq_error_iff.mp herror with hbad | ⟨stdout, -, herror⟩
  · exact absurd hbad (hrefused refuses_string)
  rcases bind_eq_error_iff.mp herror with hbad | ⟨stderr, -, herror⟩
  · exact absurd hbad (hrefused refuses_string)
  rcases bind_eq_error_iff.mp herror with hbad | ⟨exitCode, -, herror⟩
  · exact absurd hbad (hrefused (refuses_integer _ _ _))
  rcases bind_eq_error_iff.mp herror with hbad | ⟨duration, -, herror⟩
  · rcases require_eq_error hbad with rfl | hfound
    · cases haborts
    · exact hfound
  · cases herror

/-- Of the checks of a run's fields only that of the duration can end the program. -/
theorem eq_duration_of_check {r : FieldRule} {v : Json} {e : DecodeError} (hr : r ∈ rules)
    (herror : r.check v = .error e) (haborts : e.aborts = true) :
    r.name = "duration" ∧ decodeDuration v = .error e := by
  have hrefused {α : Type} {name : String} {decode : Json → Decoded α} (hrefuses : Refuses decode) :
      (rule name decode).check v ≠ .error e :=
    mt rule_eq_error_iff.mp (hrefuses.ne haborts v)
  simp only [rules, List.mem_cons, List.not_mem_nil, or_false] at hr
  rcases hr with rfl | rfl | rfl | rfl | rfl
  · exact absurd herror (hrefused (refuses_name _))
  · exact absurd herror (hrefused refuses_string)
  · exact absurd herror (hrefused refuses_string)
  · exact absurd herror (hrefused (refuses_integer _ _ _))
  · exact ⟨rfl, rule_eq_error_iff.mp herror⟩

section Object

/-- No other field of a run has a smaller name than the duration. -/
theorem not_lt_duration : ∀ r ∈ rules, ¬r.name < "duration" := by
  simp only [rules, List.forall_mem_cons, rule]
  decide

/-- The duration of an object is visited first. -/
theorem decode_object_of_duration {v : Json} {e : DecodeError} (hascending : Ascending fields)
    (hlookup : lookup fields "duration" = some v) (hbad : decodeDuration v = .error e) :
    decode (.object fields) = .error e := by
  obtain ⟨before, after, rfl, hbefore, -⟩ := hascending.exists_split hlookup
  have hunnamed : ∀ field ∈ before, ∀ r ∈ rules, r.name ≠ field.1 := by
    intro field hfield r hr hname
    exact not_lt_duration r hr (hname ▸ hbefore field hfield)
  have hvisit : visitFields rules (before ++ ("duration", v) :: after) = .error e := by
    rw [visitFields_append_of_unnamed hunnamed]
    exact visitFields_cons_of_error (r := rule "duration" decodeDuration) rfl (rule_eq_error_iff.mpr hbad)
  rw [decode_eq, recordFields, hvisit]
  rfl

theorem decode_object_aborts_iff (hascending : Ascending fields) {e : DecodeError} (haborts : e.aborts = true) :
    decode (.object fields) = .error e ↔
      ∃ v, lookup fields "duration" = some v ∧ decodeDuration v = .error e := by
  constructor
  · intro herror
    rcases bind_eq_error_iff.mp herror with hrecord | ⟨named, hrecord, hfields⟩
    · rcases bind_eq_error_iff.mp hrecord with hvisit | ⟨-, -, hnone⟩
      · obtain ⟨field, hfield, r, hr, hname, hcheck⟩ := exists_of_visitFields_eq_error hvisit
        obtain ⟨hduration, hbad⟩ := eq_duration_of_check hr hcheck haborts
        exact ⟨field.2, lookup_of_mem hascending.distinct (by rwa [← hduration, hname]), hbad⟩
      · cases hnone
    · obtain ⟨-, -, hnamed⟩ := bind_eq_ok hrecord
      cases hnamed
      exact abort_of_ofFields hfields haborts
  · rintro ⟨v, hlookup, hbad⟩
    exact decode_object_of_duration hascending hlookup hbad

theorem decode_object_eq_ok_iff (hascending : Ascending fields) :
    decode (.object fields) = .ok run ↔ ofFields fields = .ok run := by
  constructor
  · intro hok
    obtain ⟨named, hrecord, hfields⟩ := bind_eq_ok hok
    obtain ⟨-, -, hnamed⟩ := bind_eq_ok hrecord
    cases hnamed
    exact hfields
  · intro hfields
    obtain ⟨a, b, c, d, v, ha, hb, hc, hd, hv, hvalues⟩ := ofFields_eq_ok_iff.mp hfields
    have hfits : Fits rules [("outcome", a), ("stdout", b), ("stderr", c), ("exit_code", d), ("duration", v)] :=
      .cons (fits_rule hvalues.outcome) <| .cons (fits_rule hvalues.stdout) <|
        .cons (fits_rule hvalues.stderr) <| .cons (fits_rule hvalues.exitCode) <|
        .cons (fits_rule (decodeDuration_eq_ok_iff.mpr hvalues.duration)) .nil
    have hsubset : [("outcome", a), ("stdout", b), ("stderr", c), ("exit_code", d), ("duration", v)] ⊆ fields := by
      simp only [List.cons_subset, mem_of_lookup ha, mem_of_lookup hb, mem_of_lookup hc, mem_of_lookup hd,
        mem_of_lookup hv, List.nil_subset, and_self]
    rw [decode_eq, recordFields_object _ hfits hascending.distinct hsubset]
    exact hfields

end Object

section Array

variable {a b c d v : Json} {more : List Json}

/-- The items of an array are checked one after the other, and its length is looked at last. -/
theorem recordFields_array (a b c d v : Json) (more : List Json) :
    recordFields "TestRun" rules (.array (a :: b :: c :: d :: v :: more)) = (do
      let _ ← TestOutcome.decode a
      let _ ← decodeString b
      let _ ← decodeString c
      let _ ← decodeExitCode d
      let _ ← decodeDuration v
      if more = [] then
        .ok [("outcome", a), ("stdout", b), ("stderr", c), ("exit_code", d), ("duration", v)]
      else .error (.invalidLength (more.length + 5) "fewer elements in array")) := by
  have hlength : ¬(a :: b :: c :: d :: v :: more).length < rules.length := by
    simp [rules]
  have hmore : rules.length < (a :: b :: c :: d :: v :: more).length ↔ more ≠ [] := by
    simp [rules, List.length_pos_iff]
  simp only [recordFields, nameItems, hlength, hmore, if_false]
  have hcheck {α : Type} (name : String) (decode : Json → Decoded α) (j : Json) :
      (rule name decode).check j = (decode j).map fun _ => () := rfl
  simp only [rules, List.zip_cons_cons, List.zip_nil_left, List.forM_eq_forM, List.forM_cons, hcheck]
  rcases TestOutcome.decode a with e | outcome
  · rfl
  rcases decodeString b with e | stdout
  · rfl
  rcases decodeString c with e | stderr
  · rfl
  rcases decodeExitCode d with e | exitCode
  · rfl
  rcases decodeDuration v with e | duration
  · rfl
  by_cases hnil : more = []
  · subst hnil
    rfl
  · simp only [ne_eq, hnil, not_false_eq_true, if_true, if_false, List.length_cons]
    rfl

/-- The first four items of a run in an array are good. -/
structure GoodItems (a b c d : Json) : Prop where
  outcome : ∃ outcome, TestOutcome.decode a = .ok outcome
  stdout : ∃ stdout, decodeString b = .ok stdout
  stderr : ∃ stderr, decodeString c = .ok stderr
  exitCode : ∃ exitCode, decodeExitCode d = .ok exitCode

theorem of_recordFields_array {named : List (String × Json)}
    (hrecord : recordFields "TestRun" rules (.array (a :: b :: c :: d :: v :: more)) = .ok named) :
    more = [] ∧ (∃ duration, decodeDuration v = .ok duration) ∧
      named = [("outcome", a), ("stdout", b), ("stderr", c), ("exit_code", d), ("duration", v)] := by
  rw [recordFields_array] at hrecord
  obtain ⟨outcome, -, hrecord⟩ := bind_eq_ok hrecord
  obtain ⟨stdout, -, hrecord⟩ := bind_eq_ok hrecord
  obtain ⟨stderr, -, hrecord⟩ := bind_eq_ok hrecord
  obtain ⟨exitCode, -, hrecord⟩ := bind_eq_ok hrecord
  obtain ⟨duration, hduration, hrecord⟩ := bind_eq_ok hrecord
  split at hrecord
  · rename_i hnil
    exact ⟨hnil, ⟨duration, hduration⟩, (Except.ok.inj hrecord).symm⟩
  · cases hrecord

theorem decode_array_eq_ok_iff :
    decode (.array (a :: b :: c :: d :: v :: more)) = .ok run ↔ more = [] ∧ Values a b c d v run := by
  constructor
  · intro hok
    obtain ⟨named, hrecord, hfields⟩ := bind_eq_ok hok
    obtain ⟨hnil, -, rfl⟩ := of_recordFields_array hrecord
    obtain ⟨_, _, _, _, _, ha, hb, hc, hd, hv, hvalues⟩ := ofFields_eq_ok_iff.mp hfields
    cases ha
    cases hb
    cases hc
    cases hd
    cases hv
    exact ⟨hnil, hvalues⟩
  · rintro ⟨rfl, hvalues⟩
    rw [decode_eq, recordFields_array]
    simp only [hvalues.outcome, hvalues.stdout, hvalues.stderr, hvalues.exitCode,
      decodeDuration_eq_ok_iff.mpr hvalues.duration]
    exact ofFields_eq_ok_iff.mpr ⟨a, b, c, d, v, rfl, rfl, rfl, rfl, rfl, hvalues⟩

theorem decode_array_aborts_iff {e : DecodeError} (haborts : e.aborts = true) :
    decode (.array (a :: b :: c :: d :: v :: more)) = .error e ↔
      GoodItems a b c d ∧ decodeDuration v = .error e := by
  constructor
  · intro herror
    rw [decode_eq] at herror
    rcases bind_eq_error_iff.mp herror with hnamed | ⟨named, hrecord, hfields⟩
    · rw [recordFields_array] at hnamed
      rcases bind_eq_error_iff.mp hnamed with hbad | ⟨outcome, houtcome, hnamed⟩
      · exact absurd hbad ((refuses_name _).ne haborts a)
      rcases bind_eq_error_iff.mp hnamed with hbad | ⟨stdout, hstdout, hnamed⟩
      · exact absurd hbad (refuses_string.ne haborts b)
      rcases bind_eq_error_iff.mp hnamed with hbad | ⟨stderr, hstderr, hnamed⟩
      · exact absurd hbad (refuses_string.ne haborts c)
      rcases bind_eq_error_iff.mp hnamed with hbad | ⟨exitCode, hexitCode, hnamed⟩
      · exact absurd hbad ((refuses_integer _ _ _).ne haborts d)
      refine ⟨⟨⟨_, houtcome⟩, ⟨_, hstdout⟩, ⟨_, hstderr⟩, ⟨_, hexitCode⟩⟩, ?_⟩
      rcases bind_eq_error_iff.mp hnamed with hbad | ⟨duration, -, hlength⟩
      · exact hbad
      · split at hlength <;> cases hlength
        cases haborts
    · -- the duration has been read before, so it is good
      obtain ⟨-, ⟨duration, hduration⟩, rfl⟩ := of_recordFields_array hrecord
      obtain ⟨_, hv, hbad⟩ := abort_of_ofFields hfields haborts
      cases hv
      cases hduration.symm.trans hbad
  · rintro ⟨⟨⟨outcome, houtcome⟩, ⟨stdout, hstdout⟩, ⟨stderr, hstderr⟩, ⟨exitCode, hexitCode⟩⟩, hbad⟩
    rw [decode_eq, recordFields_array]
    simp only [houtcome, hstdout, hstderr, hexitCode, hbad]
    rfl

/-- Without a fifth item an array is refused. -/
theorem decode_array_of_short {items : List Json} (hshort : items.length < 5) :
    ∃ e, decode (.array items) = .error e ∧ e.aborts = false := by
  cases hrecord : recordFields "TestRun" rules (.array items) with
  | ok named =>
    have hlength := length_of_nameItems_eq_ok hrecord
    have hfive : rules.length = 5 := rfl
    omega
  | error e =>
    refine ⟨e, by rw [decode_eq, hrecord]; rfl, ?_⟩
    rcases exists_of_nameItems_eq_error hrecord with ⟨pair, hpair, hcheck⟩ | ⟨length, expected, rfl⟩
    · by_contra haborts
      obtain ⟨i, hi, hpair⟩ := List.mem_iff_getElem.mp hpair
      rw [List.length_zip] at hi
      have hrule : pair.1 = rules[i] := by rw [← hpair, List.getElem_zip]
      obtain ⟨hname, -⟩ := eq_duration_of_check (hrule ▸ List.getElem_mem _) hcheck (by simpa using haborts)
      rw [hrule] at hname
      have hi : i < 4 := by omega
      interval_cases i <;> simp [rules, rule] at hname
    · rfl

theorem short_or_five (items : List Json) :
    items.length < 5 ∨ ∃ a b c d v more, items = a :: b :: c :: d :: v :: more := by
  rcases items with _ | ⟨a, _ | ⟨b, _ | ⟨c, _ | ⟨d, _ | ⟨v, more⟩⟩⟩⟩⟩
  case cons.cons.cons.cons.cons => exact .inr ⟨a, b, c, d, v, more, rfl⟩
  all_goals exact .inl (by simp)

end Array

/-- A document describes a run. -/
inductive Describes : Json → TestRun → Prop
  | object {fields : List (String × Json)} {run : TestRun} {a b c d v : Json}
      (houtcome : lookup fields "outcome" = some a) (hstdout : lookup fields "stdout" = some b)
      (hstderr : lookup fields "stderr" = some c) (hexitCode : lookup fields "exit_code" = some d)
      (hduration : lookup fields "duration" = some v) (hvalues : Values a b c d v run) :
      Describes (.object fields) run
  | array {run : TestRun} {a b c d v : Json} (hvalues : Values a b c d v run) :
      Describes (.array [a, b, c, d, v]) run

/-- A value of a document is taken for the seconds of a run. -/
inductive TakesSeconds : Json → Json → Prop
  | object {fields : List (String × Json)} {v : Json} (hduration : lookup fields "duration" = some v) :
      TakesSeconds (.object fields) v
  | array {a b c d v : Json} {more : List Json} (hgood : GoodItems a b c d) :
      TakesSeconds (.array (a :: b :: c :: d :: v :: more)) v

theorem decode_sorted_eq_ok_iff (j : Json) : decode j.sorted = .ok run ↔ Describes j.sorted run := by
  cases hsorted : j.sorted with
  | object fields =>
    rw [decode_object_eq_ok_iff (ascending_of_sorted hsorted), ofFields_eq_ok_iff]
    constructor
    · rintro ⟨a, b, c, d, v, ha, hb, hc, hd, hv, hvalues⟩
      exact .object ha hb hc hd hv hvalues
    · rintro (⟨ha, hb, hc, hd, hv, hvalues⟩)
      exact ⟨_, _, _, _, _, ha, hb, hc, hd, hv, hvalues⟩
  | array items =>
    rcases short_or_five items with hshort | ⟨a, b, c, d, v, more, rfl⟩
    · obtain ⟨e, herror, -⟩ := decode_array_of_short hshort
      rw [herror]
      refine ⟨nofun, ?_⟩
      rintro (_ | _)
      simp at hshort
    · rw [decode_array_eq_ok_iff]
      constructor
      · rintro ⟨rfl, hvalues⟩
        exact .array hvalues
      · rintro (_ | hvalues)
        exact ⟨rfl, hvalues⟩
  | null | bool | number | string => exact ⟨nofun, nofun⟩

theorem decode_sorted_aborts_iff (j : Json) {e : DecodeError} (haborts : e.aborts = true) :
    decode j.sorted = .error e ↔ ∃ v, TakesSeconds j.sorted v ∧ decodeDuration v = .error e := by
  cases hsorted : j.sorted with
  | object fields =>
    rw [decode_object_aborts_iff (ascending_of_sorted hsorted) haborts]
    constructor
    · rintro ⟨v, hlookup, hbad⟩
      exact ⟨v, .object hlookup, hbad⟩
    · rintro ⟨v, ⟨hlookup⟩, hbad⟩
      exact ⟨v, hlookup, hbad⟩
  | array items =>
    rcases short_or_five items with hshort | ⟨a, b, c, d, v, more, rfl⟩
    · obtain ⟨e', herror, hrefused⟩ := decode_array_of_short hshort
      constructor
      · intro herror'
        cases herror.symm.trans herror'
        cases haborts.symm.trans hrefused
      · rintro ⟨v, htakes, -⟩
        cases htakes
        simp only [List.length_cons] at hshort
        omega
    · rw [decode_array_aborts_iff haborts]
      constructor
      · rintro ⟨hgood, hbad⟩
        exact ⟨v, .array hgood, hbad⟩
      · rintro ⟨_, _ | hgood, hbad⟩
        exact ⟨hgood, hbad⟩
  | null | bool | number | string =>
    constructor
    · intro herror
      cases herror
      cases haborts
    · rintro ⟨v, htakes, -⟩
      cases htakes

/-- A document gives the run that it describes, with the duration nearest to its seconds, and it ends the program
exactly if the seconds that are taken from it are negative or from `2 ^ 64` on. Whatever else is wrong with a
document is refused. -/
theorem decode_sorted (j : Json) :
    (∀ run, decode j.sorted = .ok run ↔ Describes j.sorted run) ∧
      ((∃ e, decode j.sorted = .error e ∧ e.aborts = true) ↔
        ∃ v x, TakesSeconds j.sorted v ∧ v.StandsFor x ∧ (x.value < 0 ∨ 2 ^ 64 ≤ x.value)) := by
  refine ⟨fun run => decode_sorted_eq_ok_iff j, ?_⟩
  constructor
  · rintro ⟨e, herror, haborts⟩
    obtain ⟨v, htakes, hbad⟩ := (decode_sorted_aborts_iff j haborts).mp herror
    obtain ⟨x, hreads, hrange⟩ := decodeDuration_aborts_iff.mp ⟨e, hbad, haborts⟩
    exact ⟨v, x, htakes, hreads, hrange⟩
  · rintro ⟨v, x, htakes, hreads, hrange⟩
    obtain ⟨e, hbad, haborts⟩ := decodeDuration_aborts_iff.mpr ⟨x, hreads, hrange⟩
    exact ⟨e, (decode_sorted_aborts_iff j haborts).mpr ⟨v, htakes, hbad⟩, haborts⟩

/-- A run whose duration is negative ends the program, although the rest of it is good. -/
theorem decode_negative_aborts :
    let j : Json := .object [("outcome", .string "passed"), ("stdout", .string "o"), ("stderr", .string "e"),
      ("exit_code", .ofInt 0), ("duration", .ofInt (-1))]
    decode j.sorted = .error (.duration .negative) ∧ (DecodeError.duration .negative).aborts = true := by
  decide +kernel

end TestRun

end CommitVerdict
