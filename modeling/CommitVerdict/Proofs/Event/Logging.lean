import CommitVerdict.Session
import CommitVerdict.Proofs.Event.Decoding
import CommitVerdict.Proofs.FileSystem.Contents
import CommitVerdict.Proofs.Json.Documents
import CommitVerdict.Proofs.Text.Encoding

namespace CommitVerdict

open Json

theorem Json.newline_notMem_compact (j : Json) : '\n' ∉ j.compact.toList := by
  intro hmem
  rw [compact, String.toList_ofList] at hmem
  exact absurd (visible_compact j 0 _ hmem) (by decide)

namespace Logger

variable {logger : Logger} {stamp : Stamp} {e : Event} {events : List (Stamp × Event)}

/-- A line that holds one object, from which an event can be recovered and in which other fields stand too. -/
def Holds (e : Event) (others : List (String × Json)) (line : String) : Prop :=
  '\n' ∉ line.toList ∧ ∃ contents, parse? line = some (.object contents) ∧ e.Recovered contents ∧
    ∀ field ∈ others, lookup contents field.1 = some field.2

/-- No two events are on one line. -/
theorem Holds.unique {other : Event} {others more : List (String × Json)} {line : String}
    (hholds : Holds e others line) (hother : Holds other more line) : e = other := by
  obtain ⟨-, contents, hparse, hrecovered, -⟩ := hholds
  obtain ⟨-, again, hagain, hunique, -⟩ := hother
  obtain rfl : contents = again := by simpa [hparse] using hagain
  exact hrecovered.unique hunique

theorem holds_entry (hrange : e.InRange) (stamp : Stamp) :
    Holds e [("timestamp", .string stamp.instant)] (entry stamp e).compact := by
  have hdistinct := e.distinct_fields (.string stamp.instant)
  have hflat : ∀ field ∈ ("event", Json.string e.tag) :: e.fields ++ [("timestamp", .string stamp.instant)],
      field.2.sorted = field.2 := by
    intro field hmem
    rcases List.mem_append.mp hmem with hown | htime
    · rcases List.mem_cons.mp hown with rfl | hfield
      · rfl
      · exact e.sorted_fields field hfield
    · obtain rfl := List.mem_singleton.mp htime
      rfl
  obtain ⟨contents, hentry, hperm⟩ := sorted_object hdistinct hflat
  refine ⟨newline_notMem_compact _, contents, ?_, Event.recovered hrange hdistinct (by simp) hperm, ?_⟩
  · rw [parse?_compact, entry, hentry]
  · intro field hmem
    exact lookup_of_mem (hdistinct.perm hperm.symm) (hperm.mem_iff.mpr (List.mem_append_right _ hmem))

theorem holds_toJson (hrange : e.InRange) : Holds e [] e.toJson.compact := by
  have hdistinct : Distinct (("event", .string e.tag) :: e.fields ++ []) := by
    rw [List.append_nil]
    exact (e.distinct_fields .null).sublist ((List.sublist_append_left _ _).map _)
  refine ⟨newline_notMem_compact _, _, parse?_compact _, ?_, nofun⟩
  exact Event.recovered hrange hdistinct nofun (by simp)

theorem ofLines_cons (line : String) (lines : List String) :
    ofLines (line :: lines) = line ++ "\n" ++ ofLines lines := by
  rw [ofLines, List.map_cons, String.join_cons, ofLines]

theorem ofLines_singleton (line : String) : ofLines [line] = line ++ "\n" := by
  rw [ofLines_cons]
  exact String.append_empty

theorem toList_ofLines_cons (line : String) (lines : List String) :
    (ofLines (line :: lines)).toList = line.toList ++ '\n' :: (ofLines lines).toList := by
  rw [ofLines_cons, String.toList_append, String.toList_append, List.append_assoc]
  rfl

theorem takeWhile_line {cs : List Char} (hline : '\n' ∉ cs) (rest : List Char) :
    (cs ++ '\n' :: rest).takeWhile (· != '\n') = cs := by
  have hall : ∀ c ∈ cs, (c != '\n') = true := by
    intro c hmem
    rw [bne_iff_ne]
    rintro rfl
    exact hline hmem
  rw [List.takeWhile_append_of_pos hall, List.takeWhile_cons_of_neg (by simp), List.append_nil]

/-- Lines without line ends are told apart by the line ends behind them. -/
theorem ofLines_injective {lines others : List String} (hlines : ∀ line ∈ lines, '\n' ∉ line.toList)
    (hothers : ∀ line ∈ others, '\n' ∉ line.toList) (heq : ofLines lines = ofLines others) :
    lines = others := by
  have hne (line : String) (rest : List String) : (ofLines (line :: rest)).toList ≠ [] := by
    simp [toList_ofLines_cons]
  induction lines generalizing others with
  | nil =>
    cases others with
    | nil => rfl
    | cons other more => exact absurd (congrArg String.toList heq).symm (hne other more)
  | cons line rest ih =>
    cases others with
    | nil => exact absurd (congrArg String.toList heq) (hne line rest)
    | cons other more =>
      obtain ⟨hline, hrest⟩ := List.forall_mem_cons.mp hlines
      obtain ⟨hother, hmore⟩ := List.forall_mem_cons.mp hothers
      have hchars := congrArg String.toList heq
      rw [toList_ofLines_cons, toList_ofLines_cons] at hchars
      have hsame := congrArg (List.takeWhile (· != '\n')) hchars
      rw [takeWhile_line hline, takeWhile_line hother] at hsame
      rw [hsame] at hchars
      have hbehind := (List.cons.inj (List.append_cancel_left hchars)).2
      rw [String.toList_injective hsame, ih hrest hmore (String.toList_injective hbehind)]

theorem fileText_eq (events : List (Stamp × Event)) :
    fileText events = ofLines (events.map fun row => (entry row.1 row.2).compact) := by
  rw [fileText, ofLines, List.map_map]
  rfl

theorem fileText_cons (row : Stamp × Event) (rest : List (Stamp × Event)) :
    fileText (row :: rest) = fileLine row.1 row.2 ++ fileText rest := by
  rw [fileText, List.map_cons, String.join_cons, fileText]

theorem consoleText_cons (row : Stamp × Event) (rest : List (Stamp × Event)) :
    logger.consoleText (row :: rest) = logger.console row.1 row.2 ++ logger.consoleText rest := by
  rw [consoleText, consoleTexts, List.map_cons, String.join_cons]
  rfl

theorem console_json (shows colored : Bool) (stamp : Stamp) (e : Event) :
    (⟨.json, shows, colored⟩ : Logger).console stamp e =
      if e.isOutputLine && !shows then "" else e.toJson.compact ++ "\n" := by
  rw [console, ← ofLines_singleton]

/-- The console shows the events as documents, each on a line, without the output of the suite unless it is
asked for. -/
theorem consoleText_json (shows colored : Bool) (events : List (Stamp × Event)) :
    (⟨.json, shows, colored⟩ : Logger).consoleText events =
      ofLines ((events.filter fun row => shows || !row.2.isOutputLine).map fun row =>
        row.2.toJson.compact) := by
  induction events with
  | nil => rfl
  | cons row rest ih =>
    rw [consoleText_cons, ih, console_json]
    cases hhidden : row.2.isOutputLine && !shows with
    | true =>
      have hdrop : (shows || !row.2.isOutputLine) = false := by grind
      rw [if_pos rfl, List.filter_cons_of_neg (by simpa using hdrop), String.empty_append]
    | false =>
      have hkeep : (shows || !row.2.isOutputLine) = true := by grind
      rw [if_neg Bool.false_ne_true, List.filter_cons_of_pos (by simpa using hkeep), List.map_cons,
        ofLines_cons]

/-- Every event is on the line of a log file that stands in its place. -/
theorem fileText_holds (hrange : ∀ row ∈ events, row.2.InRange) :
    ∃ lines, fileText events = ofLines lines ∧
      List.Forall₂ (fun row line => Holds row.2 [("timestamp", .string row.1.instant)] line) events lines := by
  refine ⟨_, fileText_eq events, ?_⟩
  rw [List.forall₂_map_right_iff, List.forall₂_same]
  exact fun row hmem => holds_entry (hrange row hmem) row.1

/-- Every event that is shown is on the line of the console that stands in its place. -/
theorem consoleText_holds (shows colored : Bool) (hrange : ∀ row ∈ events, row.2.InRange) :
    ∃ lines, (⟨.json, shows, colored⟩ : Logger).consoleText events = ofLines lines ∧
      List.Forall₂ (fun row line => Holds row.2 [] line)
        (events.filter fun row => shows || !row.2.isOutputLine) lines := by
  refine ⟨_, consoleText_json shows colored events, ?_⟩
  rw [List.forall₂_map_right_iff, List.forall₂_same]
  exact fun row hmem => holds_toJson (hrange row (List.mem_of_mem_filter hmem))

theorem holds_leftUnique : Relator.LeftUnique fun e line => ∃ others, Holds e others line := by
  rintro e other line ⟨others, hholds⟩ ⟨more, hother⟩
  exact hholds.unique hother

/-- No two sequences of events have one log. -/
theorem eq_of_fileText {others : List (Stamp × Event)} (hrange : ∀ row ∈ events, row.2.InRange)
    (hothers : ∀ row ∈ others, row.2.InRange) (htext : fileText others = fileText events) :
    others.map (·.2) = events.map (·.2) := by
  have hunbroken (rows : List (Stamp × Event)) :
      ∀ line ∈ rows.map fun row => (entry row.1 row.2).compact, '\n' ∉ line.toList := by
    intro line hmem
    obtain ⟨row, -, rfl⟩ := List.mem_map.mp hmem
    exact newline_notMem_compact _
  have htold {rows : List (Stamp × Event)} (hrows : ∀ row ∈ rows, row.2.InRange) :
      List.Forall₂ (fun e line => ∃ others, Holds e others line) (rows.map (·.2))
        (rows.map fun row => (entry row.1 row.2).compact) := by
    rw [List.forall₂_map_left_iff, List.forall₂_map_right_iff, List.forall₂_same]
    exact fun row hmem => ⟨_, holds_entry (hrows row hmem) row.1⟩
  rw [fileText_eq, fileText_eq] at htext
  have hlines := ofLines_injective (hunbroken others) (hunbroken events) htext
  have hothersTold := htold hothers
  rw [hlines] at hothersTold
  exact List.left_unique_forall₂' holds_leftUnique hothersTold (htold hrange)

end Logger

/-- What the console shows of the events matters to no file. -/
theorem Session.run_files_eq (o : Options) (s : Surroundings) (format : LogFormat) (shows : Bool) :
    (run { o with logFormat := format, showTestOutput := shows } s).files = (run o s).files := by
  let other : Options := { o with logFormat := format, showTestOutput := shows }
  have hstart : start other s = start o s := rfl
  have hopen : openLog other s = openLog o s := rfl
  rw [run, run, runWith, runWith, hstart, hopen]
  split
  · rfl
  · split
    · rfl
    · split
      · rfl
      · dsimp only
        split <;> rfl

namespace LogFile

open FileSystem

/-- What an event adds to a log file. -/
theorem contentAt_log (fs : FileSystem) (place : Path) (row : Stamp × Event) :
    contentAt (log fs place row) place = contentAt fs place ++ Utf8.encode (Logger.fileLine row.1 row.2) :=
  contentAt_append

/-- What events add to a log file. -/
theorem contentAt_record (fs : FileSystem) (place : Path) (events : List (Stamp × Event)) :
    contentAt (record fs place events) place = contentAt fs place ++ Utf8.encode (Logger.fileText events) := by
  induction events generalizing fs with
  | nil => exact (List.append_nil _).symm
  | cons row rest ih =>
    have hstep : record fs place (row :: rest) = record (log fs place row) place rest := rfl
    rw [hstep, ih, contentAt_log, Logger.fileText_cons, Utf8.encode_append, List.append_assoc]

/-- A log file keeps what it held before, and then the events that are logged, in order, each on a line of its
own from which it is recovered with its time, so that no other events leave the same file. The console that
shows documents shows the same events, without the output of the suite unless it is asked for, and neither
choice matters to any file of a session. -/
theorem record_recoverable {fs opened : FileSystem} {place directory : Path} {path : String}
    {events : List (Stamp × Event)} (hopened : openAt fs directory path = .ok (place, opened))
    (hrange : ∀ row ∈ events, row.2.InRange) :
    (∃ lines, contentAt (record opened place events) place =
        contentAt fs place ++ Utf8.encode (Logger.ofLines lines) ∧
      List.Forall₂ (fun row line => Logger.Holds row.2 [("timestamp", .string row.1.instant)] line)
        events lines) ∧
    (∀ others : List (Stamp × Event), (∀ row ∈ others, row.2.InRange) →
      contentAt (record opened place others) place = contentAt (record opened place events) place →
      others.map (·.2) = events.map (·.2)) ∧
    (∀ shows colored, ∃ lines,
      (⟨.json, shows, colored⟩ : Logger).consoleText events = Logger.ofLines lines ∧
      List.Forall₂ (fun row line => Logger.Holds row.2 [] line)
        (events.filter fun row => shows || !row.2.isOutputLine) lines) ∧
    ∀ (o : Options) (s : Surroundings) (format : LogFormat) (shows : Bool),
      (Session.run { o with logFormat := format, showTestOutput := shows } s).files =
        (Session.run o s).files := by
  refine ⟨?_, fun others hothers hcontent => ?_, fun shows colored => ?_, Session.run_files_eq⟩
  · obtain ⟨lines, htext, hholds⟩ := Logger.fileText_holds hrange
    exact ⟨lines, by rw [contentAt_record, contentAt_openAt hopened, htext], hholds⟩
  · rw [contentAt_record, contentAt_record] at hcontent
    have htext := Utf8.encode_injective (List.append_cancel_left hcontent)
    exact Logger.eq_of_fileText hrange hothers htext
  · exact Logger.consoleText_holds shows colored hrange

/-- A line that ends a line and a quote, and a duration, in a new log file. -/
def sampleEvents : List (Stamp × Event) :=
  [(⟨"12:00:00", "2024-01-01T12:00:00Z"⟩, .outputLine "0123456789" .preChange .stderr "\"\n\\"),
   (⟨"12:00:01", "2024-01-01T12:00:01Z"⟩, .runCompleted 1 0 ⟨false, 4591870180066957722⟩)]

theorem openAt_sample : openAt Tree.empty [] "log" = .ok (["log"], setContent Tree.empty ["log"] []) := by
  have hspells : FileSystem.Spells "log" ["log"] := by decide
  have hwalk : walk Tree.empty true linkBudget ["log"] [] = .ok ["log"] :=
    Straight.walk_eq (.cons (by decide) (.inl rfl) .nil)
  have hparent : attemptParent Tree.empty [] "log" = (.ok (), Tree.empty) := by
    have hempty : PathText.parent? "log" = some "" := by decide
    simp only [attemptParent, hempty]
    rfl
  have hopen : openForAppending Tree.empty [] "log" = .ok (["log"], setContent Tree.empty ["log"] []) := by
    have horigin : origin [] "log" = [] := by decide
    rw [openForAppending, placeForWriting, hspells.place_eq, horigin, hwalk]
    rfl
  simp only [openAt_eq_ok_iff, attempt, hparent, hopen]

theorem record_recoverable_sample :
    ∃ lines, contentAt (record (setContent Tree.empty ["log"] []) ["log"] sampleEvents) ["log"] =
        Utf8.encode (Logger.ofLines lines) ∧
      List.Forall₂ (fun row line => Logger.Holds row.2 [("timestamp", .string row.1.instant)] line)
        sampleEvents lines :=
  (record_recoverable openAt_sample (by decide)).1

end LogFile

end CommitVerdict
