import CommitVerdict.Event.Display
import CommitVerdict.Json.Printer

namespace CommitVerdict

inductive LogFormat where
  | pretty
  | json
  | compact
deriving DecidableEq, Repr

namespace LogFormat

def default : LogFormat := .pretty

def name : LogFormat → String
  | .pretty => "Pretty"
  | .json => "Json"
  | .compact => "Compact"

end LogFormat

/-- The time of an event in the two forms in which it is shown. -/
structure Stamp where
  /-- The time of day, for the console. -/
  clock : String
  /-- The full time, for the log file. -/
  instant : String
deriving DecidableEq, Repr

/-- How events are shown on the console. -/
structure Logger where
  format : LogFormat
  showTestOutput : Bool
  colored : Bool
deriving DecidableEq, Repr

namespace Logger

def ofLines (lines : List String) : String := String.join (lines.map (· ++ "\n"))

/-- What the console receives for an event. -/
def console (logger : Logger) (stamp : Stamp) (event : Event) : String :=
  if event.isOutputLine && !logger.showTestOutput then ""
  else
    match logger.format with
    | .json => ofLines [event.toJson.compact]
    | .pretty => ofLines (event.prettyLines logger.colored)
    | .compact => ofLines [s!"[{stamp.clock}] {event.compactText}"]

/-- The document of an event in the log file, with the time at which it was logged and its fields sorted by
name. -/
def entry (stamp : Stamp) (event : Event) : Json :=
  Json.sorted (.object
    (("event", .string event.tag) :: event.fields ++ [("timestamp", .string stamp.instant)]))

/-- What the log file receives for an event. -/
def fileLine (stamp : Stamp) (event : Event) : String := (entry stamp event).compact ++ "\n"

/-- What the console receives for each event of a sequence. -/
def consoleTexts (logger : Logger) (events : List (Stamp × Event)) : List String :=
  events.map fun (stamp, event) => logger.console stamp event

/-- What the console receives for a sequence of events. -/
def consoleText (logger : Logger) (events : List (Stamp × Event)) : String :=
  String.join (logger.consoleTexts events)

/-- What the log file receives for a sequence of events. -/
def fileText (events : List (Stamp × Event)) : String :=
  String.join (events.map fun (stamp, event) => fileLine stamp event)

end Logger

end CommitVerdict
