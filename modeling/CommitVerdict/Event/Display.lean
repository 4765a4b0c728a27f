import CommitVerdict.Event.Basic
import CommitVerdict.Text.Style

namespace CommitVerdict

/-- Cuts a text to `maxLength` characters, the last three of them dots, fills it with spaces and
ends it with the border, `width` characters in all. -/
def bannerField (text : String) (maxLength width : Nat) : String :=
  let cs := text.toList
  let shown :=
    if maxLength < cs.length then cs.take (maxLength - 3) ++ ['.', '.', '.'] else cs
  String.ofList (shown ++ List.replicate (width - (shown.length + 1)) ' ' ++ ['│'])

namespace Event

/-- Columns between the corners of the boxes. -/
def boxWidth : Nat := 69

def rule (width : Nat) : String := String.ofList (List.replicate width '─')

/-- The lines of an event in the pretty form, styles included if there are colours. -/
def prettyLines (colored : Bool) (event : Event) : List String :=
  let paint (style : Style) (text : String) : String := style.paint colored text
  match event with
  | .runStarted repository references testCommand =>
    let border := paint .brightBlue "│"
    let row (label field : String) : String :=
      s!"{border}  {paint .dimmed label} {paint .dimmed field}"
    ["",
     paint .brightBlue ("╭" ++ rule boxWidth ++ "╮"),
     border ++ "  " ++ paint Style.brightWhite.bold "legitest"
       ++ String.ofList (List.replicate 59 ' ') ++ border,
     row "Repo:" (bannerField repository 60 67),
     row "Tests:" (bannerField testCommand 59 66),
     row "Refs:" (bannerField (" ".intercalate references) 60 67),
     paint .brightBlue ("╰" ++ rule boxWidth ++ "╯"),
     ""]
  | .workspaceCreated path =>
    [String.join ["  ", paint .dimmed "Workspace:", " ", paint .dimmed path]]
  | .referenceResolved reference commit =>
    let arrow := paint .dimmed "→"
    [s!"  {paint .brightWhite reference} {arrow} {paint .dimmed commit}"]
  | .commitClassified commit filesChanged touchesTests touchesCode =>
    let text := s!"─ Commit {commit} "
    let mark (touched : Bool) : String :=
      if touched then paint .brightWhite "yes" else paint .dimmed "no"
    let noun := if filesChanged = 1 then "file" else "files"
    let icon := paint .dimmed "📁"
    ["",
     paint .brightBlue "┌" ++ paint Style.brightBlue.bold text
       ++ paint .brightBlue (rule (67 - text.length)),
     s!"    {icon} {filesChanged} {noun}, tests: {mark touchesTests}, "
       ++ s!"code: {mark touchesCode}"]
  | .phaseStarted _ phase =>
    let arrow := paint .brightCyan "▶"
    [s!"  {arrow} {paint Style.brightCyan.bold phase.banner}"]
  | .outputLine _ _ stream line =>
    let style := match stream with
      | .stdout => Style.plain
      | .stderr => Style.dimmed
    let border := paint .dimmed "    │"
    [s!"{border} {paint style line}"]
  | .phaseCompleted _ phase passed _ seconds =>
    let outcome := if passed then "Passed" else "Failed"
    let (mark, manner) :=
      if passed == phase.expectsPass then (paint .brightGreen "✓", "as expected")
      else (paint .brightRed "✗", "unexpectedly")
    [s!"    {mark} {outcome} {manner} ({seconds.oneDecimal}s)"]
  | .verdictReached _ verdict legitimate =>
    let styled :=
      if legitimate then paint .brightGreen s!"✓ {verdict}" else paint .brightRed s!"✗ {verdict}"
    [s!"    {styled}", paint .brightBlue ("└" ++ rule boxWidth ++ "┘")]
  | .runCompleted .. => []
  | .workspaceRemoved _ => []
  | .errorEncountered error =>
    let mark := paint .brightRed "✗"
    ["", s!"{mark} {paint .brightRed error}"]

/-- The line of an event in the compact form, without the clock. -/
def compactText : Event → String
  | .runStarted _ references _ => s!"run:start refs={references.length}"
  | .workspaceCreated path => s!"workspace:create {path}"
  | .referenceResolved reference commit => s!"resolve {reference}={commit}"
  | .commitClassified commit filesChanged touchesTests touchesCode =>
    s!"classify:{commit} {filesChanged}f tests={touchesTests} code={touchesCode}"
  | .phaseStarted commit phase => s!"phase:start:{commit} {phase.label}"
  | .outputLine _ phase _ line => s!"{phase.letter}:{line}"
  | .phaseCompleted commit phase passed exitCode seconds =>
    let outcome := if passed then "pass" else "fail"
    s!"phase:done:{commit} {phase.label} {outcome} exit={exitCode} {seconds.oneDecimal}s"
  | .verdictReached commit verdict _ => s!"verdict:{commit} {verdict}"
  | .runCompleted commits failures seconds =>
    s!"run:done:{commits} failures={failures} {seconds.oneDecimal}s"
  | .workspaceRemoved path => s!"workspace:remove {path}"
  | .errorEncountered error => s!"error:{error}"

end Event

end CommitVerdict
