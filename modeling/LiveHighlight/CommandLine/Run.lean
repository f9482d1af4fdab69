import LiveHighlight.CommandLine.Files
import LiveHighlight.CommandLine.Options
import LiveHighlight.Config.Reader
import LiveHighlight.Language.Builtin
import LiveHighlight.Session

/-! The command line: it highlights a file, makes the edits asked for one after the other, and
prints every update. -/

namespace LiveHighlight

/-- What a run of the command line leaves: the lines it printed, those of them for errors and
remarks apart, and its exit code. -/
structure Report where
  out : List String := []
  err : List String := []
  exitCode : Nat := 0
deriving DecidableEq, Repr, Inhabited

/-- Why a run fails. -/
inductive RunFailure
  | noFile
  | unreadable (path : String) (problem : FileProblem)
  | unknownTheme (name : String)
  | highlighting (e : HighlightFailure)

def RunFailure.message : RunFailure → String
  | noFile => "no input file given"
  | unreadable path problem => "failed to read '" ++ path ++ "': " ++ problem.message
  | unknownTheme name => "unknown theme '" ++ name ++ "'"
  | highlighting e => e.message

namespace CommandLine

/-- A text with blanks behind it up to a width. -/
def padRight (width : Nat) (text : String) : String :=
  text ++ String.ofList (List.replicate (width - text.length) ' ')

/-- A text with blanks in front of it up to a width. -/
def padLeft (width : Nat) (text : String) : String :=
  String.ofList (List.replicate (width - text.length) ' ') ++ text

/-- The line of a run of attributes. -/
def runLine (run : PaintRun) : String :=
  let font := run.attributes.font
  "  " ++ padLeft 6 (toString run.range.start) ++ ".." ++
    padRight 6 (toString run.range.stop) ++ " " ++
    padRight 28 ((run.capture.map Capture.name).getD "default") ++ " " ++
    run.attributes.foreground.hex ++
    (if font.bold then " bold" else "") ++ (if font.italic then " italic" else "")

/-- The lines of an update. -/
def updateLines (u : Repaint) : List String :=
  ("update " ++ toString u.range.start ++ ".." ++ toString u.range.stop) :: u.runs.map runLine

/-- The line that announces an edit. -/
def editLine (e : EditScript) : String :=
  "edit " ++ toString e.range.start ++ ".." ++ toString e.range.stop ++ " " ++ Quoted.encode e.text

/-- How the command line is used. -/
def usage : String :=
  "usage: source-editor FILE [--language ID] [--theme dark|light] [--config FILE] " ++
    "[--edit START..END=TEXT]... [--stats]"

/-- A remark of a level, as it is printed. -/
def remark (level text : String) : String := level ++ ": " ++ text

/-- The greatest number of pieces of idle work after a change. -/
def maxIdleSteps : Nat := 10000

/-- The sessions of a run. -/
abbrev Sessions := SessionTable grammarEngine

/-- The sessions and the report so far. -/
abbrev Progress := Sessions × Report

/-- The progress with the lines of some updates printed. -/
def print (p : Progress) (updates : List Repaint) : Progress :=
  (p.1, { p.2 with out := p.2.out ++ updates.flatMap updateLines })

/-- Does what work remains for a text, `count` pieces of it at most. The worker comes to rest
before each. -/
def drainWithin (clock : Clock) (id : Nat) : Nat → Progress → Except HighlightFailure Progress
  | 0, p =>
    if p.1.hasPendingWork id then
      let text := "Highlighting did not finish after " ++ toString maxIdleSteps ++ " idle steps"
      .ok (p.1, { p.2 with err := p.2.err ++ [remark "WARN" text] })
    else .ok p
  | count + 1, (sessions, report) => do
    let (sessions, polled, _) := (sessions.settleWorkers clock).poll
    let p := print (sessions, report) (polled.map Prod.snd)
    let (sessions, updates, more) ← sessions.idle clock id
    let p := print (sessions, p.2) updates
    if more || sessions.hasPendingWork id then drainWithin clock id count p else .ok p

/-- Does what work remains for a text. -/
def drain (clock : Clock) (id : Nat) (p : Progress) : Except HighlightFailure Progress :=
  drainWithin clock id maxIdleSteps p

/-- Makes edits one after the other. A failure leaves the report as it was until then. -/
def makeEdits (clock : Clock) (id : Nat) :
    List EditScript → Progress → Progress × Option HighlightFailure
  | [], p => (p, none)
  | e :: rest, (sessions, report) =>
    let report := { report with out := report.out ++ [editLine e] }
    match sessions.edit clock id e.range e.text with
    | .error problem => ((sessions, report), some problem)
    | .ok (sessions, updates) =>
      match drain clock id (print (sessions, report) updates) with
      | .error problem => ((sessions, report), some problem)
      | .ok p => makeEdits clock id rest p

/-- Attaches a text. In a language that is not known it is plain. -/
def attach (clock : Clock) (sessions : Sessions) (text language : String) (theme : Theme) :
    Except HighlightFailure (Progress × Nat) :=
  let attachAs := fun language (report : Report) => do
    let (sessions, id, updates) ← sessions.attach clock (.ofString text) language theme
    return (print (sessions, report) updates, id)
  match attachAs language {} with
  | .error (.unsupportedLanguage language) =>
    let text := "No grammar for '" ++ language ++ "', showing plain text"
    attachAs Language.plainText.id { err := [remark "WARN" text] }
  | other => other

/-- The theme of a name; the dark one unless there is a name. -/
def themeOf : Option String → Except RunFailure Theme
  | none => .ok Theme.dark
  | some name =>
    if name = "dark" then .ok Theme.dark
    else if name = "light" then .ok Theme.light
    else .error (.unknownTheme name)

/-- Reads a file. -/
def readFile (reader : FileReader) (path : String) : Except RunFailure String :=
  (reader path).mapError (.unreadable path)

/-- What a run works on. -/
structure Input where
  text : String
  config : Config
  theme : Theme
  language : String
  edits : List EditScript
  stats : Bool

/-- What some options ask to work on: the file is read first, then the configuration. -/
def input (reader : FileReader) (o : Options) : Except RunFailure Input := do
  match o.file with
  | none => .error .noFile
  | some path =>
    let text ← readFile reader path
    let config ← match o.config with
      | none => pure {}
      | some path => do
        let document ← readFile reader path
        (Config.read document).mapError fun f => .highlighting (.invalidConfig f)
    let theme ← themeOf o.theme
    let language := o.language.getD (Language.ofPath path).id
    return { text, config, theme, language, edits := o.edits, stats := o.stats }

/-- A report that ends with a failure. -/
def failed (report : Report) (f : RunFailure) : Report :=
  { report with err := report.err ++ [remark "ERROR" f.message], exitCode := 1 }

/-- Highlights a text and makes the edits. The counts are printed if no edit fails. -/
def highlight (clock : Clock) (i : Input) : Report :=
  let sessions : Sessions := { provider := builtinGrammars, config := i.config }
  match attach clock sessions i.text i.language i.theme with
  | .error e => failed {} (.highlighting e)
  | .ok (p, id) =>
    match drain clock id p with
    | .error e => failed p.2 (.highlighting e)
    | .ok p =>
      match makeEdits clock id i.edits p with
      | ((_, report), some e) => failed report (.highlighting e)
      | ((sessions, report), none) =>
        match sessions.get? id with
        | some session =>
          if i.stats then
            { report with err := report.err ++ [session.highlighter.stats.summary] }
          else report
        | none => report

/-- Runs the command line. -/
def run (clock : Clock) (reader : FileReader) (arguments : List String) : Report :=
  match Options.read arguments with
  | .error problem =>
    { err := ["error: " ++ problem.message, usage], exitCode := 2 }
  | .ok options =>
    match input reader options with
    | .error f => failed {} f
    | .ok i => highlight clock i

end CommandLine

end LiveHighlight
