import CodeMetrics.Command.Line
import CodeMetrics.Comparison.Json
import CodeMetrics.Comparison.Markdown
import CodeMetrics.Comparison.Text
import CodeMetrics.Project.Run
import CodeMetrics.Settings.Read

/-! Carrying out a command over the files of a project. An analysis reads its settings, finds the
    files, measures them and writes the report; whatever fails on the way, nothing is written. How
    the text of settings is read is up to the surroundings. -/

namespace CodeMetrics

/-- What surrounds a command. -/
structure Surroundings where
  files : FileSystem
  /-- Whether texts are colored. -/
  color : Bool := false
  /-- The time, as reports tell it. -/
  time : String := ""
  clock : Clock := {}
  /-- How the settings in a text are read. -/
  settingsOf? : String → Option Settings := Settings.ofYaml?

/-- What a command leaves behind. -/
structure Finished where
  exitCode : Nat := 0
  output : String := ""
  errors : String := ""
  files : FileSystem

namespace Command

/-- Ends a command with an error. -/
def endWith (files : FileSystem) (exitCode : Nat) (message : String) : Finished :=
  { exitCode, errors := "Error: " ++ message ++ "\n", files }

/-- Ends a command with an error of the library. -/
def endWithError (files : FileSystem) (e : Error) : Finished := endWith files e.exitCode e.message

/-- Breaks a command off that went by a clock beyond what it can show. -/
def breakOff (files : FileSystem) : Finished :=
  { exitCode := 101, errors := "overflow when adding duration to instant\n", files }

/-! ### Analysis -/

/-- The files that settings are looked for in. -/
def settingsNames : List RawPath := ["mehen.yaml", ".mehen.yaml"]

/-- The settings in a file. -/
def readSettings (s : Surroundings) (path : RawPath) : Except Error Settings := do
  let text ← (s.files.readText path).mapError (.system path.text)
  Settings.parse s.settingsOf? (some path.text) text

/-- The settings in a given file, or in the first that is found, or none. -/
def loadSettings (s : Surroundings) (path : Option RawPath) : Except Error Settings :=
  match path <|> settingsNames.find? s.files.hasFile with
  | some path => readSettings s path
  | none => .ok {}

/-- The settings of an analysis, checked. -/
def settingsFor (s : Surroundings) (a : AnalyzeArguments) : Except Error Settings := do
  let settings := a.override (← loadSettings s a.settings)
  settings.validate
  .ok settings

/-- The options of a run with some settings. -/
def runOptions (s : Surroundings) (settings : Settings) (languages : Selection) : RunOptions where
  languages
  top := settings.topOrDefault
  skipUnknown := settings.skipsUnknown
  timeoutSecs := settings.timeoutSecs
  clock := s.clock
  generatedAt := if settings.hasTimestamp then some s.time else none

/-- What an analysis prepares: its settings, how it runs, and the files. -/
def prepare (s : Surroundings) (a : AnalyzeArguments) :
    Except Error (Settings × RunOptions × List SourcePath) := do
  let settings ← settingsFor s a
  let filters ← Filters.parse settings.languages settings.included settings.excluded
  let sources ← Discovery.discover s.files filters a.paths
  .ok (settings, runOptions s settings filters.languages, sources)

/-- Writes the text of a report to a file, or to the output. -/
def writeReport (files : FileSystem) (path : Option RawPath) (text : String) : Finished :=
  match path with
  | none => { output := text, files }
  | some path =>
    match files.create path { bytes := Utf8.encode text } with
    | .ok files => { files }
    | .error fault => endWith files 2 ("cannot create " ++ path.text ++ ": " ++ fault.message)

/-- Carries out an analysis. -/
def analyze (s : Surroundings) (a : AnalyzeArguments) : Finished :=
  match prepare s a with
  | .error e => endWithError s.files e
  | .ok (_, _, []) => endWith s.files 1 "no files matched"
  | .ok (settings, options, sources) =>
    match run? s.files options sources with
    | none => breakOff s.files
    | some report =>
      writeReport s.files a.output
        (report.render settings.formatOrDefault settings.thresholdOrDefault)

/-! ### Comparison -/

/-- The report in a file. -/
def readReport (files : FileSystem) (path : RawPath) : Except Error ProjectReport := do
  let text ← (files.readText path).mapError (.system path.text)
  ProjectReport.load path.text text

/-- The text of a comparison. -/
def comparisonText (color : Bool) (a : CompareArguments) (c : Comparison) : String :=
  match a.format with
  | .text =>
    "\n  " ++ Comparison.styled color .heading "mehen diff" ++ " " ++ a.baseline.text ++ " -> "
      ++ a.current.text ++ "\n\n" ++ c.renderText color ++ "\n"
  | .markdown => c.renderMarkdown a.baseline.text a.current.text
  | .json => c.renderJson

/-- Compares two reports. -/
def compareReports (files : FileSystem) (a : CompareArguments) : Except Error Comparison := do
  let baseline ← readReport files a.baseline
  let current ← readReport files a.current
  .ok (Comparison.of baseline current a.metrics)

/-- Carries out a comparison. -/
def compare (s : Surroundings) (a : CompareArguments) : Finished :=
  match compareReports s.files a with
  | .error e => endWithError s.files e
  | .ok c => { output := comparisonText s.color a c, files := s.files }

end Command

/-- Carries out what a command line asks for. -/
def CommandLine.execute (s : Surroundings) : CommandLine → Finished
  | .analyze _ request => Command.analyze s request.arguments
  | .compare request => Command.compare s request.arguments

end CodeMetrics
