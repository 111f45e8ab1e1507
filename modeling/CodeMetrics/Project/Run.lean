import CodeMetrics.Measure.Parsed
import CodeMetrics.Project.Discovery
import CodeMetrics.Report.Rollup
import CodeMetrics.Settings.Basic

/-! A run: measuring every file and collecting the outcomes. A file that cannot be measured is part
    of the report. Outcomes can come in any order; files without one make the run a cancelled one.
    A time limit ends at a moment that the clock must be able to show; from then on no more files
    are started. -/

namespace CodeMetrics

/-- The clock that a run goes by. -/
structure Clock where
  /-- The full seconds that it shows when the run starts. -/
  start : Nat := 0
  /-- The nanoseconds from the start until a worker comes to a file. Workers come to files in any
      order. -/
  untilFile : SourcePath → Nat := fun _ => 0

namespace Clock

/-- The number of seconds that a clock can show. -/
def range : Nat := Nat.pow 2 63

/-- Whether a number of seconds after the start is a moment that the clock can show. -/
def reaches (clock : Clock) (seconds : Nat) : Bool := clock.start + seconds < range

/-- Whether a number of seconds has passed when a worker comes to a file. -/
def isPast (clock : Clock) (seconds : Nat) (source : SourcePath) : Bool :=
  seconds * 1000000000 ≤ clock.untilFile source

end Clock

/-- How a run is done. -/
structure RunOptions where
  languages : Selection
  top : Nat := Settings.defaultTop
  skipUnknown : Bool := false
  timeoutSecs : Option Nat := none
  clock : Clock := {}
  /-- When the report was made, if it tells. -/
  generatedAt : Option String := none
  /-- Whether the run is cancelled before it starts. -/
  cancelled : Bool := false

/-- The outcome of one file. -/
inductive Outcome where
  | measured (file : FileReport)
  | failed (file : FileReport)
  /-- Of unknown language, and listed as such. -/
  | skipped (path : String)
  /-- Of a language that was not asked for. -/
  | omitted (path : String)

namespace Outcome

/-- The path of the file, as shown. -/
def path : Outcome → String
  | .measured file | .failed file => file.path
  | .skipped path | .omitted path => path

/-- The stage that the file reaches once its outcome is collected. -/
def stage : Outcome → Stage
  | .measured _ => .aggregated
  | .failed _ => .failed
  | .skipped _ | .omitted _ => .skipped

end Outcome

namespace Run

/-- Measures a file of a language. -/
def measure (source : SourcePath) (language : Language) (content : FileContent) : Outcome :=
  match ParsedFile.of language content.bytes content.tree with
  | .ok parsed => .measured (parsed.report source.shown language)
  | .error e => .failed (FileReport.failed source.shown (some language) e)

/-- Reads, recognizes and measures a file. -/
def process (fs : FileSystem) (options : RunOptions) (source : SourcePath) : Outcome :=
  match fs.read source.path with
  | .error fault =>
    .failed (FileReport.failed source.shown none (.system source.path.text fault))
  | .ok content =>
    match Detection.classify source.path (some (content.bytes.take Detection.sampleLength)) with
    | none =>
      if options.skipUnknown then .skipped source.shown
      else .failed (FileReport.failed source.shown none (.unknownLanguage source.path.text))
    | some language =>
      if options.languages.includes language then
        match options.languages.get language with
        | .ok loaded => measure source loaded content
        | .error e => .failed (FileReport.failed source.shown (some language) e)
      else .omitted source.shown

/-! ### Collecting -/

/-- The stage of every file by its path as shown, each path once. -/
abbrev Ledger := List (String × Stage)

/-- All files as they are discovered. -/
def Ledger.of (sources : List SourcePath) : Ledger :=
  (sources.map (·.shown)).eraseDups.map fun path => (path, .discovered)

/-- A later stage, if a file can go there. -/
def advanceOrStay (stage next : Stage) : Stage := (stage.advance next).toOption.getD stage

/-- The stage of a file after its outcome. Collecting a file goes by way of measuring it. -/
def settle (stage reached : Stage) : Stage :=
  if reached == .aggregated then advanceOrStay (advanceOrStay stage .measured) .aggregated
  else advanceOrStay stage reached

/-- Notes the outcome of a file. -/
def Ledger.note (ledger : Ledger) (outcome : Outcome) : Ledger :=
  ledger.map fun (path, stage) =>
    (path, if path == outcome.path then settle stage outcome.stage else stage)

/-- The number of files that are not done. -/
def Ledger.pending (ledger : Ledger) : Nat := ledger.countP fun (_, stage) => !stage.isTerminal

/-- Adds an outcome to what was collected. -/
def collectOne (rollup : Rollup) : Outcome → Rollup
  | .measured file | .failed file => rollup.add file
  | .skipped path => rollup.skip path
  | .omitted _ => rollup

/-- What is held while outcomes come in. -/
structure Collection where
  rollup : Rollup
  ledger : Ledger
  /-- How many outcomes came in. -/
  finished : Nat := 0
  /-- What was told after each outcome, the last first: how many came in, of how many files. -/
  told : List (Nat × Nat) := []

namespace Collection

/-- Before any outcome. -/
def start (top : Nat) (sources : List SourcePath) : Collection where
  rollup := { top }
  ledger := Ledger.of sources

/-- Takes in an outcome and tells of it. -/
def take (total : Nat) (c : Collection) (outcome : Outcome) : Collection where
  rollup := collectOne c.rollup outcome
  ledger := c.ledger.note outcome
  finished := c.finished + 1
  told := (c.finished + 1, total) :: c.told

/-- The number of files without an outcome. -/
def pending (c : Collection) : Nat := c.ledger.pending

end Collection

/-- Collects outcomes in the order they come in. -/
def collect (top : Nat) (sources : List SourcePath) (outcomes : List Outcome) : Collection :=
  outcomes.foldl (Collection.take sources.length) (Collection.start top sources)

/-- The report of a collection. -/
def Collection.report (options : RunOptions) (c : Collection) : ProjectReport :=
  c.rollup.finish options.generatedAt (0 < c.pending)

/-- The report of some outcomes. -/
def report (options : RunOptions) (sources : List SourcePath) (outcomes : List Outcome) :
    ProjectReport :=
  (collect options.top sources outcomes).report options

/-- What is told after each outcome: how many there are, of how many files. -/
def progress (sources : List SourcePath) (outcomes : List Outcome)
    (top : Nat := Settings.defaultTop) : List (Nat × Nat) :=
  (collect top sources outcomes).told.reverse

/-! ### Whole runs -/

/-- Whether a file is not started any more: the run was cancelled, or the time is up when a worker
    comes to the file. -/
def isStopped (options : RunOptions) (source : SourcePath) : Bool :=
  options.cancelled || options.timeoutSecs.any fun t => options.clock.isPast t source

/-- The outcomes of a run, in the order of files. -/
def outcomes (fs : FileSystem) (options : RunOptions) (sources : List SourcePath) : List Outcome :=
  (sources.filter fun source => !isStopped options source).map (process fs options)

end Run

/-- The report of a run over some files that goes on to its end. -/
def run (fs : FileSystem) (options : RunOptions) (sources : List SourcePath) : ProjectReport :=
  Run.report options sources (Run.outcomes fs options sources)

/-- The report of a run over some files. The run breaks off where its clock cannot show the end of
    the time limit. -/
def run? (fs : FileSystem) (options : RunOptions) (sources : List SourcePath) :
    Option ProjectReport :=
  if options.timeoutSecs.all options.clock.reaches then some (run fs options sources) else none

end CodeMetrics
