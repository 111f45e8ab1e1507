import CodeMetrics.Report.Project

/-! Rolling up files into a report. Files are kept in the order of their paths, the first one under a
    path counting, and everything is computed from that order at the end. So the order in which files
    come in does not show, nor does the number of parts they come in. -/

namespace CodeMetrics

/-- What was collected so far. -/
structure Rollup where
  top : Nat
  /-- In the order of paths, each path once. -/
  files : List FileReport := []
  /-- In order, each path once. -/
  skipped : List String := []

namespace Rollup

/-- Puts a value in its place by its key, unless there is one under its key. -/
def insertFirst {α : Type} (key : α → String) (a : α) : List α → List α
  | [] => [a]
  | other :: rest =>
    match compare (key a) (key other) with
    | .lt => a :: other :: rest
    | .eq => other :: rest
    | .gt => other :: insertFirst key a rest

/-- Adds a file. -/
def add (r : Rollup) (file : FileReport) : Rollup :=
  { r with files := insertFirst FileReport.path file r.files }

/-- Notes a path that was left out. -/
def skip (r : Rollup) (path : String) : Rollup :=
  { r with skipped := insertFirst id path r.skipped }

/-- Adds all of another collection. -/
def merge (r other : Rollup) : Rollup :=
  other.skipped.foldl skip (other.files.foldl add r)

/-! ### Totals -/

/-- The ranges of a distribution: first and last value, and what the range is called. The last one
    is open. -/
def cyclomaticRanges : List (Nat × Option Nat × String) :=
  [(1, some 5, "1-5"), (6, some 10, "6-10"), (11, some 20, "11-20"), (21, some 50, "21-50"),
   (51, none, "51+")]

/-- The ranges of cognitive complexity; zero stands by itself. -/
def cognitiveRanges : List (Nat × Option Nat × String) :=
  (0, some 0, "0") :: cyclomaticRanges

/-- How many values lie in each range. -/
def distribution (ranges : List (Nat × Option Nat × String)) (values : List Nat) : List Bucket :=
  ranges.map fun (low, high, label) =>
    ⟨label, values.countP fun v => low ≤ v && high.all (v ≤ ·)⟩

/-- Adds a file to the sums of its language. -/
def addLanguage (languages : List (String × LanguageSummary)) (file : FileReport) :
    List (String × LanguageSummary) :=
  let before := (languages.lookup file.language).getD {}
  insertSorted file.language
    { files := before.files + 1
      functions := before.functions + file.routines.length
      codeLines := before.codeLines + file.totals.lines.code
      cyclomatic := before.cyclomatic + file.totals.cyclomatic.sum }
    languages

/-- The totals of files, in their order; `plus` adds up the measures that are no counts. -/
def totalsBy (plus : Float → Float → Float) (files : List FileReport) : ProjectTotals :=
  let routines := files.flatMap (·.routines)
  let cyclomatic := routines.map (·.cyclomatic)
  let cognitive := routines.map (·.cognitive)
  { files := files.length
    filesOk := files.countP fun f => f.status == .ok
    filesPartial := files.countP fun f => f.status == .partly
    filesFailed := files.countP fun f => f.status == .failed
    functions := routines.length
    lines := (files.map (·.totals.lines)).foldl LineCounts.add {}
    cyclomatic := Stat.of cyclomatic
    cognitive := Stat.of cognitive
    maxNestingDepth := (routines.map (·.nestingDepth)).foldl Nat.max 0
    halsteadVolume := (routines.map (·.halstead.volume)).foldl plus 0.0
    maintainability :=
      mean ((routines.map (·.maintainability.rescaled)).foldl plus 0.0) routines.length
    counts := (files.map (·.totals.counts)).foldl RoutineCounts.add {}
    classes := sumOf (files.map (·.classes.length))
    wmc := sumOf (files.map (·.totals.wmc))
    abcMagnitude := (files.map (·.totals.abcMagnitude)).foldl plus 0.0
    cyclomaticDistribution := distribution cyclomaticRanges cyclomatic
    cognitiveDistribution := distribution cognitiveRanges cognitive
    languages := files.foldl addLanguage [] }

/-- The routines of files as entries of the list of the worst. -/
def offenders (files : List FileReport) : List Offender :=
  files.flatMap fun f => f.routines.map (Offender.of f)

/-- The report of what was collected, with an addition of its own. -/
def finishBy (plus : Float → Float → Float) (r : Rollup) (generatedAt : Option String)
    (cancelled : Bool) : ProjectReport where
  schemaVersion
  toolVersion
  generatedAt
  cancelled
  files := r.files
  totals := totalsBy plus r.files
  topOffenders := TopOffenders.select r.top (offenders r.files)
  skipped := r.skipped

/-- The report of what was collected. -/
def finish (r : Rollup) (generatedAt : Option String) (cancelled : Bool) : ProjectReport :=
  r.finishBy (· + ·) generatedAt cancelled

end Rollup

end CodeMetrics
