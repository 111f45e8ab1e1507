import CodeMetrics.Comparison.Metric

/-! Comparing two reports, file by file and in total. Files are matched by path; where a path is
    repeated in a report, its last entry counts. -/

namespace CodeMetrics

/-- Values that differ by no more than this are the same. -/
def tolerance : Float := 1e-9

/-- Where a metric went. -/
inductive Trend where
  | better
  | worse
  | same
deriving DecidableEq, Repr

namespace Trend

/-- The name of a trend. -/
def name : Trend → String
  | .better => "better"
  | .worse => "worse"
  | .same => "same"

/-- The trend of a difference. -/
def of (delta : Float) (polarity : Polarity) : Trend :=
  if delta.abs ≤ tolerance then .same
  else match decide (delta > 0.0), polarity with
    | true, .higherIsBetter | false, .lowerIsBetter => .better
    | _, _ => .worse

end Trend

/-- A metric before and after. -/
structure MetricDelta where
  metric : Metric
  polarity : Polarity
  before : Float
  after : Float
  delta : Float
  trend : Trend
deriving BEq, Repr

namespace MetricDelta

/-- The change from one value to another. -/
def of (spec : MetricSpec) (before after : Float) : MetricDelta :=
  ⟨spec.metric, spec.polarity, before, after, after - before,
    Trend.of (after - before) spec.polarity⟩

/-- Whether a value has changed. -/
def changed (d : MetricDelta) : Bool := d.delta.abs > tolerance

end MetricDelta

/-- The changes of one file. -/
structure FileComparison where
  path : String
  deltas : List MetricDelta
deriving BEq, Repr

/-- The changes from one report to another. -/
structure Comparison where
  /-- The metrics compared, in the order of columns. -/
  metrics : List Metric
  newFiles : List String
  deletedFiles : List String
  changedFiles : List FileComparison
  totals : List MetricDelta
deriving BEq, Repr

namespace Comparison

/-- Whether no file has changed. -/
def isEmpty (c : Comparison) : Bool :=
  c.newFiles.isEmpty && c.deletedFiles.isEmpty && c.changedFiles.isEmpty

/-- The selectors that count: all metrics where none is named; else those named, in the order of
    columns, each with the polarity named last. -/
def select (specs : List MetricSpec) : List MetricSpec :=
  if specs.isEmpty then Metric.all.map MetricSpec.ofMetric
  else Metric.all.filterMap fun m => specs.reverse.find? fun s => s.metric == m

/-- The files of a report by path, in the order of paths. -/
def byPath (report : ProjectReport) : List (String × FileReport) :=
  report.files.foldl (fun sorted f => insertSorted f.path f sorted) []

/-- The paths of one list that are not in another. -/
def pathsOnlyIn (here there : List (String × FileReport)) : List String :=
  (here.map (·.1)).filter fun path => (there.lookup path).isNone

/-- The changes of a file, if there are any. -/
def fileChanges? (specs : List MetricSpec) (path : String) (before after : FileReport) :
    Option FileComparison :=
  let deltas := (specs.map fun s =>
    MetricDelta.of s (s.metric.ofFile before) (s.metric.ofFile after)).filter MetricDelta.changed
  if deltas.isEmpty then none else some ⟨path, deltas⟩

/-- The changes from one report to another. -/
def of (baseline current : ProjectReport) (specs : List MetricSpec) : Comparison :=
  let specs := select specs
  let before := byPath baseline
  let after := byPath current
  { metrics := specs.map (·.metric)
    newFiles := pathsOnlyIn after before
    deletedFiles := pathsOnlyIn before after
    changedFiles := before.filterMap fun (path, old) =>
      (after.lookup path).bind (fileChanges? specs path old)
    totals := specs.map fun s =>
      MetricDelta.of s (s.metric.ofProject baseline.totals) (s.metric.ofProject current.totals) }

end Comparison

end CodeMetrics
