import CodeMetrics.Report.Project

/-! The metrics that reports are compared by. A metric has a polarity: which way it should go. A
    selector names a metric and may turn its polarity with a sign in front. -/

namespace CodeMetrics

/-- Which way a metric should go. -/
inductive Polarity where
  | lowerIsBetter
  | higherIsBetter
deriving DecidableEq, Repr

/-- The name of a polarity. -/
def Polarity.name : Polarity → String
  | .lowerIsBetter => "lower_is_better"
  | .higherIsBetter => "higher_is_better"

/-- A metric to compare. -/
inductive Metric where
  | cyclomatic
  | cognitive
  | functions
  | closures
  | logicalLines
  | halsteadVolume
  | maintainability
  | wmc
  | abc
deriving DecidableEq, Repr

namespace Metric

/-- All metrics, in the order of columns. -/
def all : List Metric :=
  [.cyclomatic, .cognitive, .functions, .closures, .logicalLines, .halsteadVolume,
   .maintainability, .wmc, .abc]

/-- The name of a metric. -/
def name : Metric → String
  | .cyclomatic => "cyclomatic"
  | .cognitive => "cognitive"
  | .functions => "functions"
  | .closures => "closures"
  | .logicalLines => "logical_lines"
  | .halsteadVolume => "halstead_volume"
  | .maintainability => "maintainability"
  | .wmc => "wmc"
  | .abc => "abc"

/-- A metric by its name, in any case. -/
def ofName? (s : String) : Option Metric := all.find? fun m => m.name == lowerAscii s

/-- Only maintainability should go up. -/
def defaultPolarity : Metric → Polarity
  | .maintainability => .higherIsBetter
  | _ => .lowerIsBetter

/-- The value of a metric for a file. -/
def ofFile (m : Metric) (file : FileReport) : Float :=
  let t := file.totals
  match m with
  | .cyclomatic => Float.ofNat t.cyclomatic.sum
  | .cognitive => Float.ofNat t.cognitive.sum
  | .functions => Float.ofNat t.functions
  | .closures => Float.ofNat t.counts.closures
  | .logicalLines => Float.ofNat t.lines.logical
  | .halsteadVolume => t.halsteadVolume
  | .maintainability => t.maintainability
  | .wmc => Float.ofNat t.wmc
  | .abc => t.abcMagnitude

/-- The value of a metric for a project. -/
def ofProject (m : Metric) (t : ProjectTotals) : Float :=
  match m with
  | .cyclomatic => Float.ofNat t.cyclomatic.sum
  | .cognitive => Float.ofNat t.cognitive.sum
  | .functions => Float.ofNat t.functions
  | .closures => Float.ofNat t.counts.closures
  | .logicalLines => Float.ofNat t.lines.logical
  | .halsteadVolume => t.halsteadVolume
  | .maintainability => t.maintainability
  | .wmc => Float.ofNat t.wmc
  | .abc => t.abcMagnitude

end Metric

/-- A metric with the polarity it is compared by. -/
structure MetricSpec where
  metric : Metric
  polarity : Polarity
deriving DecidableEq, Repr

namespace MetricSpec

/-- A metric with its own polarity. -/
def ofMetric (m : Metric) : MetricSpec := ⟨m, m.defaultPolarity⟩

/-- The polarity that a sign asks for, and the name after it. -/
def splitSign (s : String) : Option Polarity × String :=
  match s.toList with
  | '+' :: rest => (some .higherIsBetter, String.ofList rest)
  | '-' :: rest => (some .lowerIsBetter, String.ofList rest)
  | _ => (none, s)

/-- Reads a selector: a name, maybe with a sign in front. -/
def parse (s : String) : Except Error MetricSpec :=
  let (polarity, name) := splitSign (trimBlank s)
  match Metric.ofName? name with
  | none => .error (.configuration (.unknownMetric name (Metric.all.map Metric.name)))
  | some m => .ok ⟨m, polarity.getD m.defaultPolarity⟩

end MetricSpec

end CodeMetrics
