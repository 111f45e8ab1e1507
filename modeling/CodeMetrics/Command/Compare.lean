import CodeMetrics.Command.Usage
import CodeMetrics.Command.Value

/-! The arguments of a comparison of two reports. -/

namespace CodeMetrics

/-- A format of comparisons. -/
inductive ComparisonFormat where
  | text
  | markdown
  | json
deriving DecidableEq, Repr

namespace ComparisonFormat

/-- The name of a format. -/
def name : ComparisonFormat → String
  | .text => "text"
  | .markdown => "markdown"
  | .json => "json"

def all : List ComparisonFormat := [.text, .markdown, .json]

/-- A format by its exact name. -/
def ofName? (s : String) : Option ComparisonFormat := all.find? fun f => f.name == s

end ComparisonFormat

/-- The arguments of a comparison. -/
structure CompareArguments where
  /-- The file with the earlier report. -/
  baseline : RawPath := Path.empty
  /-- The file with the later report. -/
  current : RawPath := Path.empty
  format : ComparisonFormat := .text
  metrics : List MetricSpec := []
deriving DecidableEq, Repr

namespace CompareArguments

open Command

def usage : Usage CompareArguments where
  options :=
    [{ long := "format", short := some 'f'
       effect := .value fun text a =>
         (readChoice ComparisonFormat.ofName? text).map fun v => { a with format := v } },
     { long := "metric", short := some 'm'
       takesAny := true
       effect := .values fun text a =>
         (readMetric text).map fun v => { a with metrics := a.metrics ++ [v] } }]
  places :=
    [{ read := fun text a => (readPath text).map fun v => { a with baseline := v } },
     { read := fun text a => (readPath text).map fun v => { a with current := v } }]

/-- There must be two reports. -/
def isComplete (a : CompareArguments) : Bool := a.baseline != Path.empty && a.current != Path.empty

end CompareArguments

end CodeMetrics
