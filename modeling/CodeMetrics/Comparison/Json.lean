import CodeMetrics.Comparison.Basic
import CodeMetrics.Json.Writer

/-! Comparisons as JSON. -/

namespace CodeMetrics

open Json (Value)

def MetricDelta.toJson (d : MetricDelta) : Value :=
  .object
    [("metric", .text d.metric.name), ("polarity", .text d.polarity.name),
     ("before", .real d.before), ("after", .real d.after), ("delta", .real d.delta),
     ("trend", .text d.trend.name)]

def FileComparison.toJson (f : FileComparison) : Value :=
  .object [("path", .text f.path), ("deltas", .list (f.deltas.map MetricDelta.toJson))]

def Comparison.toJson (c : Comparison) : Value :=
  .object
    [("metrics", .list (c.metrics.map fun m => .text m.name)),
     ("new_files", .list (c.newFiles.map .text)),
     ("deleted_files", .list (c.deletedFiles.map .text)),
     ("changed_files", .list (c.changedFiles.map FileComparison.toJson)),
     ("totals", .list (c.totals.map MetricDelta.toJson))]

/-- A comparison as a JSON document. -/
def Comparison.renderJson (c : Comparison) : String := c.toJson.document

end CodeMetrics
