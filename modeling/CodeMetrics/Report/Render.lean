import CodeMetrics.Report.Csv
import CodeMetrics.Report.Format
import CodeMetrics.Report.Json
import CodeMetrics.Report.Sarif

/-! A report as text, in any format. -/

namespace CodeMetrics

/-- The cognitive complexity above which a routine is a result, unless another is given. -/
def defaultThreshold : Nat := 15

/-- The text of a report. -/
def ProjectReport.render (format : Format) (threshold : Nat) (report : ProjectReport) : String :=
  match format with
  | .json => report.toJson.document
  | .csv => Csv.render report
  | .sarif => Sarif.render threshold report

end CodeMetrics
