import CodeMetrics.Comparison.Basic
import CodeMetrics.Decimal.Fixed

/-! Numbers in a comparison: whole ones without a point, others with two places. -/

namespace CodeMetrics.Comparison

/-- A number as it is shown. -/
def number (x : Float) : String :=
  if (x - x.round).abs < tolerance then toString x.round.toInt64.toInt else Decimal.fixed 2 x

end CodeMetrics.Comparison
