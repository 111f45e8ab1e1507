import CodeMetrics.Comparison.Number

/-! Comparisons as a table in Markdown: a row for each file, a column for each metric. -/

namespace CodeMetrics.Comparison

/-- The sign of a trend. -/
def trendSign : Trend → String
  | .better => "🟢"
  | .worse => "🔴"
  | .same => "⚪"

/-- Text of a cell: a bar is escaped. -/
def cell (s : String) : String :=
  String.ofList (s.toList.flatMap fun c => if c = '|' then ['\\', '|'] else [c])

/-- The cell of a change. -/
def deltaCell (source : String) (d : MetricDelta) : String :=
  if d.trend = .same then number d.after ++ " " ++ trendSign .same
  else
    number d.after ++ " (" ++ cell source ++ ": " ++ number d.before ++ ") " ++ trendSign d.trend

/-- A row of cells, the first one given apart. -/
def row (first : String) (rest : List String) : String :=
  "| " ++ first ++ " |" ++ String.join (rest.map fun s => " " ++ s ++ " |") ++ "\n"

/-- The row of a changed file. -/
def changedRow (source : String) (metrics : List Metric) (f : FileComparison) : String :=
  row (cell f.path) (metrics.map fun m =>
    match f.deltas.find? fun d => d.metric == m with
    | some d => deltaCell source d
    | none => trendSign .same)

/-- The row of a file that is only in one report. -/
def lonelyRow (count : Nat) (marker path : String) : String :=
  "| " ++ cell path ++ " (" ++ marker ++ ") |" ++ String.join (List.replicate count " |") ++ "\n"

/-- The lines of the table. -/
def tableLines (source : String) (c : Comparison) : List String :=
  [row "File" (c.metrics.map Metric.name),
   "|---|" ++ String.join (c.metrics.map fun _ => "---:|") ++ "\n"]
    ++ c.changedFiles.map (changedRow source c.metrics)
    ++ c.newFiles.map (lonelyRow c.metrics.length "🆕")
    ++ c.deletedFiles.map (lonelyRow c.metrics.length "deleted")
    ++ [row "**Total**" (c.totals.map (deltaCell source))]

/-- Whether there is nothing to show. -/
def isUnchanged (c : Comparison) : Bool := c.isEmpty && c.totals.all fun t => t.trend == .same

/-- A comparison as Markdown, with the names of the two reports. -/
def renderMarkdown (source target : String) (c : Comparison) : String :=
  "## mehen summary (\x60" ++ source ++ "\x60..\x60" ++ target ++ "\x60)\n\n"
    ++ (if c.isUnchanged then "No metric changes detected.\n"
        else String.join (tableLines source c))

end CodeMetrics.Comparison
