import CodeMetrics.Decimal.Fixed
import CodeMetrics.Report.Project

/-! Reports as comma-separated values: a record for each routine, and one for a file without any. A
    field that holds a comma, a quote or a line ending is quoted, with quotes doubled. -/

namespace CodeMetrics.Csv

/-- The names of the fields. -/
def header : List String :=
  ["path", "language", "status", "function", "kind", "start_line", "end_line", "cyclomatic",
   "cognitive", "nesting_depth", "logical_lines", "physical_lines", "exits", "parameters",
   "halstead_volume", "maintainability_index", "abc_magnitude"]

/-- The fields that every record of a file starts with. -/
def fileCells (file : FileReport) : List String := [file.path, file.language, file.status.name]

/-- The fields of a routine. -/
def routineCells (r : RoutineMetrics) : List String :=
  [r.name, r.kind.name, toString r.startLine, toString r.endLine, toString r.cyclomatic,
   toString r.cognitive, toString r.nestingDepth, toString r.logicalLines,
   toString r.physicalLines, toString r.exits, toString r.parameters,
   Decimal.fixed 2 r.halstead.volume, Decimal.fixed 2 r.maintainability.rescaled,
   Decimal.fixed 2 r.abc.magnitude]

/-- The records of a file. -/
def fileRecords (file : FileReport) : List (List String) :=
  match file.routines with
  | [] => [fileCells file ++ List.replicate (header.length - (fileCells file).length) ""]
  | routines => routines.map fun r => fileCells file ++ routineCells r

/-- The records of a report, after the header. -/
def records (report : ProjectReport) : List (List String) :=
  header :: report.files.flatMap fileRecords

/-! ### Text -/

/-- Characters that a field is quoted for. -/
def isSpecial (c : Char) : Bool := c == ',' || c == '"' || c == '\n' || c == '\r'

/-- The characters of a quoted field, quotes doubled. -/
def doubleQuotes : List Char → List Char
  | [] => []
  | c :: rest => if c = '"' then '"' :: '"' :: doubleQuotes rest else c :: doubleQuotes rest

/-- A field as it is written. -/
def field (s : String) : List Char :=
  if s.toList.any isSpecial then '"' :: doubleQuotes s.toList ++ ['"'] else s.toList

/-- A record as it is written. -/
def line (cells : List String) : List Char :=
  List.intercalate [','] (cells.map field) ++ ['\n']

/-- A report as text. -/
def render (report : ProjectReport) : String := String.ofList ((records report).flatMap line)

end CodeMetrics.Csv
