import CodeMetrics.Json.Reader
import CodeMetrics.Json.Record
import CodeMetrics.Json.Writer
import CodeMetrics.Report.Rollup

/-! Reports as JSON. Each record is written with its fields in a fixed order; what is read may have
    them in any order, with members of other names among them, and without those that have a
    default. -/

namespace CodeMetrics

open Json (Value Record)

/-! ### Measures -/

namespace Halstead

def fields : List String :=
  ["unique_operators", "unique_operands", "total_operators", "total_operands", "length",
   "vocabulary", "volume", "difficulty", "effort", "time", "bugs"]

def toJson (h : Halstead) : Value :=
  .object
    [("unique_operators", .nat h.uniqueOperators), ("unique_operands", .nat h.uniqueOperands),
     ("total_operators", .nat h.totalOperators), ("total_operands", .nat h.totalOperands),
     ("length", .nat h.length), ("vocabulary", .nat h.vocabulary), ("volume", .real h.volume),
     ("difficulty", .real h.difficulty), ("effort", .real h.effort), ("time", .real h.time),
     ("bugs", .real h.bugs)]

def ofJson? (v : Value) : Option Halstead := do
  let r ← v.record? fields
  some
    { uniqueOperators := ← r.required "unique_operators" Value.nat32?
      uniqueOperands := ← r.required "unique_operands" Value.nat32?
      totalOperators := ← r.required "total_operators" Value.nat32?
      totalOperands := ← r.required "total_operands" Value.nat32?
      length := ← r.required "length" Value.nat32?
      vocabulary := ← r.required "vocabulary" Value.nat32?
      volume := ← r.required "volume" Value.real?
      difficulty := ← r.required "difficulty" Value.real?
      effort := ← r.required "effort" Value.real?
      time := ← r.required "time" Value.real?
      bugs := ← r.required "bugs" Value.real? }

end Halstead

namespace Abc

def fields : List String := ["assignments", "branches", "conditions", "magnitude"]

/-- Nothing counted. -/
def zero : Abc := ⟨0, 0, 0, 0.0⟩

def toJson (a : Abc) : Value :=
  .object
    [("assignments", .nat a.assignments), ("branches", .nat a.branches),
     ("conditions", .nat a.conditions), ("magnitude", .real a.magnitude)]

def ofJson? (v : Value) : Option Abc := do
  let r ← v.record? fields
  some
    { assignments := ← r.required "assignments" Value.nat32?
      branches := ← r.required "branches" Value.nat32?
      conditions := ← r.required "conditions" Value.nat32?
      magnitude := ← r.required "magnitude" Value.real? }

end Abc

namespace Maintainability

def fields : List String := ["original", "visual_studio"]

def toJson (m : Maintainability) : Value :=
  .object [("original", .real m.unscaled), ("visual_studio", .real m.rescaled)]

def ofJson? (v : Value) : Option Maintainability := do
  let r ← v.record? fields
  some
    { unscaled := ← r.required "original" Value.real?
      rescaled := ← r.required "visual_studio" Value.real? }

end Maintainability

namespace LineCounts

def fields : List String := ["total", "code", "comment", "blank", "logical"]

def toJson (l : LineCounts) : Value :=
  .object
    [("total", .nat l.total), ("code", .nat l.code), ("comment", .nat l.comment),
     ("blank", .nat l.blank), ("logical", .nat l.logical)]

def ofJson? (v : Value) : Option LineCounts := do
  let r ← v.record? fields
  some
    { total := ← r.required "total" Value.nat64?
      code := ← r.required "code" Value.nat64?
      comment := ← r.required "comment" Value.nat64?
      blank := ← r.required "blank" Value.nat64?
      logical := ← r.required "logical" Value.nat64? }

end LineCounts

namespace RoutineCounts

def fields : List String := ["functions", "closures"]

def toJson (c : RoutineCounts) : Value :=
  .object [("functions", .nat c.functions), ("closures", .nat c.closures)]

def ofJson? (v : Value) : Option RoutineCounts := do
  let r ← v.record? fields
  some
    { functions := ← r.required "functions" Value.nat64?
      closures := ← r.required "closures" Value.nat64? }

end RoutineCounts

namespace ClassMetrics

def fields : List String := ["name", "start_line", "methods", "wmc"]

def toJson (c : ClassMetrics) : Value :=
  .object
    [("name", .text c.name), ("start_line", .nat c.startLine), ("methods", .nat c.methods),
     ("wmc", .nat c.wmc)]

def ofJson? (v : Value) : Option ClassMetrics := do
  let r ← v.record? fields
  some
    { name := ← r.required "name" Value.text?
      startLine := ← r.required "start_line" Value.nat64?
      methods := ← r.required "methods" Value.nat64?
      wmc := ← r.required "wmc" Value.nat32? }

end ClassMetrics

namespace RoutineMetrics

def fields : List String :=
  ["name", "kind", "start_line", "start_column", "end_line", "end_column", "scope_depth",
   "cyclomatic", "cognitive", "nesting_depth", "logical_lines", "physical_lines", "exits",
   "parameters", "halstead", "maintainability_index", "abc"]

def toJson (m : RoutineMetrics) : Value :=
  .object
    [("name", .text m.name), ("kind", .text m.kind.name), ("start_line", .nat m.startLine),
     ("start_column", .nat m.startColumn), ("end_line", .nat m.endLine),
     ("end_column", .nat m.endColumn), ("scope_depth", .nat m.scopeDepth),
     ("cyclomatic", .nat m.cyclomatic), ("cognitive", .nat m.cognitive),
     ("nesting_depth", .nat m.nestingDepth), ("logical_lines", .nat m.logicalLines),
     ("physical_lines", .nat m.physicalLines), ("exits", .nat m.exits),
     ("parameters", .nat m.parameters), ("halstead", m.halstead.toJson),
     ("maintainability_index", m.maintainability.toJson), ("abc", m.abc.toJson)]

def ofJson? (v : Value) : Option RoutineMetrics := do
  let r ← v.record? fields
  some
    { name := ← r.required "name" Value.text?
      kind := ← r.required "kind" (Value.choice? RoutineKind.ofName?)
      startLine := ← r.required "start_line" Value.nat64?
      startColumn := ← r.required "start_column" Value.nat64?
      endLine := ← r.required "end_line" Value.nat64?
      endColumn := ← r.required "end_column" Value.nat64?
      scopeDepth := ← r.required "scope_depth" Value.nat64?
      cyclomatic := ← r.required "cyclomatic" Value.nat32?
      cognitive := ← r.required "cognitive" Value.nat32?
      nestingDepth := ← r.required "nesting_depth" Value.nat32?
      logicalLines := ← r.required "logical_lines" Value.nat64?
      physicalLines := ← r.required "physical_lines" Value.nat64?
      exits := ← r.required "exits" Value.nat32?
      parameters := ← r.required "parameters" Value.nat32?
      halstead := ← r.required "halstead" Halstead.ofJson?
      maintainability := ← r.required "maintainability_index" Maintainability.ofJson?
      abc := ← r.withDefault "abc" Abc.ofJson? Abc.zero }

end RoutineMetrics

/-! ### Files -/

namespace SyntaxFault

def fields : List String := ["byte_offset", "line", "column", "message"]

def toJson (f : SyntaxFault) : Value :=
  .object
    [("byte_offset", .nat f.byteOffset), ("line", .nat f.line), ("column", .nat f.column),
     ("message", .text f.message)]

def ofJson? (v : Value) : Option SyntaxFault := do
  let r ← v.record? fields
  some
    { byteOffset := ← r.required "byte_offset" Value.nat64?
      line := ← r.required "line" Value.nat64?
      column := ← r.required "column" Value.nat64?
      message := ← r.required "message" Value.text? }

end SyntaxFault

namespace Stat

def fields : List String := ["sum", "average", "max"]

def toJson (s : Stat) : Value :=
  .object [("sum", .nat s.sum), ("average", .real s.average), ("max", .nat s.max)]

def ofJson? (v : Value) : Option Stat := do
  let r ← v.record? fields
  some
    { sum := ← r.required "sum" Value.nat64?
      average := ← r.required "average" Value.real?
      max := ← r.required "max" Value.nat32? }

end Stat

namespace FileTotals

def fields : List String :=
  ["functions", "lines", "cyclomatic", "cognitive", "max_nesting_depth", "halstead_volume",
   "maintainability_index", "nom", "wmc", "abc_magnitude"]

def toJson (t : FileTotals) : Value :=
  .object
    [("functions", .nat t.functions), ("lines", t.lines.toJson),
     ("cyclomatic", t.cyclomatic.toJson), ("cognitive", t.cognitive.toJson),
     ("max_nesting_depth", .nat t.maxNestingDepth), ("halstead_volume", .real t.halsteadVolume),
     ("maintainability_index", .real t.maintainability), ("nom", t.counts.toJson),
     ("wmc", .nat t.wmc), ("abc_magnitude", .real t.abcMagnitude)]

def ofJson? (v : Value) : Option FileTotals := do
  let r ← v.record? fields
  some
    { functions := ← r.required "functions" Value.nat64?
      lines := ← r.required "lines" LineCounts.ofJson?
      cyclomatic := ← r.required "cyclomatic" Stat.ofJson?
      cognitive := ← r.required "cognitive" Stat.ofJson?
      maxNestingDepth := ← r.required "max_nesting_depth" Value.nat32?
      halsteadVolume := ← r.required "halstead_volume" Value.real?
      maintainability := ← r.required "maintainability_index" Value.real?
      counts := ← r.withDefault "nom" RoutineCounts.ofJson? {}
      wmc := ← r.withDefault "wmc" Value.nat64? 0
      abcMagnitude := ← r.withDefault "abc_magnitude" Value.real? 0.0 }

end FileTotals

namespace FileReport

def fields : List String :=
  ["path", "language", "status", "error", "syntax_errors", "functions", "classes", "file_totals"]

/-- No error and no classes are left out. -/
def toJson (f : FileReport) : Value :=
  .object
    ([("path", .text f.path), ("language", .text f.language), ("status", .text f.status.name)]
      ++ (f.error.map fun e => ("error", Value.text e)).toList
      ++ [("syntax_errors", .list (f.faults.map SyntaxFault.toJson)),
          ("functions", .list (f.routines.map RoutineMetrics.toJson))]
      ++ (if f.classes.isEmpty then []
          else [("classes", .list (f.classes.map ClassMetrics.toJson))])
      ++ [("file_totals", f.totals.toJson)])

def ofJson? (v : Value) : Option FileReport := do
  let r ← v.record? fields
  some
    { path := ← r.required "path" Value.text?
      language := ← r.required "language" Value.text?
      status := ← r.required "status" (Value.choice? FileStatus.ofName?)
      error := ← r.withDefault "error" (Value.optional? Value.text?) none
      faults := ← r.withDefault "syntax_errors" (Value.listOf? SyntaxFault.ofJson?) []
      routines := ← r.withDefault "functions" (Value.listOf? RoutineMetrics.ofJson?) []
      classes := ← r.withDefault "classes" (Value.listOf? ClassMetrics.ofJson?) []
      totals := ← r.withDefault "file_totals" FileTotals.ofJson? {} }

end FileReport

/-! ### Projects -/

namespace Offender

def fields : List String :=
  ["path", "language", "name", "kind", "start_line", "start_column", "end_line", "cyclomatic",
   "cognitive", "nesting_depth"]

def toJson (o : Offender) : Value :=
  .object
    [("path", .text o.path), ("language", .text o.language), ("name", .text o.name),
     ("kind", .text o.kind.name), ("start_line", .nat o.startLine),
     ("start_column", .nat o.startColumn), ("end_line", .nat o.endLine),
     ("cyclomatic", .nat o.cyclomatic), ("cognitive", .nat o.cognitive),
     ("nesting_depth", .nat o.nestingDepth)]

def ofJson? (v : Value) : Option Offender := do
  let r ← v.record? fields
  some
    { path := ← r.required "path" Value.text?
      language := ← r.required "language" Value.text?
      name := ← r.required "name" Value.text?
      kind := ← r.required "kind" (Value.choice? RoutineKind.ofName?)
      startLine := ← r.required "start_line" Value.nat64?
      startColumn := ← r.required "start_column" Value.nat64?
      endLine := ← r.required "end_line" Value.nat64?
      cyclomatic := ← r.required "cyclomatic" Value.nat32?
      cognitive := ← r.required "cognitive" Value.nat32?
      nestingDepth := ← r.required "nesting_depth" Value.nat32? }

end Offender

namespace Bucket

def fields : List String := ["range", "count"]

def toJson (b : Bucket) : Value := .object [("range", .text b.range), ("count", .nat b.count)]

def ofJson? (v : Value) : Option Bucket := do
  let r ← v.record? fields
  some
    { range := ← r.required "range" Value.text?
      count := ← r.required "count" Value.nat64? }

end Bucket

namespace LanguageSummary

def fields : List String := ["files", "functions", "code_lines", "cyclomatic"]

def toJson (s : LanguageSummary) : Value :=
  .object
    [("files", .nat s.files), ("functions", .nat s.functions), ("code_lines", .nat s.codeLines),
     ("cyclomatic", .nat s.cyclomatic)]

def ofJson? (v : Value) : Option LanguageSummary := do
  let r ← v.record? fields
  some
    { files := ← r.required "files" Value.nat64?
      functions := ← r.required "functions" Value.nat64?
      codeLines := ← r.required "code_lines" Value.nat64?
      cyclomatic := ← r.required "cyclomatic" Value.nat64? }

/-- Summaries by language; the last one under a name counts. -/
def allOfJson? (v : Value) : Option (List (String × LanguageSummary)) :=
  (v.membersOf? ofJson?).map fun members =>
    members.foldl (fun sorted (name, s) => insertSorted name s sorted) []

end LanguageSummary

namespace ProjectTotals

def fields : List String :=
  ["files", "files_ok", "files_partial", "files_failed", "functions", "lines", "cyclomatic",
   "cognitive", "max_nesting_depth", "halstead_volume", "maintainability_index", "nom", "classes",
   "wmc", "abc_magnitude", "cyclomatic_distribution", "cognitive_distribution", "languages"]

def toJson (t : ProjectTotals) : Value :=
  .object
    [("files", .nat t.files), ("files_ok", .nat t.filesOk),
     ("files_partial", .nat t.filesPartial), ("files_failed", .nat t.filesFailed),
     ("functions", .nat t.functions), ("lines", t.lines.toJson),
     ("cyclomatic", t.cyclomatic.toJson), ("cognitive", t.cognitive.toJson),
     ("max_nesting_depth", .nat t.maxNestingDepth), ("halstead_volume", .real t.halsteadVolume),
     ("maintainability_index", .real t.maintainability), ("nom", t.counts.toJson),
     ("classes", .nat t.classes), ("wmc", .nat t.wmc), ("abc_magnitude", .real t.abcMagnitude),
     ("cyclomatic_distribution", .list (t.cyclomaticDistribution.map Bucket.toJson)),
     ("cognitive_distribution", .list (t.cognitiveDistribution.map Bucket.toJson)),
     ("languages", .object (t.languages.map fun (name, s) => (name, s.toJson)))]

def ofJson? (v : Value) : Option ProjectTotals := do
  let r ← v.record? fields
  some
    { files := ← r.required "files" Value.nat64?
      filesOk := ← r.required "files_ok" Value.nat64?
      filesPartial := ← r.required "files_partial" Value.nat64?
      filesFailed := ← r.required "files_failed" Value.nat64?
      functions := ← r.required "functions" Value.nat64?
      lines := ← r.required "lines" LineCounts.ofJson?
      cyclomatic := ← r.required "cyclomatic" Stat.ofJson?
      cognitive := ← r.required "cognitive" Stat.ofJson?
      maxNestingDepth := ← r.required "max_nesting_depth" Value.nat32?
      halsteadVolume := ← r.required "halstead_volume" Value.real?
      maintainability := ← r.required "maintainability_index" Value.real?
      counts := ← r.withDefault "nom" RoutineCounts.ofJson? {}
      classes := ← r.withDefault "classes" Value.nat64? 0
      wmc := ← r.withDefault "wmc" Value.nat64? 0
      abcMagnitude := ← r.withDefault "abc_magnitude" Value.real? 0.0
      cyclomaticDistribution :=
        ← r.required "cyclomatic_distribution" (Value.listOf? Bucket.ofJson?)
      cognitiveDistribution := ← r.required "cognitive_distribution" (Value.listOf? Bucket.ofJson?)
      languages := ← r.required "languages" LanguageSummary.allOfJson? }

end ProjectTotals

namespace ProjectReport

def fields : List String :=
  ["schema_version", "tool_version", "generated_at", "cancelled", "files", "project_totals",
   "top_offenders", "skipped"]

/-- No time and no skipped paths are left out. -/
def toJson (p : ProjectReport) : Value :=
  .object
    ([("schema_version", .text p.schemaVersion), ("tool_version", .text p.toolVersion)]
      ++ (p.generatedAt.map fun t => ("generated_at", Value.text t)).toList
      ++ [("cancelled", .bool p.cancelled), ("files", .list (p.files.map FileReport.toJson)),
          ("project_totals", p.totals.toJson),
          ("top_offenders", .list (p.topOffenders.map Offender.toJson))]
      ++ (if p.skipped.isEmpty then [] else [("skipped", .list (p.skipped.map .text))]))

def ofJson? (v : Value) : Option ProjectReport := do
  let r ← v.record? fields
  some
    { schemaVersion := ← r.required "schema_version" Value.text?
      toolVersion := ← r.required "tool_version" Value.text?
      generatedAt := ← r.withDefault "generated_at" (Value.optional? Value.text?) none
      cancelled := ← r.withDefault "cancelled" Value.bool? false
      files := ← r.required "files" (Value.listOf? FileReport.ofJson?)
      totals := ← r.required "project_totals" ProjectTotals.ofJson?
      topOffenders := ← r.withDefault "top_offenders" (Value.listOf? Offender.ofJson?) []
      skipped := ← r.withDefault "skipped" (Value.listOf? Value.text?) [] }

/-- The first part of a version. -/
def majorOf (version : String) : List Char := version.toList.takeWhile (· != '.')

/-- The report in the text of a file. Reports of the same major version are read. -/
def load (path text : String) : Except Error ProjectReport :=
  match (Json.parse? text).bind ofJson? with
  | none => .error (.configuration (.notAReport path))
  | some p =>
    if majorOf p.schemaVersion == majorOf CodeMetrics.schemaVersion then .ok p
    else .error (.configuration (.otherSchema path p.schemaVersion CodeMetrics.schemaVersion))

end ProjectReport

end CodeMetrics
