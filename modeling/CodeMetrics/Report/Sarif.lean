import CodeMetrics.Json.Writer
import CodeMetrics.Report.Project

/-! Reports for editors and build servers, in the static-analysis interchange format: files that
    could not be measured, files with syntax errors and routines above a threshold. -/

namespace CodeMetrics.Sarif

open Json (Value)

/-- What a result can be about. -/
inductive Rule where
  | complexity
  | parseFailure
  | syntaxFault
deriving DecidableEq, Repr

namespace Rule

/-- The rules, in the order of their names. -/
def all : List Rule := [.complexity, .parseFailure, .syntaxFault]

def id : Rule → String
  | .complexity => "high-cognitive-complexity"
  | .parseFailure => "parse-failure"
  | .syntaxFault => "syntax-error"

def title : Rule → String
  | .complexity => "HighCognitiveComplexity"
  | .parseFailure => "ParseFailure"
  | .syntaxFault => "SyntaxError"

def brief : Rule → String
  | .complexity => "Function is hard to understand"
  | .parseFailure => "File could not be analyzed"
  | .syntaxFault => "File contains syntax errors"

def explanation : Rule → String
  | .complexity =>
    "The function's cognitive complexity exceeds the configured threshold. Deeply nested branches, "
      ++ "long boolean chains and early exits all add to it."
  | .parseFailure =>
    "The file was not measured: its language is unknown, it is not valid UTF-8 text, or it could "
      ++ "not be read or parsed."
  | .syntaxFault =>
    "The parser recovered from syntax errors. Metrics were computed for the rest of the file and "
      ++ "may be incomplete."

def level : Rule → String
  | .parseFailure => "error"
  | .complexity | .syntaxFault => "warning"

end Rule

/-- Where a result is. -/
structure Region where
  startLine : Nat
  startColumn : Option Nat := none
  endLine : Option Nat := none
deriving DecidableEq, Repr

/-- One result. -/
structure Result where
  rule : Rule
  text : String
  path : String
  region : Region
deriving DecidableEq, Repr

/-- The result of a routine above a threshold. -/
def routineResult (threshold : Nat) (path : String) (r : RoutineMetrics) : Result where
  rule := .complexity
  text :=
    r.kind.name ++ " '" ++ r.name ++ "' has cognitive complexity " ++ toString r.cognitive
      ++ " (threshold " ++ toString threshold ++ "), cyclomatic " ++ toString r.cyclomatic
  path
  region := ⟨max r.startLine 1, some (max r.startColumn 1), some (max r.endLine 1)⟩

/-- The result of a file as a whole, if it was not measured well. -/
def statusResult? (file : FileReport) : Option Result :=
  match file.status with
  | .ok => none
  | .failed =>
    some ⟨.parseFailure, file.error.getD "file could not be analyzed", file.path, ⟨1, none, none⟩⟩
  | .partly =>
    let text := file.error.getD (toString file.faults.length ++ " syntax error(s)")
    let region : Region := match file.faults with
      | [] => ⟨1, none, none⟩
      | first :: _ => ⟨max first.line 1, some first.column, none⟩
    some ⟨.syntaxFault, text, file.path, region⟩

/-- The results of a file. -/
def fileResults (threshold : Nat) (file : FileReport) : List Result :=
  (statusResult? file).toList
    ++ (file.routines.filter fun r => threshold < r.cognitive).map
      (routineResult threshold file.path)

/-- The results of a report, in the order of its files. -/
def results (threshold : Nat) (report : ProjectReport) : List Result :=
  report.files.flatMap (fileResults threshold)

/-! ### Document -/

def message (s : String) : Value := .object [("text", .text s)]

def Rule.toJson (r : Rule) : Value :=
  .object
    [("id", .text r.id), ("name", .text r.title), ("shortDescription", message r.brief),
     ("fullDescription", message r.explanation),
     ("defaultConfiguration", .object [("level", .text r.level)])]

def Region.toJson (r : Region) : Value :=
  .object
    ([("startLine", .nat r.startLine)]
      ++ (r.startColumn.map fun n => ("startColumn", Value.nat n)).toList
      ++ (r.endLine.map fun n => ("endLine", Value.nat n)).toList)

def Result.toJson (r : Result) : Value :=
  .object
    [("ruleId", .text r.rule.id), ("level", .text r.rule.level), ("message", message r.text),
     ("locations", .list
      [.object
        [("physicalLocation", .object
          [("artifactLocation", .object [("uri", .text r.path)]),
           ("region", r.region.toJson)])]])]

/-- The document of a report. -/
def toJson (threshold : Nat) (report : ProjectReport) : Value :=
  .object
    [("version", .text "2.1.0"),
     ("$schema", .text
      "https://raw.githubusercontent.com/oasis-tcs/sarif-spec/master/Schemata/sarif-schema-2.1.0.json"),
     ("runs", .list
      [.object
        [("tool", .object
          [("driver", .object
            [("name", .text "mehen"), ("version", .text report.toolVersion),
             ("informationUri", .text "https://github.com/mehen-rs/mehen"),
             ("rules", .list (Rule.all.map Rule.toJson))])]),
         ("results", .list ((results threshold report).map Result.toJson))]])]

/-- A report as text. -/
def render (threshold : Nat) (report : ProjectReport) : String :=
  (toJson threshold report).document

end CodeMetrics.Sarif
