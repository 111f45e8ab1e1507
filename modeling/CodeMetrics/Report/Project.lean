import CodeMetrics.Report.Offender

/-! The report of a project. -/

namespace CodeMetrics

/-- How many values lie in a range. -/
structure Bucket where
  range : String
  count : Nat
deriving DecidableEq, Repr

/-- The sums of one language. -/
structure LanguageSummary where
  files : Nat := 0
  functions : Nat := 0
  codeLines : Nat := 0
  cyclomatic : Nat := 0
deriving DecidableEq, Repr

/-- The totals of a project. -/
structure ProjectTotals where
  files : Nat := 0
  filesOk : Nat := 0
  filesPartial : Nat := 0
  filesFailed : Nat := 0
  functions : Nat := 0
  lines : LineCounts := {}
  cyclomatic : Stat := {}
  cognitive : Stat := {}
  maxNestingDepth : Nat := 0
  halsteadVolume : Float := 0.0
  maintainability : Float := 0.0
  counts : RoutineCounts := {}
  classes : Nat := 0
  wmc : Nat := 0
  abcMagnitude : Float := 0.0
  cyclomaticDistribution : List Bucket := []
  cognitiveDistribution : List Bucket := []
  /-- By name, in the order of names. -/
  languages : List (String × LanguageSummary) := []
deriving BEq, Repr

/-- The report of a project. -/
structure ProjectReport where
  schemaVersion : String
  toolVersion : String
  generatedAt : Option String := none
  cancelled : Bool := false
  files : List FileReport
  totals : ProjectTotals
  topOffenders : List Offender := []
  /-- Paths of files whose language is not known. -/
  skipped : List String := []
deriving BEq, Repr

/-- The version of the layout of reports. -/
def schemaVersion : String := "1.1"

/-- The version of the program. -/
def toolVersion : String := "0.1.0"

/-- Puts a value under a name in a list in the order of names, in place of what was there. -/
def insertSorted {α : Type} (name : String) (a : α) : List (String × α) → List (String × α)
  | [] => [(name, a)]
  | (other, b) :: rest =>
    match compare name other with
    | .lt => (name, a) :: (other, b) :: rest
    | .eq => (name, a) :: rest
    | .gt => (other, b) :: insertSorted name a rest

end CodeMetrics
