import CodeMetrics.Error
import CodeMetrics.Language.Basic
import CodeMetrics.Measure.File
import CodeMetrics.Syntax.Fault

/-! The entry of one file in a report. -/

namespace CodeMetrics

/-- How far a file was measured. -/
inductive FileStatus where
  /-- Without syntax errors. -/
  | ok
  /-- In spite of syntax errors. -/
  | partly
  /-- Not at all. -/
  | failed
deriving DecidableEq, Repr

namespace FileStatus

/-- The name of a status. -/
def name : FileStatus → String
  | .ok => "ok"
  | .partly => "partial"
  | .failed => "failed"

def all : List FileStatus := [.ok, .partly, .failed]

/-- A status by its name. -/
def ofName? (s : String) : Option FileStatus := all.find? fun status => status.name == s

end FileStatus

/-- A total over a count; zero where there is nothing to count. -/
def mean (total : Float) (count : Nat) : Float :=
  if count = 0 then 0.0 else total / Float.ofNat count

/-- A sum of numbers, in order. A sum of none is the negative zero, the neutral element. -/
def floatSum (xs : List Float) : Float := xs.foldl (· + ·) (-0.0)

/-- Sum, mean and maximum of a count. -/
structure Stat where
  sum : Nat := 0
  average : Float := 0.0
  max : Nat := 0
deriving BEq, Repr

/-- The statistics of some values. -/
def Stat.of (values : List Nat) : Stat where
  sum := sumOf values
  average := mean (Float.ofNat (sumOf values)) values.length
  max := values.foldl Nat.max 0

/-- The totals of a file. -/
structure FileTotals where
  functions : Nat := 0
  lines : LineCounts := {}
  cyclomatic : Stat := {}
  cognitive : Stat := {}
  maxNestingDepth : Nat := 0
  halsteadVolume : Float := 0.0
  /-- The mean of the rescaled index over the routines. -/
  maintainability : Float := 0.0
  counts : RoutineCounts := {}
  /-- The sum over the classes. -/
  wmc : Nat := 0
  /-- The sum over the routines. -/
  abcMagnitude : Float := 0.0
deriving BEq, Repr

/-- The totals of measures. -/
def FileTotals.of (m : FileMeasures) : FileTotals where
  functions := m.routines.length
  lines := m.lines
  cyclomatic := Stat.of (m.routines.map (·.cyclomatic))
  cognitive := Stat.of (m.routines.map (·.cognitive))
  maxNestingDepth := (m.routines.map (·.nestingDepth)).foldl Nat.max 0
  halsteadVolume := floatSum (m.routines.map (·.halstead.volume))
  maintainability :=
    mean (floatSum (m.routines.map (·.maintainability.rescaled))) m.routines.length
  counts := RoutineCounts.of m.routines
  wmc := sumOf (m.classes.map (·.wmc))
  abcMagnitude := floatSum (m.routines.map (·.abc.magnitude))

/-- The entry of a file. -/
structure FileReport where
  path : String
  language : String
  status : FileStatus
  error : Option String := none
  faults : List SyntaxFault := []
  routines : List RoutineMetrics := []
  classes : List ClassMetrics := []
  totals : FileTotals := {}
deriving BEq, Repr

namespace FileReport

/-- The error that sums up syntax errors, if there are any. -/
def recovery? (faults : List SyntaxFault) : Option Error :=
  faults.head?.map fun first => .recovered faults.length first.line

/-- The entry of a measured file. -/
def measured (path : String) (language : Language) (m : FileMeasures)
    (faults : List SyntaxFault) : FileReport where
  path
  language := language.name
  status := if faults.isEmpty then .ok else .partly
  error := (recovery? faults).map Error.message
  faults
  routines := m.routines
  classes := m.classes
  totals := FileTotals.of m

/-- The entry of a file that could not be measured. -/
def failed (path : String) (language : Option Language) (error : Error) : FileReport where
  path
  language := language.elim "unknown" Language.name
  status := .failed
  error := some error.message

end FileReport

end CodeMetrics
