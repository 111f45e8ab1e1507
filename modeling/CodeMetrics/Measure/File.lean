import CodeMetrics.Measure.Classes

/-! All measures of a file. -/

namespace CodeMetrics

/-- The measures of a file. -/
structure FileMeasures where
  routines : List RoutineMetrics
  lines : LineCounts
  classes : List ClassMetrics
deriving BEq, Repr

/-- The measures of a file: every routine by itself, its lines, and its methods by class. -/
def FileMeasures.of (g : Grammar) (source : List UInt8) (root : Tree) : FileMeasures :=
  let routines := (Routine.all g source root).map fun r => (r, RoutineMetrics.of g source r)
  { routines := routines.map (·.2)
    lines := LineCounts.of g source root
    classes := ClassMetrics.of g source routines }

end CodeMetrics
