import CodeMetrics.Measure.Abc
import CodeMetrics.Measure.Complexity
import CodeMetrics.Measure.Lines
import CodeMetrics.Measure.Maintainability
import CodeMetrics.Measure.Routine

/-! All measures of a routine. -/

namespace CodeMetrics

/-- The measures of a routine. -/
structure RoutineMetrics where
  name : String
  kind : RoutineKind
  startLine : Nat
  startColumn : Nat
  endLine : Nat
  endColumn : Nat
  scopeDepth : Nat
  cyclomatic : Nat
  cognitive : Nat
  nestingDepth : Nat
  logicalLines : Nat
  physicalLines : Nat
  exits : Nat
  parameters : Nat
  halstead : Halstead
  maintainability : Maintainability
  abc : Abc
deriving BEq, Repr

namespace RoutineMetrics

/-- The number of parameters that a child of a parameter list declares. -/
def parametersAt (g : Grammar) (t : Tree) : Nat :=
  if !t.isPart || g.parameterSeparators.contains t.kind then 0
  else if g.groupedParameterKinds.contains t.kind then max (t.childrenIn "name").length 1
  else 1

/-- The number of parameters. A lone parameter may stand without a list. -/
def parameterCount (g : Grammar) (routine : Tree) : Nat :=
  match routine.child? "parameters" with
  | some list => sumOf (list.children.map (parametersAt g))
  | none => if (routine.child? "parameter").isSome then 1 else 0

/-- The measures of a routine. -/
def of (g : Grammar) (source : List UInt8) (r : Routine) : RoutineMetrics :=
  let flow := Complexity.of g r.tree
  let halstead := Halstead.of g source r.tree
  { name := r.name
    kind := r.kind
    startLine := r.span.startLine
    startColumn := r.span.startColumn
    endLine := r.span.endLine
    endColumn := r.span.endColumn
    scopeDepth := r.depth
    cyclomatic := flow.cyclomatic
    cognitive := flow.cognitive
    nestingDepth := flow.nestingDepth
    logicalLines := LineCounts.logicalOfRoutine g r.tree
    physicalLines := r.span.physicalLines
    exits := flow.exits
    parameters := parameterCount g r.tree
    halstead
    maintainability :=
      Maintainability.compute halstead.volume flow.cyclomatic r.span.physicalLines
    abc := Abc.of g r.tree }

end RoutineMetrics

/-- Named functions and methods, and lambdas. -/
structure RoutineCounts where
  functions : Nat := 0
  closures : Nat := 0
deriving DecidableEq, Repr

namespace RoutineCounts

/-- The counts of some routines. -/
def of (routines : List RoutineMetrics) : RoutineCounts :=
  let closures := routines.countP fun r => r.kind == .lambda
  ⟨routines.length - closures, closures⟩

/-- All routines. -/
def total (c : RoutineCounts) : Nat := c.functions + c.closures

/-- Sums of counts. -/
def add (a b : RoutineCounts) : RoutineCounts :=
  ⟨a.functions + b.functions, a.closures + b.closures⟩

end RoutineCounts

end CodeMetrics
