import CodeMetrics.Report.File
import CodeMetrics.Report.Heap

/-! The worst routines of a project by cognitive complexity. A heap holds those kept so far with the
    mildest on top, which is the one to give way when a worse one comes. -/

namespace CodeMetrics

/-- An entry of the list of the worst routines. -/
structure Offender where
  path : String
  language : String
  name : String
  kind : RoutineKind
  startLine : Nat
  startColumn : Nat
  endLine : Nat
  cyclomatic : Nat
  cognitive : Nat
  nestingDepth : Nat
deriving DecidableEq, Repr

namespace Offender

/-- The entry of a routine of a file. -/
def of (file : FileReport) (r : RoutineMetrics) : Offender where
  path := file.path
  language := file.language
  name := r.name
  kind := r.kind
  startLine := r.startLine
  startColumn := r.startColumn
  endLine := r.endLine
  cyclomatic := r.cyclomatic
  cognitive := r.cognitive
  nestingDepth := r.nestingDepth

/-- The order of entries: the worse one is less. Among equals the place in the project decides. -/
def rank (a b : Offender) : Ordering :=
  (compare b.cognitive a.cognitive).then <|
    (compare a.path b.path).then <|
      (compare a.startLine b.startLine).then <|
        (compare a.startColumn b.startColumn).then (compare a.name b.name)

/-- Whether an entry is at least as bad as another. -/
def notMilder (a b : Offender) : Bool := a.rank b != .gt

end Offender

/-- The worst entries so far, at most `limit` of them. -/
structure TopOffenders where
  limit : Nat
  heap : Array Offender := #[]

namespace TopOffenders

/-- Takes in an entry where it is among the worst. -/
def offer (top : TopOffenders) (o : Offender) : TopOffenders :=
  if top.limit = 0 then top
  else if top.heap.size = top.limit ∧ top.heap[0]?.any (fun mildest => o.rank mildest != .lt) then
    top
  else
    let heap := Heap.push Offender.notMilder top.heap o
    { top with heap := if top.limit < heap.size then Heap.pop Offender.notMilder heap else heap }

/-- The entries, the worst first. -/
def toSorted (top : TopOffenders) : List Offender := Heap.toSorted Offender.notMilder top.heap

/-- The worst of some entries. -/
def select (limit : Nat) (offered : List Offender) : List Offender :=
  (offered.foldl offer ⟨limit, #[]⟩).toSorted

end TopOffenders

end CodeMetrics
