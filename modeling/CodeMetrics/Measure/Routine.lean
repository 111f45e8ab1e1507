import CodeMetrics.Language.Grammar
import CodeMetrics.Syntax.Position
import CodeMetrics.Text.Utf8

/-! The routines of a file: functions, methods and lambdas. Several patterns may find the same node;
    then the kind of the highest rank counts, and a name counts more than none. -/

namespace CodeMetrics

/-- What a routine without a name is called. -/
def anonymous : String := "<anonymous>"

/-- One finding of a routine. -/
structure Finding where
  site : Site
  kind : RoutineKind
  name : Option String

/-- A routine and the node that declares it. -/
structure Routine where
  name : String
  kind : RoutineKind
  span : Span
  /-- The number of routines around it. -/
  depth : Nat
  site : Site

namespace Finding

/-- The text of a name; an empty one is none. -/
def nameAt (source : List UInt8) (s : Site) : Option String :=
  (Utf8.decode? (s.tree.bytes source)).filter (· != "")

/-- The routines that a match marks. -/
def routinesIn (found : List (RoutineMark × Site)) : List (Site × RoutineKind) :=
  found.filterMap fun
    | (.routine kind, s) => some (s, kind)
    | (.name, _) => none

/-- The names that a match marks. -/
def namesIn (found : List (RoutineMark × Site)) : List Site :=
  found.filterMap fun
    | (.name, s) => some s
    | (.routine _, _) => none

/-- The finding of a match, the last marks of each sort counting. -/
def ofMatch? (source : List UInt8) (found : List (RoutineMark × Site)) : Option Finding := do
  let (site, kind) ← (routinesIn found).getLast?
  some ⟨site, kind, (namesIn found).getLast?.bind (nameAt source)⟩

/-- All findings in a tree. -/
def all (g : Grammar) (source : List UInt8) (root : Tree) : List Finding :=
  (Pattern.matchesIn g.routines root).filterMap (ofMatch? source)

/-- The findings at the same node as one of them. -/
def alike (findings : List Finding) (f : Finding) : List Finding :=
  findings.filter fun other => other.site.way == f.site.way

/-- One finding for each node, in order of the first. -/
def distinct : List Finding → List Finding
  | [] => []
  | f :: rest => f :: (distinct rest).filter fun other => other.site.way != f.site.way

/-- The kind of the highest rank. -/
def bestKind (f : Finding) (others : List Finding) : RoutineKind :=
  others.foldl (fun kind other => kind.higher other.kind) f.kind

/-- The first name. -/
def firstName (findings : List Finding) : Option String := findings.findSome? (·.name)

end Finding

namespace Routine

/-- The routine of all findings at one node. -/
def ofFindings (g : Grammar) (source : List UInt8) (findings : List Finding) (f : Finding) :
    Routine :=
  let same := Finding.alike findings f
  { name := (Finding.firstName same).getD anonymous
    kind := f.bestKind same
    span := Span.of source f.site.tree
    depth := (f.site.above.filter g.isRoutine).length
    site := f.site }

/-- Routines are in the order of their start, an enclosing one after what it starts with. -/
def notAfter (a b : Routine) : Bool :=
  let x := a.site.tree.label
  let y := b.site.tree.label
  x.start < y.start || (x.start == y.start && x.stop ≤ y.stop)

/-- The routines of some findings. -/
def collect (g : Grammar) (source : List UInt8) (findings : List Finding) : List Routine :=
  ((Finding.distinct findings).map (ofFindings g source findings)).mergeSort notAfter

/-- The routines of a tree. -/
def all (g : Grammar) (source : List UInt8) (root : Tree) : List Routine :=
  collect g source (Finding.all g source root)

/-- The node that declares a routine. -/
def tree (r : Routine) : Tree := r.site.tree

end Routine

end CodeMetrics
