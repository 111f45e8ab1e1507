import CodeMetrics.Measure.Metrics

/-! Methods by class. A method belongs to the type of its receiver, or else to the nearest class
    around it with no routine between them. Declarations that share a name are one class. -/

namespace CodeMetrics

/-- A class with the number of its methods and the sum of their cyclomatic complexity. -/
structure ClassMetrics where
  name : String
  startLine : Nat
  methods : Nat
  wmc : Nat
deriving DecidableEq, Repr

/-- What a method belongs to. -/
structure Owner where
  name : String
  line : Nat
deriving DecidableEq, Repr

namespace Owner

/-- The line a node starts on. -/
def lineOf (source : List UInt8) (t : Tree) : Nat := (Position.of source t.label.start).row + 1

/-- The text of a node. -/
def textOf (source : List UInt8) (t : Tree) : String := Utf8.decodeLossy (t.bytes source)

/-- The node that names a type, without the arguments of a generic one. -/
def baseOf (t : Tree) : Tree :=
  if t.kind == "generic_type" then (t.child? "type").getD t else t

/-- The owner that a class is. -/
def ofClass (source : List UInt8) (t : Tree) : Owner :=
  let line := lineOf source t
  match (t.child? "name").or (t.child? "type") with
  | some name => ⟨textOf source (baseOf name), line⟩
  | none => ⟨anonymous ++ "@" ++ toString line, line⟩

/-- The owner that a receiver tells, on the line of the method. -/
def ofReceiver? (source : List UInt8) (method receiver : Tree) : Option Owner :=
  ((receiver.walk fun _ c => c.isNamed).find? fun t => t.kind == "type_identifier").map fun t =>
    ⟨textOf source t, lineOf source method⟩

/-- The owner among the nodes around a method, innermost first. -/
def around? (g : Grammar) (source : List UInt8) : List Tree → Option Owner
  | [] => none
  | t :: rest =>
    if g.isClass t then some (ofClass source t)
    else if g.isRoutine t then none
    else around? g source rest

/-- The owner of a method. -/
def of? (g : Grammar) (source : List UInt8) (site : Site) : Option Owner :=
  match site.tree.child? "receiver" with
  | some receiver => ofReceiver? source site.tree receiver
  | none => around? g source site.above

end Owner

namespace ClassMetrics

/-- The owners of the methods among some routines, each with the method's cyclomatic complexity. -/
def owned (g : Grammar) (source : List UInt8) (routines : List (Routine × RoutineMetrics)) :
    List (Owner × Nat) :=
  routines.filterMap fun (r, m) =>
    if r.kind = .method then (Owner.of? g source r.site).map (·, m.cyclomatic) else none

/-- The class of a name: it starts where its first declaration does. -/
def ofName (owned : List (Owner × Nat)) (name : String) : ClassMetrics :=
  let own := owned.filter fun (o, _) => o.name == name
  let lines := own.map (·.1.line)
  ⟨name, lines.foldl min (lines.headD 0), own.length, sumOf (own.map (·.2))⟩

/-- Classes are in the order of their first lines, then of their names. -/
def notAfter (a b : ClassMetrics) : Bool :=
  a.startLine < b.startLine || (a.startLine == b.startLine && a.name ≤ b.name)

/-- The classes of some routines. -/
def of (g : Grammar) (source : List UInt8) (routines : List (Routine × RoutineMetrics)) :
    List ClassMetrics :=
  let owned := owned g source routines
  ((owned.map (·.1.name)).eraseDups.map (ofName owned)).mergeSort notAfter

end ClassMetrics

end CodeMetrics
