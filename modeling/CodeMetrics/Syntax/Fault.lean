import CodeMetrics.Syntax.Position

/-! Syntax errors that a grammar recovered from. A node that is an error, or was put in because
    something is missing, counts once, whatever lies below it. -/

namespace CodeMetrics

/-- A syntax error, line and column counted from one. -/
structure SyntaxFault where
  byteOffset : Nat
  line : Nat
  column : Nat
  message : String
deriving DecidableEq, Repr

namespace SyntaxFault

/-- Whether a node is a syntax error itself. -/
def isFault (t : Tree) : Bool := t.label.error || t.label.missing

/-- What a faulty node stands for. -/
def describe (t : Tree) : String :=
  if t.label.error then "unexpected syntax" else "missing \x60" ++ t.kind ++ "\x60"

/-- The syntax error of a node. -/
def of (source : List UInt8) (t : Tree) : SyntaxFault :=
  let place := Position.of source t.label.start
  ⟨t.label.start, place.row + 1, place.column + 1, describe t⟩

/-- Only nodes with an error below are searched, and no fault is looked into. -/
def searches (parent _child : Tree) : Bool := parent.label.hasError && !isFault parent

/-- The topmost faults of a tree, in source order. -/
def nodesIn (root : Tree) : List Tree :=
  if root.label.hasError then (root.walk searches).filter isFault else []

/-- The syntax errors of a tree, in source order. -/
def collect (source : List UInt8) (root : Tree) : List SyntaxFault :=
  (nodesIn root).map (of source)

end SyntaxFault

end CodeMetrics
