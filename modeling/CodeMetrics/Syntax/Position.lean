import CodeMetrics.Syntax.Tree

/-! Rows and columns. Both follow from a byte offset: the row is the number of line feeds before it,
    the column the number of bytes since the last one. -/

namespace CodeMetrics

/-- The byte that ends a line. -/
def lineFeed : UInt8 := 0x0A

/-- A place in the source, counted from zero. -/
structure Position where
  row : Nat
  column : Nat
deriving DecidableEq, Repr

/-- The position of a byte offset. -/
def Position.of (source : List UInt8) (offset : Nat) : Position :=
  let before := source.take offset
  ⟨before.count lineFeed, (before.reverse.takeWhile (· != lineFeed)).length⟩

/-- A stretch of the source, lines and columns counted from one. -/
structure Span where
  startLine : Nat
  startColumn : Nat
  endLine : Nat
  endColumn : Nat
deriving DecidableEq, Repr

namespace Span

/-- The stretch a node covers. -/
def of (source : List UInt8) (t : Tree) : Span :=
  let first := Position.of source t.label.start
  let last := Position.of source t.label.stop
  ⟨first.row + 1, first.column + 1, last.row + 1, last.column + 1⟩

/-- The number of lines a stretch touches. -/
def physicalLines (s : Span) : Nat := (s.endLine - s.startLine) + 1

/-- Where a stretch starts, as messages show it. -/
def display (s : Span) : String := s!"{s.startLine}:{s.startColumn}"

end Span

end CodeMetrics
