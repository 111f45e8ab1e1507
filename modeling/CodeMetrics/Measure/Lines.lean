import CodeMetrics.Language.Grammar
import CodeMetrics.Measure.Sum
import CodeMetrics.Syntax.Position
import CodeMetrics.Text.Blank

/-! Lines. Logical lines are statements. A line of a file is code, comment, both, blank, or none of
    these where it only holds what the grammar skips. -/

namespace CodeMetrics

/-- The line counts of a file. -/
structure LineCounts where
  total : Nat := 0
  code : Nat := 0
  comment : Nat := 0
  blank : Nat := 0
  logical : Nat := 0
deriving DecidableEq, Repr

namespace LineCounts

/-- Sums of line counts. -/
def add (a b : LineCounts) : LineCounts :=
  ⟨a.total + b.total, a.code + b.code, a.comment + b.comment, a.blank + b.blank,
    a.logical + b.logical⟩

/-! ### Logical lines -/

/-- A block that ends in an expression instead of a statement. -/
def endsInExpression (g : Grammar) (block : Tree) : Bool :=
  g.tailExpressions && block.kind == "block" &&
    block.parts.getLast?.any fun last => !g.isStatement last && !g.isLabel last

/-- The logical lines right below a node. -/
def logicalAt (g : Grammar) (t : Tree) : Nat :=
  t.children.countP g.isStatement + if endsInExpression g t then 1 else 0

/-- The logical lines of a routine, without those of routines inside. -/
def logicalOfRoutine (g : Grammar) (routine : Tree) : Nat :=
  sumOf ((routine.walk fun _ c => c.isNamed && !g.isRoutine c).map (logicalAt g))

/-- The logical lines of a file. -/
def logicalOfFile (g : Grammar) (root : Tree) : Nat :=
  sumOf ((root.walk fun _ c => c.isNamed).map (logicalAt g))

/-! ### Lines of a file -/

/-- The pieces of the source between line feeds, at least one. -/
def pieces : List UInt8 → List (List UInt8)
  | [] => [[]]
  | b :: bs =>
    if b == lineFeed then [] :: pieces bs
    else match pieces bs with
      | [] => [[b]]
      | piece :: rest => (b :: piece) :: rest

/-- The number of lines: what follows the last line feed counts where it is not empty. -/
def lineTotal (source : List UInt8) : Nat :=
  if source.isEmpty then 0
  else source.count lineFeed + if source.getLast? == some lineFeed then 0 else 1

/-- The first and the last row that a node touches. One that ends at the start of a row stops before
    it. -/
def rowsOf (source : List UInt8) (t : Tree) : Nat × Nat :=
  let first := Position.of source t.label.start
  let last := Position.of source t.label.stop
  (first.row, if last.column = 0 ∧ first.row < last.row then last.row - 1 else last.row)

/-- Whether a row is in one of some stretches of rows. -/
def touches (stretches : List (Nat × Nat)) (row : Nat) : Bool :=
  stretches.any fun (first, last) => first ≤ row && row ≤ last

/-- A statement that consists of nothing but a string. -/
def isDocstring (g : Grammar) (t : Tree) : Bool :=
  g.docstrings && t.kind == "expression_statement" &&
    t.onlyPart?.any fun only => only.kind == "string" || only.kind == "concatenated_string"

/-- The nodes of a file that are code or documentation. -/
def solidNodes (g : Grammar) (root : Tree) : List Tree :=
  if root.isSolid then root.walk fun parent c => !isDocstring g parent && c.isSolid else []

/-- A leaf that is code. -/
def isCode (g : Grammar) (t : Tree) : Bool :=
  !isDocstring g t && t.isLeaf && t.coversText && t.kind != "\n" && t.kind != "\x00"

/-- The nodes that make their rows comment. -/
def commentNodes (g : Grammar) (root : Tree) : List Tree :=
  root.nodes.filter g.isComment ++ (solidNodes g root).filter (isDocstring g)

/-- The nodes that make their rows code. -/
def codeNodes (g : Grammar) (root : Tree) : List Tree := (solidNodes g root).filter (isCode g)

/-- The line counts of a file. -/
def of (g : Grammar) (source : List UInt8) (root : Tree) : LineCounts :=
  let total := lineTotal source
  let rows := (pieces source).take total
  let isComment := touches ((commentNodes g root).map (rowsOf source))
  let isCode := touches ((codeNodes g root).map (rowsOf source))
  { total
    code := (List.range total).countP isCode
    comment := (List.range total).countP isComment
    blank := rows.zipIdx.countP fun (piece, row) =>
      !isCode row && !isComment row && piece.all isAsciiBlank
    logical := logicalOfFile g root }

end LineCounts

end CodeMetrics
