import CodeMetrics.Language.Grammar
import CodeMetrics.Measure.Sum

/-! Assignments, branches and conditions of a routine. Branches are calls. Conditions are comparisons
    and what is only done otherwise: clauses for the rest, cases, handlers, ternaries, guards. -/

namespace CodeMetrics

/-- The three counts and their length as a vector. -/
structure Abc where
  assignments : Nat
  branches : Nat
  conditions : Nat
  magnitude : Float
deriving BEq, Repr

namespace Abc

/-- The length of three counts. -/
def ofCounts (assignments branches conditions : Nat) : Abc :=
  let a := Float.ofNat assignments
  let b := Float.ofNat branches
  let c := Float.ofNat conditions
  ⟨assignments, branches, conditions, (a * a + b * b + c * c).sqrt⟩

/-- Routines inside, and what is not in the source, are not entered. -/
def enters (g : Grammar) (_parent child : Tree) : Bool :=
  child.isNamed && child.isSolid && !g.isRoutine child

/-- The named nodes of a routine. -/
def nodes (g : Grammar) (routine : Tree) : List Tree :=
  if routine.isSolid then routine.walk (enters g) else []

/-- Whether a node is a condition by itself. -/
def isCondition (g : Grammar) (t : Tree) : Bool :=
  match g.construct? t with
  | some .otherwise | some .case | some .handler | some .ternary | some .guard
  | some .tryOperator => true
  | _ => g.isGuarded t

/-- The number of comparisons that a node makes. -/
def comparisons (g : Grammar) (t : Tree) : Nat :=
  t.children.countP fun c => c.isSolid && g.isComparison t c

/-- The number of conditions at a node. -/
def conditionsAt (g : Grammar) (t : Tree) : Nat :=
  (if isCondition g t then 1 else 0) + comparisons g t

/-- The counts of a routine. -/
def of (g : Grammar) (routine : Tree) : Abc :=
  let nodes := nodes g routine
  ofCounts (nodes.countP g.isAssignment) (nodes.countP g.isCall)
    (sumOf (nodes.map (conditionsAt g)))

end Abc

end CodeMetrics
